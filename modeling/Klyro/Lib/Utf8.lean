import Klyro.Lib.Text

/-!
# Every text survives UTF-8

Decoding what was encoded, the replacing decoder included; on ASCII this is `fromUtf8_ascii`.

* `firstChar_encode` — the encoding of a character is read as that character, whatever follows.
* `fromUtf8_utf8`, `fromUtf8Lossy_utf8` — so is the encoding of a text.
-/

set_option autoImplicit false

namespace Text

/-- The value of a character is a Unicode scalar value. -/
theorem scalar_value (c : Char) : c.toNat < 0xD800 ∨ (0xDFFF < c.toNat ∧ c.toNat < 0x110000) := by
  have h := c.valid
  exact h

theorem toNat_ofNat_byte {n : Nat} (h : n < 256) : (UInt8.ofNat n).toNat = n := by
  rw [UInt8.toNat_ofNat']
  omega

theorem isTail_ofNat {n : Nat} (h : n < 64) : isTail (UInt8.ofNat (n + 128)) = true := by
  unfold isTail
  rw [toNat_ofNat_byte (by omega)]
  simp only [decide_eq_true_eq]
  omega

/-- **A character's encoding is read as that character**, by the number of its bytes. -/
theorem firstChar_encode (c : Char) : ∃ a u, String.utf8EncodeChar c = a :: u ∧
    ∀ t, firstChar a (u ++ t) = (some c, u.length) := by
  have hscalar := scalar_value c
  have hback : ∀ n, n = c.toNat → Char.ofNat n = c := by
    rintro n rfl
    exact Char.ofNat_toNat c
  have hval : c.val.toNat = c.toNat := rfl
  unfold String.utf8EncodeChar
  simp only [hval]
  split
  · rename_i h1
    refine ⟨_, [], rfl, fun t => ?_⟩
    unfold firstChar
    rw [toNat_ofNat_byte (by omega)]
    simp only [show c.toNat < 0x80 by omega, if_true, List.length_nil]
    rw [hback _ rfl]
  split
  · rename_i h1 h2
    refine ⟨_, [_], rfl, fun t => ?_⟩
    unfold firstChar
    simp only [List.cons_append, List.nil_append]
    rw [toNat_ofNat_byte (by omega), toNat_ofNat_byte (by omega), if_neg (by omega), if_pos (by omega),
      if_pos (isTail_ofNat (by omega)), hback _ (by omega)]
    rfl
  split
  · rename_i h1 h2 h3
    refine ⟨_, [_, _], rfl, fun t => ?_⟩
    unfold firstChar
    simp only [List.cons_append, List.nil_append]
    rw [toNat_ofNat_byte (by omega), if_neg (by omega), if_neg (by omega), if_pos (by omega)]
    unfold threeBytes
    simp only []
    rw [toNat_ofNat_byte (by omega), toNat_ofNat_byte (by omega), if_pos ?_,
      if_pos (isTail_ofNat (by omega)), hback _ (by omega)]
    · rfl
    · split <;> split <;> omega
  · rename_i h1 h2 h3
    refine ⟨_, [_, _, _], rfl, fun t => ?_⟩
    unfold firstChar
    simp only [List.cons_append, List.nil_append]
    rw [toNat_ofNat_byte (by omega), if_neg (by omega), if_neg (by omega), if_neg (by omega),
      if_pos (by omega)]
    unfold fourBytes
    simp only []
    rw [toNat_ofNat_byte (by omega), toNat_ofNat_byte (by omega), toNat_ofNat_byte (by omega), if_pos ?_,
      if_pos (isTail_ofNat (by omega)), if_pos (isTail_ofNat (by omega)), hback _ (by omega)]
    · rfl
    · split <;> split <;> omega

/-- Outside ASCII every byte has its high bit set. -/
theorem utf8EncodeChar_high {c : Char} (h : 0x80 ≤ c.toNat) {b : UInt8}
    (hb : b ∈ String.utf8EncodeChar c) : 0x80 ≤ b.toNat := by
  have hscalar := scalar_value c
  have hval : c.val.toNat = c.toNat := rfl
  unfold String.utf8EncodeChar at hb
  simp only [hval] at hb
  split at hb
  · omega
  split at hb
  · simp only [List.mem_cons, List.not_mem_nil, or_false] at hb
    rcases hb with rfl | rfl <;> (rw [toNat_ofNat_byte (by omega)]; omega)
  split at hb
  · simp only [List.mem_cons, List.not_mem_nil, or_false] at hb
    rcases hb with rfl | rfl | rfl <;> (rw [toNat_ofNat_byte (by omega)]; omega)
  · simp only [List.mem_cons, List.not_mem_nil, or_false] at hb
    rcases hb with rfl | rfl | rfl | rfl <;> (rw [toNat_ofNat_byte (by omega)]; omega)

theorem chunks_utf8 : ∀ (cs : List Char) (fuel : Nat), (utf8 cs).length ≤ fuel →
    chunks fuel (utf8 cs) = cs.map some
  | [], 0, _ => rfl
  | [], _ + 1, _ => rfl
  | c :: cs, fuel, h => by
    obtain ⟨a, u, hc, hfirst⟩ := firstChar_encode c
    have hcons : utf8 (c :: cs) = a :: (u ++ utf8 cs) := by
      unfold utf8
      rw [List.flatMap_cons, hc, List.cons_append]
    rw [hcons] at h ⊢
    cases fuel with
    | zero => simp at h
    | succ fuel =>
      unfold chunks
      simp only [hfirst, List.drop_left, List.map_cons]
      rw [chunks_utf8 cs fuel (by simp at h; omega)]

/-- **Every text survives encoding and decoding.** -/
theorem fromUtf8_utf8 (cs : List Char) : fromUtf8 (utf8 cs) = some cs := by
  unfold fromUtf8
  rw [chunks_utf8 cs _ le_rfl, allSome_map_some]

theorem fromUtf8Lossy_utf8 (cs : List Char) : fromUtf8Lossy (utf8 cs) = cs := by
  unfold fromUtf8Lossy
  rw [chunks_utf8 cs _ le_rfl, List.map_map]
  exact List.map_id cs

end Text
