import Klyro.Persist.Basic

/-!
# Reading the pieces of a dump

What the reader makes of a piece that is there, of the end of the input and of a piece that was
cut short.

* `sat_line`, `sat_lineLast`, `sat_lineEnd` — lines.
* `sat_blob`, `sat_blobLast`, `sat_blobEnd`, `sat_blobTorn` — blobs: one that lacks only its
  newline is read like a whole one, one that lacks more is an input error.
* `sat_wordLine` — the line of a list of words, split again.
-/

set_option autoImplicit false

namespace Klyro

open DumpReader

variable {e : Env} {w : World} {R : Panic → Prop} {E : IoError → Bytes → World → Prop}

/-! ## Lines -/

/-- A text that can stand on a line: ASCII, and no line break in it. -/
structure LineText (text : List Char) : Prop where
  ascii : Text.Ascii text
  unbroken : ∀ c ∈ text, isNewline c = false

theorem takeLine_append : ∀ {text : Bytes} (rest : Bytes), 10 ∉ text →
    takeLine (text ++ 10 :: rest) = (text ++ [10], rest)
  | [], rest, _ => rfl
  | b :: text, rest, h => by
    rw [List.mem_cons, not_or] at h
    rw [List.cons_append, takeLine, if_neg (Ne.symm h.1), takeLine_append rest h.2]
    rfl

theorem takeLine_of_notMem : ∀ {text : Bytes}, 10 ∉ text → takeLine text = (text, [])
  | [], _ => rfl
  | b :: text, h => by
    rw [List.mem_cons, not_or] at h
    rw [takeLine, if_neg (Ne.symm h.1), takeLine_of_notMem h.2]

theorem LineText.newline_notMem {text : List Char} (h : LineText text) : 10 ∉ Text.utf8 text := by
  rw [Text.utf8_ascii h.ascii, List.mem_map]
  rintro ⟨c, hc, he⟩
  have hn := h.unbroken c hc
  have hlt := h.ascii c hc
  have hten : c.toNat = 10 := by
    have := congrArg UInt8.toNat he
    simp only [UInt8.toNat_ofNat'] at this
    have h10 : (10 : UInt8).toNat = 10 := rfl
    omega
  have hcn : c = '\n' := Char.ext (UInt32.toNat_inj.mp hten)
  rw [hcn] at hn
  exact absurd hn (by decide)

theorem LineText.trimmed {text : List Char} (h : LineText text) :
    Text.trimEndMatches isNewline text = text :=
  Text.trimEndMatches_of_last fun c hc => h.unbroken c (List.mem_of_getLast? hc)

theorem LineText.trimmed_newline {text : List Char} (h : LineText text) :
    Text.trimEndMatches isNewline (text ++ ['\n']) = text := by
  rw [Text.trimEndMatches_append _ _ (Text.forall_chars (by decide)), h.trimmed]

/-- A whole line. -/
theorem sat_line {text : List Char} {rest : Bytes} {Q : Option (List Char) → Bytes → World → Prop}
    (h : LineText text) (hQ : Q (some text) rest w) :
    Act.SatE line e (Text.utf8 text ++ 10 :: rest) w Q E R := by
  have hnl : Text.utf8 text ++ [10] = Text.utf8 (text ++ ['\n']) := by
    rw [Text.utf8_append]
    rfl
  unfold line
  simp only [Act.satE_bind, Act.satE_lift, Act.sat_get, Act.sat_set]
  rw [takeLine_append rest h.newline_notMem, hnl,
    Text.fromUtf8_ascii (h.ascii.append (.cons (by decide) .nil))]
  dsimp only
  rw [h.trimmed_newline, if_neg (by simp)]
  exact hQ

/-- A line that ends with the input. -/
theorem sat_lineLast {text : List Char} {Q : Option (List Char) → Bytes → World → Prop}
    (h : LineText text) (hne : text ≠ []) (hQ : Q (some text) [] w) :
    Act.SatE line e (Text.utf8 text) w Q E R := by
  have hne' : Text.utf8 text ≠ [] := by
    rw [Text.utf8_ascii h.ascii]
    simpa using hne
  unfold line
  simp only [Act.satE_bind, Act.satE_lift, Act.sat_get, Act.sat_set]
  rw [takeLine_of_notMem h.newline_notMem, Text.fromUtf8_ascii h.ascii]
  dsimp only
  rw [h.trimmed, if_neg hne']
  exact hQ

/-- The end of the input. -/
theorem sat_lineEnd {Q : Option (List Char) → Bytes → World → Prop} (hQ : Q none [] w) :
    Act.SatE line e [] w Q E R := by
  unfold line
  simp only [Act.satE_bind, Act.satE_lift, Act.sat_get, Act.sat_set]
  simpa [takeLine, Text.fromUtf8, Text.chunks, Text.allSome] using hQ

theorem isNewline_of_digit {c : Char} (h : c.isDigit = true) : isNewline c = false := by
  obtain ⟨h1, h2⟩ := Text.toNat_of_isDigit h
  unfold isNewline
  simp only [Bool.or_eq_false_iff, beq_eq_false_iff_ne]
  constructor
  · rintro rfl
    exact absurd h1 (by decide)
  · rintro rfl
    exact absurd h1 (by decide)

theorem isNewline_of_solid {c : Char} (h : Text.isWhitespace c = false) : isNewline c = false := by
  unfold isNewline
  simp only [Bool.or_eq_false_iff, beq_eq_false_iff_ne]
  constructor
  · rintro rfl
    exact absurd h (by decide)
  · rintro rfl
    exact absurd h (by decide)

theorem LineText.of_word {text : List Char} (ha : Text.Ascii text) (h : Text.Word text) :
    LineText text :=
  ⟨ha, fun c hc => isNewline_of_solid (h.solid c hc)⟩

theorem lineText_digits (n : Nat) : LineText (Nat.toDigits 10 n) :=
  .of_word (Text.ascii_toDigits n) (Text.word_toDigits n)

theorem LineText.mono {text t : List Char} (h : LineText text) (ht : t <+: text) : LineText t :=
  ⟨fun c hc => h.ascii c (ht.subset hc), fun c hc => h.unbroken c (ht.subset hc)⟩

/-! ## Blobs -/

/-- A blob after its length line. -/
theorem sat_payload {b rest : Bytes} {Q : Bytes → Bytes → World → Prop} (hQ : Q b rest w) :
    Act.SatE (payload b.length) e (b ++ 10 :: rest) w Q E R := by
  unfold payload
  simp only [Act.satE_bind, Act.satE_lift, Act.sat_get, Act.satE_ite, Act.sat_set, Act.satE_pure]
  refine ⟨fun h => absurd h (by simp), fun _ => ?_⟩
  have hdrop : (b ++ 10 :: rest).drop (b.length + 1) = rest := by
    rw [List.drop_append]
    simp
  rw [hdrop, List.take_left']
  · exact hQ
  · rfl

/-- A blob that lacks its newline. -/
theorem sat_payloadLast {b : Bytes} {Q : Bytes → Bytes → World → Prop} (hQ : Q b [] w) :
    Act.SatE (payload b.length) e b w Q E R := by
  unfold payload
  simp only [Act.satE_bind, Act.satE_lift, Act.sat_get, Act.satE_ite, Act.sat_set, Act.satE_pure]
  refine ⟨fun h => absurd h (by simp), fun _ => ?_⟩
  rw [List.drop_eq_nil_of_le (by omega), List.take_length]
  exact hQ

/-- An input that is too short. -/
theorem sat_payloadTorn {len : Nat} {input : Bytes} {Q : Bytes → Bytes → World → Prop}
    (h : input.length < len) (hE : E .unexpectedEof input w) :
    Act.SatE (payload len) e input w Q E R := by
  unfold payload
  simp only [Act.satE_bind, Act.satE_lift, Act.sat_get, Act.satE_ite, Act.satE_throw]
  exact ⟨fun _ => hE, fun hc => absurd h hc⟩

theorem sat_withCapacity {σ : Type} {s : σ} {count size : Nat} {Q : Unit → σ → World → Prop}
    {E : IoError → σ → World → Prop} (h : count * size ≤ isizeMax) (hQ : Q () s w) :
    Act.SatE (withCapacity count size) e s w Q E R := by
  unfold withCapacity
  simp only [Act.satE_ite, Act.satE_pure]
  exact ⟨fun hc => absurd h (by omega), fun _ => hQ⟩

/-- What is left of `blob` once its length line has been read. -/
theorem sat_blobOf {len : Nat} {input : Bytes} {Q : Option Bytes → Bytes → World → Prop}
    {text : List Char} {tail : Bytes} (hlen : len ≤ isizeMax)
    (htext : Text.parseNat u64Max (Text.trim text) = some len)
    (hline : ∀ {Q' : Option (List Char) → Bytes → World → Prop}, Q' (some text) tail w →
      Act.SatE line e input w Q' E R)
    (h : Act.SatE (payload len) e tail w (fun b s w => Q (some b) s w) E R) :
    Act.SatE blob e input w Q E R := by
  unfold blob
  rw [Act.satE_bind]
  refine hline ?_
  dsimp only
  rw [htext]
  simp only [Act.satE_bind, Act.satE_pure]
  exact sat_withCapacity (by omega) h

theorem parse_length {n : Nat} (h : n ≤ isizeMax) :
    Text.parseNat u64Max (Text.trim (Nat.toDigits 10 n)) = some n := by
  rw [(Text.word_toDigits n).trim]
  refine Text.parseNat_toDigits ?_
  unfold isizeMax at h
  unfold u64Max
  omega

/-- A whole blob. -/
theorem sat_blob {b rest : Bytes} {Q : Option Bytes → Bytes → World → Prop}
    (hlen : b.length ≤ isizeMax) (hQ : Q (some b) rest w) :
    Act.SatE blob e ((Piece.blob b).bytes ++ rest) w Q E R := by
  unfold Piece.bytes
  rw [List.append_assoc, List.cons_append, List.append_assoc]
  exact sat_blobOf hlen (parse_length hlen) (sat_line (lineText_digits _)) (sat_payload hQ)

/-- A blob that lacks only its newline. -/
theorem sat_blobLast {b : Bytes} {Q : Option Bytes → Bytes → World → Prop}
    (hlen : b.length ≤ isizeMax) (hQ : Q (some b) [] w) :
    Act.SatE blob e (Text.utf8 (Nat.toDigits 10 b.length) ++ 10 :: b) w Q E R :=
  sat_blobOf hlen (parse_length hlen) (sat_line (lineText_digits _)) (sat_payloadLast hQ)

/-- The end of the input. -/
theorem sat_blobEnd {Q : Option Bytes → Bytes → World → Prop} (hQ : Q none [] w) :
    Act.SatE blob e [] w Q E R := by
  unfold blob
  rw [Act.satE_bind]
  exact sat_lineEnd hQ

/-- A prefix of a sequence ends in the first part, or goes on into the second. -/
theorem prefix_append_cases {α : Type} {t a b : List α} (h : t <+: a ++ b) :
    t <+: a ∨ ∃ c, t = a ++ c ∧ c <+: b := by
  rcases List.prefix_or_prefix_of_prefix h (List.prefix_append a b) with h' | ⟨c, rfl⟩
  · exact .inl h'
  · exact .inr ⟨c, rfl, (List.prefix_append_right_inj a).mp h⟩

theorem prefix_utf8 {t : Bytes} {text : List Char} (ha : Text.Ascii text) (h : t <+: Text.utf8 text) :
    ∃ d, d <+: text ∧ t = Text.utf8 d := by
  rw [Text.utf8_ascii ha] at h
  obtain ⟨d, hd, rfl⟩ := List.prefix_map_iff.mp h
  exact ⟨d, hd, (Text.utf8_ascii fun c hc => ha c (hd.subset hc)).symm⟩

/-- A blob cut inside its length. -/
theorem sat_blobTornLength {b t : Bytes} {Q : Option Bytes → Bytes → World → Prop}
    (hlen : b.length ≤ isizeMax) (ht : t <+: Text.utf8 (Nat.toDigits 10 b.length)) (hne : t ≠ [])
    (hQ : b = [] → Q (some b) [] w) (hE : b ≠ [] → E .unexpectedEof [] w) :
    Act.SatE blob e t w Q E R := by
  have hdig := lineText_digits b.length
  obtain ⟨d, hd, rfl⟩ := prefix_utf8 hdig.ascii ht
  have hdne : d ≠ [] := by
    rintro rfl
    exact hne rfl
  by_cases hb : b = []
  · subst hb
    have hd0 : d = Nat.toDigits 10 0 := by
      rcases List.prefix_concat_iff.mp (show d <+: [] ++ ['0'] from hd) with h | h
      · exact h
      · exact absurd (List.prefix_nil.mp h) hdne
    subst hd0
    have hzero : 0 ≤ isizeMax := by decide
    refine sat_blobOf hzero (parse_length hzero) (sat_lineLast (hdig.mono hd) hdne) ?_
    exact sat_payloadLast (b := []) (hQ rfl)
  · obtain ⟨k, hk, hkn, rfl⟩ := Text.prefix_toDigits hdne (List.length_pos_iff.mpr hb) hd
    exact sat_blobOf (by omega) (parse_length (by omega))
      (sat_lineLast (lineText_digits k) hdne) (sat_payloadTorn (by simpa using hk) (hE hb))

/-- **A blob cut short**: an empty one is read all the same; any other is an input error unless
only its newline is missing. -/
theorem sat_blobTorn {b t : Bytes} {Q : Option Bytes → Bytes → World → Prop}
    (hlen : b.length ≤ isizeMax) (ht : t <+: (Piece.blob b).bytes) (hne : t ≠ [])
    (hshort : t.length < (Piece.blob b).bytes.length)
    (hQ : b = [] ∨ t.length + 1 = (Piece.blob b).bytes.length → Q (some b) [] w)
    (hE : b ≠ [] → t.length + 1 < (Piece.blob b).bytes.length → ∀ s, E .unexpectedEof s w) :
    Act.SatE blob e t w Q E R := by
  unfold Piece.bytes at ht hshort hQ hE
  simp only [List.length_append, List.length_cons, List.length_nil] at hshort hQ hE
  have hlength : t <+: Text.utf8 (Nat.toDigits 10 b.length) → Act.SatE blob e t w Q E R := by
    intro hin
    have hle := hin.length_le
    refine sat_blobTornLength hlen hin hne (fun hb => hQ (.inl hb)) fun hb => ?_
    have hpos := List.length_pos_iff.mpr hb
    exact hE hb (by omega) []
  rcases prefix_append_cases ht with hin | ⟨c, rfl, hc⟩
  · exact hlength hin
  · rcases List.prefix_cons_iff.mp hc with rfl | ⟨c', rfl, hc'⟩
    · rw [List.append_nil] at hlength ⊢
      exact hlength (List.prefix_refl _)
    · simp only [List.length_append, List.length_cons] at hshort hQ hE
      have hpre : c' <+: b := by
        rcases List.prefix_concat_iff.mp hc' with rfl | h
        · rw [List.length_append, List.length_singleton] at hshort
          omega
        · exact h
      have hle := hpre.length_le
      by_cases hb : c'.length = b.length
      · obtain rfl := hpre.eq_of_length hb
        exact sat_blobLast hlen (hQ (.inr (by omega)))
      · have hlt : c'.length < b.length := by omega
        refine sat_blobOf hlen (parse_length hlen) (sat_line (lineText_digits _))
          (sat_payloadTorn hlt (hE ?_ (by omega) _))
        rintro rfl
        exact absurd hlt (by simp)

/-! ## Lines of words -/

theorem lineText_unwords {words : List (List Char)}
    (h : ∀ w ∈ words, Text.Ascii w ∧ Text.Word w) : LineText (Text.unwords words) where
  ascii := Text.ascii_unwords fun w hw => (h w hw).1
  unbroken := by
    intro c hc
    rcases Text.mem_unwords hc with rfl | ⟨v, hv, hcv⟩
    · decide
    · exact isNewline_of_solid ((h v hv).2.solid c hcv)

end Klyro
