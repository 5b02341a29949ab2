import Klyro.Lib.PrefixFree
import Klyro.Resp.Reply

/-!
# No reply breaks its frame

* `Frame` — the wire forms: a line, a null, a counted payload, a counted aggregate of frames.
* `frame_prefixFree` — a frame ends where its first line says.
* `frame_encode` — every reply is encoded to a frame.
-/

set_option autoImplicit false

namespace Klyro

/-- The digits of a count. -/
def digitBytes (n : Nat) : Bytes := Text.utf8 (Nat.toDigits 10 n)

/-- How many frames an aggregate's count stands for: a map counts pairs. -/
def perCount (marker : UInt8) : Option Nat :=
  if marker = 42 ∨ marker = 126 ∨ marker = 62 then some 1
  else if marker = 37 then some 2
  else none

theorem perCount_line {marker : UInt8} (h : marker ∈ [43, 45, 58, 95, 44]) :
    perCount marker = none := by
  simp only [List.mem_cons, List.not_mem_nil, or_false] at h
  rcases h with rfl | rfl | rfl | rfl | rfl <;> rfl

/-- The wire forms of both protocol versions. -/
inductive Frame : Bytes → Prop
  /-- A status, an error, an integer, RESP3's null and RESP3's double. -/
  | line {marker : UInt8} {text : Bytes} : marker ∈ [43, 45, 58, 95, 44] → 13 ∉ text →
      Frame (marker :: (text ++ crlf))
  /-- RESP2's null bulk string and null array. -/
  | null {marker : UInt8} : marker = 36 ∨ marker = 42 →
      Frame (marker :: (Text.bytes "-1" ++ crlf))
  | blob (payload : Bytes) : Frame (encodeBulk payload)
  | aggregate {marker : UInt8} {n k : Nat} {parts : List Bytes} : perCount marker = some k →
      parts.length = k * n → (∀ part ∈ parts, Frame part) →
      Frame (countLine marker n ++ parts.flatten)

/-! ## The first line -/

/-- A visible ASCII text has no line break. -/
theorem not_mem_utf8_of_visible {cs : List Char} (ha : Text.Ascii cs)
    (hs : ∀ c ∈ cs, Text.isWhitespace c = false) {b : UInt8} (hb : b = 13 ∨ b = 10) :
    b ∉ Text.utf8 cs := by
  rw [Text.utf8_ascii ha]
  intro hmem
  obtain ⟨c, hc, hcb⟩ := List.mem_map.mp hmem
  have hlt := ha c hc
  have hnat : c.toNat = b.toNat := by
    rw [← hcb, UInt8.toNat_ofNat']
    omega
  have hsolid := hs c hc
  unfold Text.isWhitespace at hsolid
  rcases hb with rfl | rfl
  · simp [hnat] at hsolid
  · simp [hnat] at hsolid

theorem not_mem_digitBytes (n : Nat) : (13 : UInt8) ∉ digitBytes n :=
  not_mem_utf8_of_visible (Text.ascii_toDigits n) (Text.word_toDigits n).solid (Or.inl rfl)

theorem not_mem_showIntBytes (i : Int) : (13 : UInt8) ∉ showIntBytes i :=
  not_mem_utf8_of_visible (Text.ascii_showInt i) (Text.word_showInt i).solid (Or.inl rfl)

theorem not_mem_null : (13 : UInt8) ∉ Text.bytes "-1" := by decide

/-- The text of a score has no line break. -/
theorem not_mem_formatF64 (x : F64) : (13 : UInt8) ∉ formatF64 x := by
  unfold formatF64
  split
  · split <;> decide
  · exact not_mem_utf8_of_visible x.display_ascii x.display_word.solid (Or.inl rfl)

theorem not_mem_flatBytes (message : String) : (13 : UInt8) ∉ flatBytes message := by
  intro h
  obtain ⟨b, -, hb⟩ := List.mem_map.mp h
  split at hb
  · exact absurd hb (by decide)
  · rename_i hne
    exact hne (Or.inl hb)

/-- A count is read off its digits. -/
theorem digitBytes_inj {n m : Nat} (h : digitBytes n = digitBytes m) : n = m := by
  have hchars : Nat.toDigits 10 n = Nat.toDigits 10 m := by
    have hn := Text.fromUtf8_ascii (Text.ascii_toDigits n)
    have hm := Text.fromUtf8_ascii (Text.ascii_toDigits m)
    unfold digitBytes at h
    rw [h] at hn
    exact Option.some.inj (hn.symm.trans hm)
  have hn := Text.parseDigits_toDigits n
  rw [hchars, Text.parseDigits_toDigits] at hn
  exact (Option.some.inj hn).symm

/-- No count is written like the null's. -/
theorem digitBytes_ne_null (n : Nat) : digitBytes n ≠ Text.bytes "-1" := by
  intro h
  have hchars : Nat.toDigits 10 n = ['-', '1'] := by
    have hn := Text.fromUtf8_ascii (Text.ascii_toDigits n)
    unfold digitBytes at h
    rw [h] at hn
    exact (Option.some.inj hn).symm
  have hdigit : ('-' : Char).isDigit = true :=
    Text.isDigit_of_mem_toDigits (n := n) (by rw [hchars]; simp)
  exact absurd hdigit (by decide)

/-- **The first line of a stream is determined**, and so is what follows it. -/
theorem firstLine_inj {m₁ m₂ : UInt8} {t₁ t₂ b₂ : Bytes} (b₁ : Bytes) (h₁ : 13 ∉ t₁) (h₂ : 13 ∉ t₂)
    (h : m₁ :: (t₁ ++ crlf) ++ b₁ = m₂ :: (t₂ ++ crlf) ++ b₂) : m₁ = m₂ ∧ t₁ = t₂ ∧ b₁ = b₂ := by
  simp only [List.cons_append, List.append_assoc, crlf, List.cons.injEq] at h
  obtain ⟨hm, h⟩ := h
  obtain ⟨ht, hb⟩ := append_inj_of_terminated h₁ h₂ h
  exact ⟨hm, ht, (List.cons.inj hb).2⟩

/-- A frame starts with a marked line, and its marker, its line and what may follow belong
together. -/
theorem Frame.firstLine {w : Bytes} (h : Frame w) :
    ∃ marker text body, w = marker :: (text ++ crlf) ++ body ∧ 13 ∉ text ∧
      ((marker ∈ [43, 45, 58, 95, 44] ∧ body = []) ∨
       ((marker = 36 ∨ marker = 42) ∧ text = Text.bytes "-1" ∧ body = []) ∨
       (∃ payload, marker = 36 ∧ text = digitBytes payload.length ∧ body = payload ++ crlf) ∨
       ∃ (n k : Nat) (parts : List Bytes), perCount marker = some k ∧ text = digitBytes n ∧ parts.length = k * n ∧
         (∀ part ∈ parts, Frame part) ∧ body = parts.flatten) := by
  cases h with
  | line hm ht => exact ⟨_, _, [], by simp, ht, Or.inl ⟨hm, rfl⟩⟩
  | null hm => exact ⟨_, _, [], by simp, not_mem_null, Or.inr (Or.inl ⟨hm, rfl, rfl⟩)⟩
  | blob payload =>
    exact ⟨36, digitBytes payload.length, payload ++ crlf,
      by simp [encodeBulk, countLine, digitBytes], not_mem_digitBytes _,
      Or.inr (Or.inr (Or.inl ⟨payload, rfl, rfl, rfl⟩))⟩
  | aggregate hk hlen hparts =>
    exact ⟨_, _, _, rfl, not_mem_digitBytes _,
      Or.inr (Or.inr (Or.inr ⟨_, _, _, hk, rfl, hlen, hparts, rfl⟩))⟩

theorem Frame.ne_nil {w : Bytes} (h : Frame w) : w ≠ [] := by
  obtain ⟨marker, text, body, rfl, -⟩ := h.firstLine
  simp

/-! ## A frame ends where its first line says -/

/-- A frame that begins with a marked line goes on as that line says: the other frame's first line
is the same, so its own case decides the rest. -/
theorem frame_prefixFree : PrefixFree Frame := by
  intro w v s t hw
  induction hw generalizing v s t with
  | line hm ht =>
    intro hv h
    obtain ⟨marker, text, body, rfl, htext, hkind⟩ := hv.firstLine
    obtain ⟨rfl, rfl, -⟩ := firstLine_inj _ ht htext (by simpa using h)
    rcases hkind with ⟨-, rfl⟩ | ⟨hm', -⟩ | ⟨_, rfl, -⟩ | ⟨_, _, _, hk, -⟩
    · rw [List.append_nil]
    · rcases hm' with rfl | rfl <;> simp at hm
    · simp at hm
    · exact absurd (perCount_line hm) (by rw [hk]; simp)
  | null hm =>
    intro hv h
    obtain ⟨marker, text, body, rfl, htext, hkind⟩ := hv.firstLine
    obtain ⟨rfl, rfl, -⟩ := firstLine_inj _ not_mem_null htext (by simpa using h)
    rcases hkind with ⟨hm', -⟩ | ⟨-, -, rfl⟩ | ⟨_, -, ht, -⟩ | ⟨_, _, _, -, ht, -⟩
    · rcases hm with rfl | rfl <;> simp at hm'
    · rw [List.append_nil]
    · exact absurd ht.symm (digitBytes_ne_null _)
    · exact absurd ht.symm (digitBytes_ne_null _)
  | blob payload =>
    intro hv h
    obtain ⟨marker, text, body, rfl, htext, hkind⟩ := hv.firstLine
    obtain ⟨rfl, rfl, hbody⟩ := firstLine_inj (payload ++ crlf ++ s)
      (not_mem_digitBytes payload.length) htext
      (by simpa [encodeBulk, countLine, digitBytes] using h)
    rcases hkind with ⟨hm', -⟩ | ⟨-, ht, -⟩ | ⟨payload', -, ht, rfl⟩ | ⟨_, _, _, hk, -⟩
    · simp at hm'
    · exact absurd ht (digitBytes_ne_null _)
    · rw [List.append_assoc, List.append_assoc] at hbody
      obtain ⟨rfl, -⟩ := List.append_inj hbody (digitBytes_inj ht)
      simp [encodeBulk, countLine, digitBytes]
    · exact absurd hk (by simp [perCount])
  | aggregate hk hlen hparts ih =>
    rename_i marker₁ n k parts
    intro hv h
    obtain ⟨marker, text, body, rfl, htext, hkind⟩ := hv.firstLine
    obtain ⟨rfl, rfl, hbody⟩ := firstLine_inj (parts.flatten ++ s)
      (not_mem_digitBytes n) htext (by simpa [countLine, digitBytes] using h)
    rcases hkind with ⟨hm', -⟩ | ⟨-, ht, -⟩ | ⟨_, rfl, -⟩ | ⟨n', k', parts', hk', ht, hlen', hparts', rfl⟩
    · exact absurd (perCount_line hm') (by rw [hk]; simp)
    · exact absurd ht (digitBytes_ne_null _)
    · exact absurd hk (by simp [perCount])
    · obtain rfl := digitBytes_inj ht
      obtain rfl := Option.some.inj (hk.symm.trans hk')
      obtain rfl : parts = parts' :=
        PrefixFree.counted (fun part hp => ih part hp) hparts' (by rw [hlen, hlen']) hbody
      rfl

/-! ## Every reply is a frame -/

mutual

/-- Every status text of the reply is one line; the source writes them as literals. -/
def Reply.OneLine : Reply → Prop
  | .simple text => 13 ∉ Text.bytes text ∧ 10 ∉ Text.bytes text
  | .array items => OneLineItems items
  | .set items => OneLineItems items
  | .push items => OneLineItems items
  | .map pairs => OneLinePairs pairs
  | _ => True

def Reply.OneLineItems : List Reply → Prop
  | [] => True
  | item :: items => Reply.OneLine item ∧ OneLineItems items

def Reply.OneLinePairs : List (Reply × Reply) → Prop
  | [] => True
  | (key, value) :: pairs => Reply.OneLine key ∧ Reply.OneLine value ∧ OneLinePairs pairs

end

theorem frame_double (value : F64) (protocol : Protocol) : Frame (encodeDouble value protocol) := by
  cases protocol with
  | resp3 => exact .line (by decide) (not_mem_formatF64 value)
  | resp2 => exact .blob _

/-- A concatenation of frames, `n` of them. -/
def Frames (n : Nat) (w : Bytes) : Prop :=
  ∃ parts : List Bytes, w = parts.flatten ∧ parts.length = n ∧ ∀ part ∈ parts, Frame part

theorem frames_nil : Frames 0 [] := ⟨[], rfl, rfl, by simp⟩

theorem Frame.append {n : Nat} {w v : Bytes} (hw : Frame w) (hv : Frames n v) :
    Frames (n + 1) (w ++ v) := by
  obtain ⟨parts, rfl, rfl, hparts⟩ := hv
  refine ⟨w :: parts, rfl, rfl, ?_⟩
  intro part hp
  rcases List.mem_cons.mp hp with rfl | hp
  · exact hw
  · exact hparts part hp

theorem Frames.aggregate {marker : UInt8} {n k c : Nat} {w : Bytes} (h : Frames c w)
    (hk : perCount marker = some k) (hc : c = k * n) : Frame (countLine marker n ++ w) := by
  obtain ⟨parts, rfl, hlen, hparts⟩ := h
  exact .aggregate hk (hlen.trans hc) hparts

/-- RESP2's members and scores lie flat; RESP3's are pairs. -/
theorem frames_scored (protocol : Protocol) (pairs : List (Bytes × F64)) :
    Frames (match protocol with | .resp3 => pairs.length | .resp2 => pairs.length * 2)
      (encodeScored protocol pairs) := by
  induction pairs with
  | nil => cases protocol <;> exact frames_nil
  | cons pair pairs ih =>
    obtain ⟨member, score⟩ := pair
    cases protocol with
    | resp2 =>
      have hmore := (Frame.blob member).append ((frame_double score .resp2).append ih)
      simpa [encodeScored, Nat.succ_mul] using hmore
    | resp3 =>
      have hpair : Frame (countLine 42 2 ++ (encodeBulk member ++ (encodeDouble score .resp3 ++ []))) :=
        ((Frame.blob member).append ((frame_double score .resp3).append frames_nil)).aggregate rfl rfl
      have hmore := hpair.append ih
      simpa [encodeScored] using hmore

mutual

/-- **Every reply is encoded to a frame.** -/
theorem frame_encode (protocol : Protocol) : ∀ {r : Reply}, r.OneLine → Frame (encode protocol r)
  | .simple text, h => .line (by decide) h.1
  | .error message, _ => .line (by decide) (not_mem_flatBytes message)
  | .integer n, _ => .line (by decide) (not_mem_showIntBytes n)
  | .bulk payload, _ => .blob payload
  | .nil, _ => by
    cases protocol with
    | resp2 => exact .null (Or.inl rfl)
    | resp3 => exact .line (by decide) (List.not_mem_nil (a := 13))
  | .nilArray, _ => by
    cases protocol with
    | resp2 => exact .null (Or.inr rfl)
    | resp3 => exact .line (by decide) (List.not_mem_nil (a := 13))
  | .array items, h => (frames_items protocol items h).aggregate rfl (Nat.one_mul _).symm
  | .set items, h => by
    cases protocol with
    | resp2 => exact (frames_items .resp2 items h).aggregate rfl (Nat.one_mul _).symm
    | resp3 => exact (frames_items .resp3 items h).aggregate rfl (Nat.one_mul _).symm
  | .push items, h => by
    cases protocol with
    | resp2 => exact (frames_items .resp2 items h).aggregate rfl (Nat.one_mul _).symm
    | resp3 => exact (frames_items .resp3 items h).aggregate rfl (Nat.one_mul _).symm
  | .map pairs, h => by
    cases protocol with
    | resp2 => exact (frames_pairs .resp2 pairs h).aggregate rfl (Nat.one_mul _).symm
    | resp3 => exact (frames_pairs .resp3 pairs h).aggregate rfl (Nat.mul_comm _ _)
  | .double value, _ => frame_double value protocol
  | .scoredMembers pairs, _ => by
    have h := frames_scored protocol pairs
    cases protocol with
    | resp2 => exact h.aggregate rfl (Nat.one_mul _).symm
    | resp3 => exact h.aggregate rfl (Nat.one_mul _).symm

theorem frames_items (protocol : Protocol) :
    ∀ (items : List Reply), Reply.OneLineItems items →
      Frames items.length (encodeItems protocol items)
  | [], _ => frames_nil
  | _ :: items, h => (frame_encode protocol h.1).append (frames_items protocol items h.2)

theorem frames_pairs (protocol : Protocol) :
    ∀ (pairs : List (Reply × Reply)), Reply.OneLinePairs pairs →
      Frames (pairs.length * 2) (encodePairs protocol pairs)
  | [], _ => frames_nil
  | (key, value) :: pairs, h => by
    have hmore := (frame_encode protocol h.1).append
      ((frame_encode protocol h.2.1).append (frames_pairs protocol pairs h.2.2))
    simpa [encodePairs, Nat.succ_mul] using hmore

end

/-- **No reply can break its frame.**  In each protocol version the wire forms are prefix-free,
so a stream of pipelined replies splits in exactly one way. -/
theorem encode_prefixFree (protocol : Protocol) :
    (∀ r₁ r₂ : Reply, r₁.OneLine → r₂.OneLine → ∀ s₁ s₂ : Bytes,
      encode protocol r₁ ++ s₁ = encode protocol r₂ ++ s₂ →
      encode protocol r₁ = encode protocol r₂) ∧
    (∀ rs₁ rs₂ : List Reply, (∀ r ∈ rs₁, r.OneLine) → (∀ r ∈ rs₂, r.OneLine) →
      rs₁.flatMap (encode protocol) = rs₂.flatMap (encode protocol) →
      rs₁.map (encode protocol) = rs₂.map (encode protocol)) := by
  refine ⟨fun r₁ r₂ h₁ h₂ s₁ s₂ h =>
    frame_prefixFree (frame_encode protocol h₁) (frame_encode protocol h₂) h, ?_⟩
  intro rs₁ rs₂ h₁ h₂ h
  rw [List.flatMap_def, List.flatMap_def] at h
  have hframes : ∀ {rs : List Reply}, (∀ r ∈ rs, r.OneLine) →
      ∀ w ∈ rs.map (encode protocol), Frame w := by
    intro rs hrs w hw
    obtain ⟨r, hr, rfl⟩ := List.mem_map.mp hw
    exact frame_encode protocol (hrs r hr)
  exact frame_prefixFree.stream (fun w => Frame.ne_nil) (hframes h₁) (hframes h₂) h

/-- Text echoed in an error does not pass for a reply of its own. -/
theorem encode_prefixFree_echo :
    (Reply.error "ERR a\r\n+OK").OneLine ∧ (Reply.error "ERR a").OneLine ∧
    encode .resp2 (.error "ERR a\r\n+OK") ++ crlf ≠
      encode .resp2 (.error "ERR a") ++ encode .resp2 .ok := by
  refine ⟨trivial, trivial, fun h => ?_⟩
  have hsame := (encode_prefixFree .resp2).1 (.error "ERR a\r\n+OK") (.error "ERR a") trivial
    trivial _ _ h
  exact absurd hsame (by decide +kernel)

end Klyro
