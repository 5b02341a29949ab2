import Mathlib.Data.List.Sort
import Klyro.World

/-!
# Byte-string helpers (`util/bytes.rs`)

Keys and values are raw bytes; the parsing and formatting helpers of the command layer work on
them directly.

* `parseI64`, `parseF64`, `formatF64` — numbers; `parseF64_formatF64` is the round trip of every
  score that is not a NaN.
* `cmpBytes` — the order of `Vec<u8>`.
-/

set_option autoImplicit false

namespace Klyro

/-- ASCII upper case of a byte. -/
def toAsciiUppercase (b : UInt8) : UInt8 := if 97 ≤ b.toNat ∧ b.toNat ≤ 122 then b - 32 else b

/-- ASCII lower case of a byte. -/
def toAsciiLowercase (b : UInt8) : UInt8 := if 65 ≤ b.toNat ∧ b.toNat ≤ 90 then b + 32 else b

/-- `str::to_ascii_lowercase`. -/
def lowercase (s : String) : String :=
  String.ofList (s.toList.map fun c =>
    if 65 ≤ c.toNat ∧ c.toNat ≤ 90 then Char.ofNat (c.toNat + 32) else c)

/-- `Display` of a natural number. -/
def showNat (n : Nat) : String := String.ofList (Nat.toDigits 10 n)

/-- `to_display`. -/
def toDisplay (bs : Bytes) : String := String.ofList (Text.fromUtf8Lossy bs)

/-- `to_upper`: every byte becomes the character with its number. -/
def toUpper (bs : Bytes) : String :=
  String.ofList (bs.map fun b => Char.ofNat (toAsciiUppercase b).toNat)

/-- `eq_ignore_case`; `word` is an ASCII keyword. -/
def eqIgnoreCase (bs : Bytes) (word : String) : Bool :=
  bs.map toAsciiLowercase == (Text.bytes word).map toAsciiLowercase

theorem eqIgnoreCase_of {bs : Bytes} {word : String} (h : eqIgnoreCase bs word = true)
    (other : String) : eqIgnoreCase bs other =
      ((Text.bytes word).map toAsciiLowercase == (Text.bytes other).map toAsciiLowercase) := by
  unfold eqIgnoreCase at h ⊢
  rw [eq_of_beq h]

/-- The text of a number argument: valid UTF-8, not empty, no white space around it. -/
def numberText (bs : Bytes) : Option (List Char) :=
  (Text.fromUtf8 bs).filter fun text => decide (text ≠ []) && decide (Text.trim text = text)

/-- `parse_i64`. -/
def parseI64 (bs : Bytes) : Option Int := (numberText bs).bind (Text.parseInt i64Min i64Max)

/-- `parse_f64`. -/
def parseF64 (bs : Bytes) : Option F64 :=
  ((numberText bs).bind SoftFloat.parse).filter fun value => !value.isNan

/-- `format_f64`. -/
def formatF64 (value : F64) : Bytes :=
  if value.isInfinite then (if value.neg then Text.bytes "-inf" else Text.bytes "inf")
  else Text.utf8 value.display

/-- The bytes of a decimal integer. -/
def showIntBytes (i : Int) : Bytes := Text.utf8 (Text.showInt i)

/-- `Vec<u8>`'s order. -/
def cmpBytes : Bytes → Bytes → Ordering
  | [], [] => .eq
  | [], _ :: _ => .lt
  | _ :: _, [] => .gt
  | a :: as, b :: bs => if a < b then .lt else if b < a then .gt else cmpBytes as bs

/-- `sort_by`: stable. -/
def sortBy {α : Type} (cmp : α → α → Ordering) (xs : List α) : List α :=
  xs.insertionSort fun a b => cmp a b ≠ .gt

/-- `partial_cmp(..).unwrap_or(Equal)`. -/
def cmpFloat {f : Format} (x y : SoftFloat f) : Ordering := (x.partialCmp y).getD .eq

/-- A float literal of the source. -/
def lit {f : Format} (text : String) : SoftFloat f := (SoftFloat.parse text.toList).getD SoftFloat.nan

/-- The pieces between separators; one more than there are separators. -/
def splitOn (sep : UInt8) : Bytes → List Bytes
  | [] => [[]]
  | b :: bs =>
    if b = sep then [] :: splitOn sep bs
    else match splitOn sep bs with
      | piece :: pieces => (b :: piece) :: pieces
      | [] => [[b]]

/-! ## The order of byte strings -/

theorem cmpBytes_eq : ∀ a b : Bytes, cmpBytes a b = .eq → a = b
  | [], [], _ => rfl
  | [], _ :: _, h => by cases h
  | _ :: _, [], h => by cases h
  | a :: as, b :: bs, h => by
    unfold cmpBytes at h
    split at h
    · cases h
    · split at h
      · cases h
      · rename_i hlt hgt
        have hab : a = b := UInt8.le_antisymm (UInt8.not_lt.mp hgt) (UInt8.not_lt.mp hlt)
        rw [hab, cmpBytes_eq as bs h]

theorem cmpBytes_self : ∀ a : Bytes, cmpBytes a a = .eq
  | [] => rfl
  | a :: as => by
    unfold cmpBytes
    rw [if_neg (UInt8.lt_irrefl a), if_neg (UInt8.lt_irrefl a), cmpBytes_self as]

theorem cmpBytes_swap : ∀ a b : Bytes, (cmpBytes a b).swap = cmpBytes b a
  | [], [] => rfl
  | [], _ :: _ => rfl
  | _ :: _, [] => rfl
  | a :: as, b :: bs => by
    unfold cmpBytes
    by_cases hlt : a < b
    · rw [if_pos hlt, if_neg (UInt8.lt_asymm hlt), if_pos hlt]
      rfl
    · rw [if_neg hlt]
      by_cases hgt : b < a
      · rw [if_pos hgt, if_pos hgt]
        rfl
      · rw [if_neg hgt, if_neg hgt, if_neg hlt, cmpBytes_swap as bs]

theorem cmpBytes_trans : ∀ {a b c : Bytes}, cmpBytes a b = .lt → cmpBytes b c = .lt →
    cmpBytes a c = .lt
  | [], [], _, hab, _ => by cases hab
  | _ :: _, [], _, hab, _ => by cases hab
  | _, _ :: _, [], _, hbc => by cases hbc
  | [], _ :: _, _ :: _, _, _ => rfl
  | a :: as, b :: bs, c :: cs, hab, hbc => by
    unfold cmpBytes at hab hbc ⊢
    by_cases h₁ : a < b
    · by_cases h₂ : b < c
      · rw [if_pos (UInt8.lt_trans h₁ h₂)]
      · rw [if_neg h₂] at hbc
        split at hbc
        · cases hbc
        · rename_i h₃
          have hbc' : b = c := UInt8.le_antisymm (UInt8.not_lt.mp h₃) (UInt8.not_lt.mp h₂)
          rw [if_pos (hbc' ▸ h₁)]
    · rw [if_neg h₁] at hab
      split at hab
      · cases hab
      · rename_i h₁'
        have hab' : a = b := UInt8.le_antisymm (UInt8.not_lt.mp h₁') (UInt8.not_lt.mp h₁)
        subst hab'
        by_cases h₂ : a < c
        · rw [if_pos h₂]
        · rw [if_neg h₂] at hbc ⊢
          split at hbc
          · cases hbc
          · rename_i h₃
            rw [if_neg h₃, cmpBytes_trans hab hbc]

/-! ## Scores as text -/

/-- The infinities print as the float type prints them. -/
theorem formatF64_eq (x : F64) (h : x.isNan = false) : formatF64 x = Text.utf8 x.display := by
  unfold formatF64
  by_cases hinf : x.isInfinite = true
  · rw [if_pos hinf]
    unfold SoftFloat.display
    rw [h, hinf]
    cases x.neg <;> rfl
  · rw [if_neg hinf]

theorem numberText_word {w : List Char} (hw : Text.Word w) (ha : Text.Ascii w) :
    numberText (Text.utf8 w) = some w := by
  unfold numberText
  rw [Text.fromUtf8_ascii ha]
  simp [Option.filter, hw.ne_nil, hw.trim]

/-- **Scores survive printing and parsing**, the infinities and `-0` included. -/
theorem parseF64_formatF64 (x : F64) (h : x.isNan = false) : parseF64 (formatF64 x) = some x := by
  rw [formatF64_eq x h]
  unfold parseF64
  rw [numberText_word x.display_word x.display_ascii, Option.bind_some, SoftFloat.parse_display h]
  simp [Option.filter, h]

end Klyro
