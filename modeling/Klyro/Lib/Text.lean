import Mathlib.Data.List.Basic
import Mathlib.Tactic.Ring

/-!
# Text as bytes and characters

UTF-8, Unicode white space and decimal integers, over byte lists and character lists.

* `fromUtf8` / `fromUtf8Lossy` — strict and replacing decoding; `fromUtf8_ascii` says that on
  ASCII bytes the strict one is the byte-wise reading.
* `trim`, `splitWhitespace` — by Unicode white space; `splitWhitespace_word` peels off a word.
* `parseInt`, `parseNat` — decimal integers within bounds; `parseInt_showInt` and
  `parseNat_toDigits` are the round trips.
-/

set_option autoImplicit false

namespace Text

/-! ## UTF-8 -/

/-- A continuation byte. -/
def isTail (b : UInt8) : Bool := decide (0x80 ≤ b.toNat ∧ b.toNat ≤ 0xBF)

/-- The three-byte form after its first byte `n`. -/
def threeBytes (n : Nat) : List UInt8 → Option Char × Nat
  | b :: t =>
    if (if n = 0xE0 then 0xA0 else 0x80) ≤ b.toNat ∧ b.toNat ≤ (if n = 0xED then 0x9F else 0xBF) then
      match t with
      | c :: _ =>
        if isTail c then
          (some (Char.ofNat ((n - 0xE0) * 4096 + (b.toNat - 0x80) * 64 + (c.toNat - 0x80))), 2)
        else (none, 1)
      | [] => (none, 1)
    else (none, 0)
  | [] => (none, 0)

/-- The four-byte form after its first byte `n`. -/
def fourBytes (n : Nat) : List UInt8 → Option Char × Nat
  | b :: t =>
    if (if n = 0xF0 then 0x90 else 0x80) ≤ b.toNat ∧ b.toNat ≤ (if n = 0xF4 then 0x8F else 0xBF) then
      match t with
      | c :: t' =>
        if isTail c then
          match t' with
          | d :: _ =>
            if isTail d then
              (some (Char.ofNat ((n - 0xF0) * 262144 + (b.toNat - 0x80) * 4096 +
                (c.toNat - 0x80) * 64 + (d.toNat - 0x80))), 3)
            else (none, 2)
          | [] => (none, 2)
        else (none, 1)
      | [] => (none, 1)
    else (none, 0)
  | [] => (none, 0)

/-- The character that starts with `a`, or `none` where the bytes are ill-formed, together with
how many of the following bytes belong to it. -/
def firstChar (a : UInt8) (t : List UInt8) : Option Char × Nat :=
  let n := a.toNat
  if n < 0x80 then (some (Char.ofNat n), 0)
  else if 0xC2 ≤ n ∧ n ≤ 0xDF then
    match t with
    | b :: _ =>
      if isTail b then (some (Char.ofNat ((n - 0xC0) * 64 + (b.toNat - 0x80))), 1) else (none, 0)
    | [] => (none, 0)
  else if 0xE0 ≤ n ∧ n ≤ 0xEF then threeBytes n t
  else if 0xF0 ≤ n ∧ n ≤ 0xF4 then fourBytes n t
  else (none, 0)

/-- Decode from the left; `none` stands for one ill-formed stretch. -/
def chunks : Nat → List UInt8 → List (Option Char)
  | 0, _ => []
  | _, [] => []
  | fuel + 1, a :: t =>
    let c := firstChar a t
    c.1 :: chunks fuel (t.drop c.2)

/-- Every character, when all are there. -/
def allSome : List (Option Char) → Option (List Char)
  | [] => some []
  | none :: _ => none
  | some c :: cs => (allSome cs).map (c :: ·)

/-- `str::from_utf8`. -/
def fromUtf8 (bs : List UInt8) : Option (List Char) := allSome (chunks bs.length bs)

/-- `String::from_utf8_lossy`. -/
def fromUtf8Lossy (bs : List UInt8) : List Char :=
  (chunks bs.length bs).map fun c => c.getD (Char.ofNat 0xFFFD)

/-- The bytes of a text. -/
def utf8 (cs : List Char) : List UInt8 := cs.flatMap String.utf8EncodeChar

/-- The bytes of a string. -/
def bytes (s : String) : List UInt8 := utf8 s.toList

/-- A text of ASCII characters. -/
def Ascii (cs : List Char) : Prop := ∀ c ∈ cs, c.toNat < 0x80

/-- A property of every character of a given text, decided over that text alone. -/
theorem forall_chars {p : Char → Prop} [DecidablePred p] {cs : List Char}
    (h : (cs.all fun c => decide (p c)) = true) : ∀ c ∈ cs, p c := by
  intro c hc
  exact of_decide_eq_true (List.all_eq_true.mp h c hc)

@[simp] theorem utf8_append (a b : List Char) : utf8 (a ++ b) = utf8 a ++ utf8 b := by
  simp [utf8]

@[simp] theorem utf8_nil : utf8 [] = [] := rfl

theorem utf8EncodeChar_ascii {c : Char} (h : c.toNat < 0x80) :
    String.utf8EncodeChar c = [UInt8.ofNat c.toNat] := by
  unfold String.utf8EncodeChar
  have h' : c.val.toNat ≤ 0x7F := by
    have : c.toNat = c.val.toNat := rfl
    omega
  simp only [h', if_true]
  rfl

theorem utf8_ascii {cs : List Char} (h : Ascii cs) :
    utf8 cs = cs.map fun c => UInt8.ofNat c.toNat := by
  induction cs with
  | nil => rfl
  | cons c cs ih =>
    unfold utf8 at ih ⊢
    rw [List.flatMap_cons, utf8EncodeChar_ascii (h c (by simp)), List.map_cons,
      ih fun d hd => h d (by simp [hd])]
    rfl

theorem chunks_ascii : ∀ (cs : List Char), Ascii cs →
    chunks (cs.map fun c => UInt8.ofNat c.toNat).length (cs.map fun c => UInt8.ofNat c.toNat) =
      cs.map some
  | [], _ => rfl
  | c :: cs, h => by
    have hc : c.toNat < 0x80 := h c (by simp)
    have hn : (UInt8.ofNat c.toNat).toNat = c.toNat := by
      rw [UInt8.toNat_ofNat']
      omega
    have ih := chunks_ascii cs fun d hd => h d (by simp [hd])
    simp only [List.map_cons, List.length_cons, chunks]
    have hf : firstChar (UInt8.ofNat c.toNat) (cs.map fun c => UInt8.ofNat c.toNat) = (some c, 0) := by
      unfold firstChar
      simp only [hn, hc, if_true]
      rw [Char.ofNat_toNat]
    rw [hf]
    simp only [List.drop_zero]
    rw [ih]

theorem allSome_map_some (cs : List Char) : allSome (cs.map some) = some cs := by
  induction cs with
  | nil => rfl
  | cons c cs ih => simp [allSome, ih]

/-- **ASCII text survives encoding and decoding.** -/
theorem fromUtf8_ascii {cs : List Char} (h : Ascii cs) : fromUtf8 (utf8 cs) = some cs := by
  rw [utf8_ascii h]
  unfold fromUtf8
  rw [chunks_ascii cs h, allSome_map_some]

theorem Ascii.append {a b : List Char} (ha : Ascii a) (hb : Ascii b) : Ascii (a ++ b) := by
  intro c hc
  rcases List.mem_append.mp hc with hc | hc
  · exact ha c hc
  · exact hb c hc

theorem Ascii.cons {c : Char} {b : List Char} (hc : c.toNat < 0x80) (hb : Ascii b) :
    Ascii (c :: b) := by
  intro d hd
  rcases List.mem_cons.mp hd with rfl | hd
  · exact hc
  · exact hb d hd

theorem Ascii.nil : Ascii [] := by
  intro c hc
  cases hc

/-! ## White space -/

/-- `char::is_whitespace`: the Unicode `White_Space` property. -/
def isWhitespace (c : Char) : Bool :=
  let n := c.toNat
  (decide (9 ≤ n) && decide (n ≤ 13)) || n == 0x20 || n == 0x85 || n == 0xA0 || n == 0x1680 ||
    (decide (0x2000 ≤ n) && decide (n ≤ 0x200A)) || n == 0x2028 || n == 0x2029 || n == 0x202F ||
    n == 0x205F || n == 0x3000

/-- Drop the trailing characters that satisfy `p`. -/
def trimEndMatches (p : Char → Bool) (cs : List Char) : List Char :=
  ((cs.reverse).dropWhile p).reverse

/-- `str::trim_end`. -/
def trimEnd (cs : List Char) : List Char := trimEndMatches isWhitespace cs

/-- `str::trim`. -/
def trim (cs : List Char) : List Char := trimEnd (cs.dropWhile isWhitespace)

/-- `str::split_whitespace`. -/
def splitWhitespace : List Char → List (List Char)
  | [] => []
  | c :: cs =>
    if isWhitespace c then splitWhitespace cs
    else match cs with
      | [] => [[c]]
      | d :: _ =>
        if isWhitespace d then [c] :: splitWhitespace cs
        else match splitWhitespace cs with
          | w :: ws => (c :: w) :: ws
          | [] => [[c]]

/-- A non-empty run of characters without white space. -/
structure Word (w : List Char) : Prop where
  ne_nil : w ≠ []
  solid : ∀ c ∈ w, isWhitespace c = false

theorem dropWhile_of_head {p : Char → Bool} : ∀ {cs : List Char},
    (∀ c, cs.head? = some c → p c = false) → cs.dropWhile p = cs
  | [], _ => rfl
  | c :: cs, h => by rw [List.dropWhile_cons, h c rfl]; rfl

theorem trimEndMatches_of_last {p : Char → Bool} {cs : List Char}
    (h : ∀ c, cs.getLast? = some c → p c = false) : trimEndMatches p cs = cs := by
  unfold trimEndMatches
  rw [dropWhile_of_head, List.reverse_reverse]
  intro c hc
  rw [List.head?_reverse] at hc
  exact h c hc

theorem trimEndMatches_append {p : Char → Bool} (cs ds : List Char) (h : ∀ d ∈ ds, p d = true) :
    trimEndMatches p (cs ++ ds) = trimEndMatches p cs := by
  unfold trimEndMatches
  rw [List.reverse_append, List.dropWhile_append_of_pos]
  intro d hd
  exact h d (List.mem_reverse.mp hd)

theorem Word.trim {w : List Char} (h : Word w) : Text.trim w = w := by
  unfold Text.trim trimEnd
  rw [dropWhile_of_head fun c hc => h.solid c (List.mem_of_mem_head? hc)]
  exact trimEndMatches_of_last fun c hc => h.solid c (List.mem_of_mem_getLast? hc)

theorem splitWhitespace_singleton {w : List Char} (h : Word w) : splitWhitespace w = [w] := by
  obtain ⟨hne, hs⟩ := h
  induction w with
  | nil => exact absurd rfl hne
  | cons c cs ih =>
    cases cs with
    | nil => simp [splitWhitespace, hs c (by simp)]
    | cons d ds =>
      have hd : isWhitespace d = false := hs d (by simp)
      have := ih (by simp) fun x hx => hs x (List.mem_cons_of_mem _ hx)
      rw [splitWhitespace, hs c (by simp), this]
      simp [hd]

/-- A word followed by a space is split off. -/
theorem splitWhitespace_word {w : List Char} (h : Word w) (rest : List Char) :
    splitWhitespace (w ++ ' ' :: rest) = w :: splitWhitespace rest := by
  have hsp : isWhitespace ' ' = true := by decide
  obtain ⟨hne, hs⟩ := h
  induction w with
  | nil => exact absurd rfl hne
  | cons c cs ih =>
    cases cs with
    | nil => simp [splitWhitespace, hs c (by simp), hsp]
    | cons d ds =>
      have hd : isWhitespace d = false := hs d (by simp)
      have := ih (by simp) fun x hx => hs x (List.mem_cons_of_mem _ hx)
      rw [List.cons_append, List.cons_append, splitWhitespace, hs c (by simp)]
      rw [List.cons_append] at this
      rw [this]
      simp [hd]

/-- Words with one space between them. -/
def unwords (ws : List (List Char)) : List Char := [' '].intercalate ws

theorem unwords_cons (w w' : List Char) (ws : List (List Char)) :
    unwords (w :: w' :: ws) = w ++ ' ' :: unwords (w' :: ws) := by
  simp [unwords, List.intercalate]

theorem splitWhitespace_unwords : ∀ {ws : List (List Char)}, (∀ w ∈ ws, Word w) →
    splitWhitespace (unwords ws) = ws
  | [], _ => rfl
  | [w], h => by
    rw [show unwords [w] = w by simp [unwords, List.intercalate]]
    exact splitWhitespace_singleton (h w (by simp))
  | w :: w' :: ws, h => by
    rw [unwords_cons, splitWhitespace_word (h w (by simp)),
      splitWhitespace_unwords fun v hv => h v (List.mem_cons_of_mem _ hv)]

theorem Word.mono {w t : List Char} (h : Word w) (ht : t <+: w) (hne : t ≠ []) : Word t :=
  ⟨hne, fun c hc => h.solid c (ht.subset hc)⟩

/-- A line of words that is cut short loses its last word, or keeps a beginning of it. -/
theorem splitWhitespace_cut {last : List Char} (hl : Word last) :
    ∀ {ws : List (List Char)} {t : List Char}, (∀ w ∈ ws, Word w) → t <+: unwords (ws ++ [last]) →
      (splitWhitespace t).length ≤ ws.length ∨
        ∃ d, d ≠ [] ∧ d <+: last ∧ t = unwords (ws ++ [d]) ∧ splitWhitespace t = ws ++ [d]
  | [], t, _, ht => by
    have hone : ∀ w : List Char, unwords ([] ++ [w]) = w := fun w => by simp [unwords, List.intercalate]
    rw [hone] at ht
    by_cases hne : t = []
    · subst hne
      exact .inl (Nat.le_refl 0)
    · exact .inr ⟨t, hne, ht, (hone t).symm, splitWhitespace_singleton (hl.mono ht hne)⟩
  | w :: ws, t, h, ht => by
    have hw := h w (by simp)
    have hcons : ∀ v, unwords (w :: ws ++ [v]) = w ++ ' ' :: unwords (ws ++ [v]) := by
      intro v
      cases ws with
      | nil => exact unwords_cons w v []
      | cons w' ws => exact unwords_cons w w' (ws ++ [v])
    have hshort : t <+: w → (splitWhitespace t).length ≤ (w :: ws).length := by
      intro hp
      by_cases hne : t = []
      · subst hne
        exact Nat.zero_le _
      · rw [splitWhitespace_singleton (hw.mono hp hne)]
        simp
    rw [hcons] at ht
    rcases List.prefix_or_prefix_of_prefix ht (List.prefix_append w _) with hp | ⟨c, rfl⟩
    · exact .inl (hshort hp)
    · rcases List.prefix_cons_iff.mp ((List.prefix_append_right_inj w).mp ht) with rfl | ⟨c', rfl, hc'⟩
      · exact .inl (hshort (by simp))
      · rw [splitWhitespace_word hw]
        rcases splitWhitespace_cut hl (fun v hv => h v (List.mem_cons_of_mem _ hv)) hc' with
          hle | ⟨d, hd, hdl, ht', hs⟩
        · exact .inl (by simpa using hle)
        · exact .inr ⟨d, hd, hdl, by rw [hcons, ← ht'], by rw [hs]; rfl⟩

theorem mem_unwords {c : Char} : ∀ {ws : List (List Char)}, c ∈ unwords ws →
    c = ' ' ∨ ∃ w ∈ ws, c ∈ w
  | [w], h => by
    rw [show unwords [w] = w by simp [unwords, List.intercalate]] at h
    exact .inr ⟨w, by simp, h⟩
  | w :: w' :: ws, h => by
    rw [unwords_cons, List.mem_append, List.mem_cons] at h
    rcases h with h | h | h
    · exact .inr ⟨w, by simp, h⟩
    · exact .inl h
    · rcases mem_unwords h with h | ⟨v, hv, h⟩
      · exact .inl h
      · exact .inr ⟨v, List.mem_cons_of_mem _ hv, h⟩

theorem ascii_unwords {ws : List (List Char)} (h : ∀ w ∈ ws, Ascii w) : Ascii (unwords ws) := by
  intro c hc
  rcases mem_unwords hc with rfl | ⟨w, hw, hc⟩
  · decide
  · exact h w hw c hc

/-- `str::split_once`: the text before and after the first `sep`. -/
def splitOnce (sep : Char) (cs : List Char) : Option (List Char × List Char) :=
  match cs.dropWhile (· ≠ sep) with
  | [] => none
  | _ :: rest => some (cs.takeWhile (· ≠ sep), rest)

/-- `str::rsplit_once`: the text before and after the last `sep`. -/
def rsplitOnce (sep : Char) (cs : List Char) : Option (List Char × List Char) :=
  (splitOnce sep cs.reverse).map fun p => (p.2.reverse, p.1.reverse)

/-! ## Decimal integers -/

/-- A non-empty run of decimal digits. -/
def parseDigits (cs : List Char) : Option Nat :=
  if cs ≠ [] ∧ cs.all Char.isDigit then some (Nat.ofDigitChars 10 cs 0) else none

/-- `FromStr` of an unsigned integer type with the largest value `hi`. -/
def parseNat (hi : Nat) (cs : List Char) : Option Nat :=
  (parseDigits (match cs with
    | '+' :: ds => ds
    | ds => ds)).filter (· ≤ hi)

/-- `FromStr` of a signed integer type with values from `lo` to `hi`. -/
def parseInt (lo hi : Int) (cs : List Char) : Option Int :=
  (match cs with
    | '+' :: ds => (parseDigits ds).map Int.ofNat
    | '-' :: ds => (parseDigits ds).map fun n => -(n : Int)
    | ds => (parseDigits ds).map Int.ofNat).filter fun i => decide (lo ≤ i ∧ i ≤ hi)

/-- `Display` of an integer. -/
def showInt (i : Int) : List Char :=
  if i < 0 then '-' :: Nat.toDigits 10 i.natAbs else Nat.toDigits 10 i.natAbs

theorem isDigit_of_mem_toDigits {n : Nat} {c : Char} (h : c ∈ Nat.toDigits 10 n) :
    c.isDigit = true :=
  Nat.isDigit_of_mem_toDigits (by decide) (by decide) h

theorem toNat_of_isDigit {c : Char} (h : c.isDigit = true) : 48 ≤ c.toNat ∧ c.toNat ≤ 57 := by
  simp only [Char.isDigit, Bool.and_eq_true, decide_eq_true_eq] at h
  exact ⟨h.1, h.2⟩

theorem isWhitespace_of_isDigit {c : Char} (h : c.isDigit = true) : isWhitespace c = false := by
  obtain ⟨h1, h2⟩ := toNat_of_isDigit h
  unfold isWhitespace
  simp only [Bool.or_eq_false_iff, Bool.and_eq_false_iff, decide_eq_false_iff_not, beq_eq_false_iff_ne]
  omega

theorem parseDigits_toDigits (n : Nat) : parseDigits (Nat.toDigits 10 n) = some n := by
  unfold parseDigits
  rw [if_pos, Nat.ofDigitChars_ten_toDigits]
  refine ⟨Nat.toDigits_ne_nil, ?_⟩
  rw [List.all_eq_true]
  exact fun c hc => isDigit_of_mem_toDigits hc

/-- The first character of a digit run is no sign. -/
theorem toDigits_head_ne {n : Nat} {c : Char} {cs : List Char} (h : Nat.toDigits 10 n = c :: cs) :
    c ≠ '+' ∧ c ≠ '-' := by
  have hd : c.isDigit = true := isDigit_of_mem_toDigits (n := n) (by rw [h]; simp)
  constructor
  · rintro rfl
    exact absurd hd (by decide)
  · rintro rfl
    exact absurd hd (by decide)

theorem parseNat_toDigits {hi n : Nat} (h : n ≤ hi) :
    parseNat hi (Nat.toDigits 10 n) = some n := by
  unfold parseNat
  split
  · rename_i ds he
    exact absurd rfl (toDigits_head_ne he).1
  · rw [parseDigits_toDigits]
    simp [Option.filter, h]

theorem parseInt_showInt {lo hi i : Int} (h : lo ≤ i ∧ i ≤ hi) :
    parseInt lo hi (showInt i) = some i := by
  have hf : ∀ j : Int, j = i → (some j).filter (fun i => decide (lo ≤ i ∧ i ≤ hi)) = some i := by
    rintro j rfl
    simp [Option.filter, h]
  unfold parseInt showInt
  by_cases hneg : i < 0
  · rw [if_pos hneg]
    simp only [parseDigits_toDigits]
    exact hf (-(i.natAbs : Int)) (by omega)
  · rw [if_neg hneg]
    split
    · rename_i ds he
      exact absurd rfl (toDigits_head_ne he).1
    · rename_i ds he
      exact absurd rfl (toDigits_head_ne he).2
    · rw [parseDigits_toDigits, Option.map_some]
      exact hf _ (by simp only [Int.ofNat_eq_natCast]; omega)

/-- A shortened positive numeral is a smaller positive numeral. -/
theorem prefix_toDigits {d : List Char} (hd : d ≠ []) : ∀ {n : Nat}, 0 < n →
    d <+: Nat.toDigits 10 n → ∃ k, 0 < k ∧ k ≤ n ∧ d = Nat.toDigits 10 k := by
  intro n
  induction n using Nat.strong_induction_on with
  | _ n ih =>
    intro hn hp
    by_cases hlt : n < 10
    · rw [Nat.toDigits_of_lt_base hlt] at hp
      refine ⟨n, hn, Nat.le_refl n, ?_⟩
      rw [Nat.toDigits_of_lt_base hlt]
      rcases List.prefix_concat_iff.mp (show d <+: [] ++ [n.digitChar] from hp) with h | h
      · exact h
      · exact absurd (List.prefix_nil.mp h) hd
    · rw [Nat.toDigits_of_base_le (by decide) (by omega)] at hp
      rcases List.prefix_concat_iff.mp hp with h | h
      · exact ⟨n, hn, Nat.le_refl n, h.trans (Nat.toDigits_of_base_le (by decide) (by omega)).symm⟩
      · obtain ⟨k, hk, hle, he⟩ := ih (n / 10) (by omega) (by omega) h
        exact ⟨k, hk, by omega, he⟩

theorem ascii_toDigits (n : Nat) : Ascii (Nat.toDigits 10 n) := by
  intro c hc
  have := toNat_of_isDigit (isDigit_of_mem_toDigits hc)
  omega

theorem ascii_showInt (i : Int) : Ascii (showInt i) := by
  unfold showInt
  split
  · exact Ascii.cons (by decide) (ascii_toDigits _)
  · exact ascii_toDigits _

theorem word_toDigits (n : Nat) : Word (Nat.toDigits 10 n) :=
  ⟨Nat.toDigits_ne_nil, fun _ hc => isWhitespace_of_isDigit (isDigit_of_mem_toDigits hc)⟩

theorem word_showInt (i : Int) : Word (showInt i) := by
  unfold showInt
  split
  · refine ⟨by simp, fun c hc => ?_⟩
    rcases List.mem_cons.mp hc with rfl | hc
    · decide
    · exact (word_toDigits _).solid c hc
  · exact word_toDigits _

end Text
