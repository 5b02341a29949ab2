import Mathlib.Data.Nat.Log
import Mathlib.Data.Nat.Sqrt
import Mathlib.Tactic.Positivity
import Mathlib.Tactic.Ring
import Klyro.Lib.Text

/-!
# Binary floating point

IEEE 754 binary formats as sign and magnitude, with round-to-nearest-even arithmetic computed
exactly on natural numbers, decimal parsing and shortest round-trip printing.

* `units` — the magnitude of a finite value as a multiple of the least positive one.
* `round` — the nearest magnitude of a quotient of naturals, ties to even; `round_units` says
  that rounding a representable value gives it back, `round_scale` that only the quotient counts.
* `add`, `mul`, `div`, `sqrt`, `partialCmp` — the operations.
* `parse` / `display` — decimal text; `parse_display` is the round trip for every value that is
  not a NaN, `display_word` says that the text is one word.
-/

set_option autoImplicit false

/-- A binary interchange format. -/
structure Format where
  /-- Significand digits, the hidden one included. -/
  prec : Nat
  /-- Width of the exponent field. -/
  expBits : Nat
deriving DecidableEq

namespace Format

/-- The weight of the hidden digit. -/
def hidden (f : Format) : Nat := 2 ^ (f.prec - 1)

/-- The magnitude field of an infinity. -/
def infMag (f : Format) : Nat := (2 ^ f.expBits - 1) * f.hidden

/-- The least positive value is `2 ^ -unitExp`. -/
def unitExp (f : Format) : Nat := 2 ^ (f.expBits - 1) + f.prec - 3

/-- One more than the largest magnitude field. -/
def magBound (f : Format) : Nat := 2 ^ f.expBits * f.hidden

theorem hidden_pos (f : Format) : 0 < f.hidden := by
  unfold hidden
  positivity

theorem infMag_lt (f : Format) : f.infMag < f.magBound := by
  unfold infMag magBound
  exact Nat.mul_lt_mul_of_pos_right (Nat.sub_lt (by positivity) one_pos) f.hidden_pos

end Format

/-- A floating-point value: its sign and its exponent and fraction fields, read as one number. -/
structure SoftFloat (f : Format) where
  neg : Bool
  mag : Fin f.magBound
deriving DecidableEq

namespace SoftFloat

variable {f : Format}

/-! ## Magnitudes and rounding -/

/-- The value of a magnitude field, in units of the least positive value. -/
def unitsOf (f : Format) (m : Nat) : Nat :=
  if m / f.hidden = 0 then m % f.hidden else (f.hidden + m % f.hidden) * 2 ^ (m / f.hidden - 1)

/-- `n / d` to the nearest integer, ties to even. -/
def halfEven (n d : Nat) : Nat :=
  if 2 * (n % d) < d then n / d
  else if d < 2 * (n % d) then n / d + 1
  else if n / d % 2 = 0 then n / d
  else n / d + 1

/-- The magnitude field nearest to `n / d` units. -/
def round (f : Format) (n d : Nat) : Nat :=
  let k := (n / d).log2 - (f.prec - 1)
  k * f.hidden + halfEven n (d * 2 ^ k)

/-- The value with this sign and magnitude field; what is above the finite range is infinite. -/
def ofMag (neg : Bool) (m : Nat) : SoftFloat f :=
  ⟨neg, ⟨min m f.infMag, lt_of_le_of_lt (Nat.min_le_right _ _) f.infMag_lt⟩⟩

/-- The value of a finite magnitude, in units. -/
def units (x : SoftFloat f) : Nat := unitsOf f x.mag

/-- The signed value of a finite number, in units. -/
def toUnits (x : SoftFloat f) : Int := if x.neg then -(x.units : Int) else x.units

/-- `is_nan`. -/
def isNan (x : SoftFloat f) : Bool := decide (f.infMag < x.mag)

/-- `is_infinite`. -/
def isInfinite (x : SoftFloat f) : Bool := decide (x.mag.val = f.infMag)

/-- `is_finite`. -/
def isFinite (x : SoftFloat f) : Bool := decide (x.mag.val < f.infMag)

/-- `+0` or `-0`. -/
def zero (neg : Bool) : SoftFloat f := ofMag neg 0

/-- An infinity. -/
def inf (neg : Bool) : SoftFloat f := ofMag neg f.infMag

/-- A quiet NaN. -/
def nan : SoftFloat f :=
  ⟨false, ⟨f.magBound - 1, Nat.sub_lt (by unfold Format.magBound; have := f.hidden_pos; positivity)
    one_pos⟩⟩

/-- Whether a finite value is a zero. -/
def isZero (x : SoftFloat f) : Bool := x.mag.val == 0

theorem halfEven_exact (q : Nat) {d : Nat} (hd : 0 < d) : halfEven (q * d) d = q := by
  unfold halfEven
  rw [Nat.mul_mod_left, Nat.mul_div_cancel _ hd, Nat.mul_zero, if_pos hd]

theorem halfEven_scale (n d : Nat) {c : Nat} (hc : 0 < c) : halfEven (n * c) (d * c) = halfEven n d := by
  unfold halfEven
  rw [Nat.mul_div_mul_right _ _ hc, Nat.mul_mod_mul_right, ← Nat.mul_assoc]
  simp only [Nat.mul_lt_mul_right hc]

/-- Only the quotient counts. -/
theorem round_scale (n d : Nat) {c : Nat} (hc : 0 < c) : round f (n * c) (d * c) = round f n d := by
  unfold round
  rw [Nat.mul_div_mul_right _ _ hc]
  simp only
  rw [Nat.mul_right_comm, halfEven_scale _ _ hc]

/-- **Rounding a representable value gives it back.** -/
theorem round_units (m : Nat) {d : Nat} (hd : 0 < d) : round f (unitsOf f m * d) d = m := by
  have hh := f.hidden_pos
  have hm : m / f.hidden * f.hidden + m % f.hidden = m := Nat.div_add_mod' m f.hidden
  unfold round unitsOf
  rw [Nat.mul_div_cancel _ hd]
  by_cases he : m / f.hidden = 0
  · -- subnormal: the field is the value itself
    rw [if_pos he]
    have hlt : m % f.hidden < 2 ^ (f.prec - 1) := Nat.mod_lt _ hh
    have hk : (m % f.hidden).log2 - (f.prec - 1) = 0 := by
      by_cases h0 : m % f.hidden = 0
      · rw [h0]; simp
      · have := (Nat.log2_lt h0).mpr hlt
        omega
    rw [hk]
    simp only [pow_zero, Nat.mul_one, Nat.zero_mul, Nat.zero_add]
    rw [halfEven_exact _ hd]
    rw [he] at hm
    omega
  · rw [if_neg he]
    have hlt : m % f.hidden < f.hidden := Nat.mod_lt _ hh
    have hlog : ((f.hidden + m % f.hidden) * 2 ^ (m / f.hidden - 1)).log2 =
        f.prec - 1 + (m / f.hidden - 1) := by
      have hne : (f.hidden + m % f.hidden) * 2 ^ (m / f.hidden - 1) ≠ 0 :=
        Nat.mul_ne_zero (by omega) (by positivity)
      rw [Nat.log2_eq_iff hne]
      unfold Format.hidden at hlt ⊢
      constructor
      · rw [pow_add]
        exact Nat.mul_le_mul_right _ (Nat.le_add_right _ _)
      · rw [pow_succ, pow_add, Nat.mul_right_comm]
        exact Nat.mul_lt_mul_of_pos_right (by omega) (by positivity)
    rw [hlog, Nat.add_sub_cancel_left]
    simp only
    have hp : (f.hidden + m % f.hidden) * 2 ^ (m / f.hidden - 1) * d =
        (f.hidden + m % f.hidden) * (d * 2 ^ (m / f.hidden - 1)) := by ring
    rw [hp, halfEven_exact _ (by positivity), ← Nat.add_assoc, ← Nat.succ_mul]
    have hsucc : (m / f.hidden - 1).succ = m / f.hidden :=
      Nat.sub_add_cancel (Nat.pos_of_ne_zero he)
    rw [hsucc]
    exact hm

theorem ofMag_eq {x : SoftFloat f} (h : x.isNan = false) : ofMag x.neg x.mag = x := by
  have hle : x.mag.val ≤ f.infMag := by
    simpa [isNan] using h
  obtain ⟨neg, m, hm⟩ := x
  simp only [ofMag, mk.injEq, true_and, Fin.mk.injEq]
  exact Nat.min_eq_left hle

/-! ## Operations -/

/-- Unary minus. -/
def negate (x : SoftFloat f) : SoftFloat f := ⟨!x.neg, x.mag⟩

/-- `abs`. -/
def abs (x : SoftFloat f) : SoftFloat f := ⟨false, x.mag⟩

/-- Addition. -/
def add (x y : SoftFloat f) : SoftFloat f :=
  if x.isNan || y.isNan then nan
  else if x.isInfinite then (if y.isInfinite && x.neg != y.neg then nan else x)
  else if y.isInfinite then y
  else
    let v := x.toUnits + y.toUnits
    if v = 0 then zero (x.neg && y.neg)
    else ofMag (decide (v < 0)) (round f v.natAbs 1)

/-- Subtraction. -/
def sub (x y : SoftFloat f) : SoftFloat f := add x (negate y)

/-- Multiplication. -/
def mul (x y : SoftFloat f) : SoftFloat f :=
  let s := x.neg != y.neg
  if x.isNan || y.isNan then nan
  else if x.isInfinite || y.isInfinite then (if x.isZero || y.isZero then nan else inf s)
  else ofMag s (round f (x.units * y.units) (2 ^ f.unitExp))

/-- Division. -/
def div (x y : SoftFloat f) : SoftFloat f :=
  let s := x.neg != y.neg
  if x.isNan || y.isNan then nan
  else if x.isInfinite then (if y.isInfinite then nan else inf s)
  else if y.isInfinite then zero s
  else if y.isZero then (if x.isZero then nan else inf s)
  else ofMag s (round f (x.units * 2 ^ f.unitExp) y.units)

/-- Square root: one digit below every rounding boundary and a sticky digit decide it. -/
def sqrt (x : SoftFloat f) : SoftFloat f :=
  if x.isNan then nan
  else if x.isZero then x
  else if x.neg then nan
  else if x.isInfinite then x
  else
    let n := x.units * 2 ^ f.unitExp * 4
    let r := Nat.sqrt n
    ofMag false (round f (2 * r + if r * r < n then 1 else 0) 4)

/-- The order of the extended reals as integers. -/
def key (x : SoftFloat f) : Int := if x.neg then -(x.mag.val : Int) else x.mag.val

/-- `partial_cmp`. -/
def partialCmp (x y : SoftFloat f) : Option Ordering :=
  if x.isNan || y.isNan then none else some (compare x.key y.key)

/-- `<`. -/
def lt (x y : SoftFloat f) : Bool := x.partialCmp y == some .lt

/-- `<=`. -/
def le (x y : SoftFloat f) : Bool := x.partialCmp y == some .lt || x.partialCmp y == some .eq

/-- `==`. -/
def feq (x y : SoftFloat f) : Bool := x.partialCmp y == some .eq

/-- `f64::max`. -/
def fmax (x y : SoftFloat f) : SoftFloat f :=
  if x.isNan then y else if y.isNan then x else if x.lt y then y else x

/-- `f64::min`. -/
def fmin (x y : SoftFloat f) : SoftFloat f :=
  if x.isNan then y else if y.isNan then x else if y.lt x then y else x

/-- An integer, rounded. -/
def ofInt (i : Int) : SoftFloat f := ofMag (decide (i < 0)) (round f (i.natAbs * 2 ^ f.unitExp) 1)

/-- Conversion between formats. -/
def cast {g : Format} (x : SoftFloat g) : SoftFloat f :=
  if x.isNan then nan
  else if x.isInfinite then inf x.neg
  else ofMag x.neg (round f (x.units * 2 ^ f.unitExp) (2 ^ g.unitExp))

/-- The integer part, toward zero. -/
def trunc (x : SoftFloat f) : Int :=
  let n := x.units / 2 ^ f.unitExp
  if x.neg then -(n : Int) else n

/-! ## Decimal text -/

/-- The magnitude field nearest to `n * 10 ^ e`. -/
def ofDecimal (f : Format) (n : Nat) (e : Int) : Nat :=
  round f (n * 10 ^ e.toNat * 2 ^ f.unitExp) (10 ^ (-e).toNat)

/-- An exponent suffix, or nothing. -/
def parseExponent : List Char → Option Int
  | [] => some 0
  | c :: ds =>
    if c = 'e' ∨ c = 'E' then
      match ds with
      | '-' :: es => (Text.parseDigits es).map fun n => -(n : Int)
      | '+' :: es => (Text.parseDigits es).map Int.ofNat
      | es => (Text.parseDigits es).map Int.ofNat
    else none

/-- The fraction digits and what follows them. -/
def splitFraction : List Char → List Char × List Char
  | '.' :: cs => (cs.takeWhile Char.isDigit, cs.dropWhile Char.isDigit)
  | cs => ([], cs)

/-- An unsigned decimal number: digits, an optional fraction and an optional exponent. -/
def parseNumber (f : Format) (cs : List Char) : Option Nat :=
  let whole := cs.takeWhile Char.isDigit
  let rest := splitFraction (cs.dropWhile Char.isDigit)
  if whole = [] ∧ rest.1 = [] then none
  else (parseExponent rest.2).map fun e =>
    ofDecimal f (Nat.ofDigitChars 10 (whole ++ rest.1) 0) (e - rest.1.length)

/-- ASCII lower case. -/
def lower (c : Char) : Char := if 'A'.toNat ≤ c.toNat ∧ c.toNat ≤ 'Z'.toNat then Char.ofNat (c.toNat + 32) else c

/-- What follows the sign. -/
def parseUnsigned (neg : Bool) (cs : List Char) : Option (SoftFloat f) :=
  let name := cs.map lower
  if name = ['i', 'n', 'f'] ∨ name = ['i', 'n', 'f', 'i', 'n', 'i', 't', 'y'] then some (inf neg)
  else if name = ['n', 'a', 'n'] then some { (nan : SoftFloat f) with neg := neg }
  else (parseNumber f cs).map (ofMag neg)

/-- `FromStr` of a float. -/
def parse : List Char → Option (SoftFloat f)
  | '-' :: cs => parseUnsigned true cs
  | '+' :: cs => parseUnsigned false cs
  | cs => parseUnsigned false cs

/-- The shortest digits that round to the magnitude `m`, found by dropping ever fewer digits of
the exact decimal expansion `n * 10 ^ -u`; where both neighbours round to it, the nearer one. -/
def shortest (f : Format) (m n u : Nat) : Nat → Nat × Int
  | 0 => (n, -(u : Int))
  | j + 1 =>
    let scale := 10 ^ (j + 1)
    let lo := n / scale
    let e := (j + 1 : Int) - u
    let down := ofDecimal f lo e == m
    let up := ofDecimal f (lo + 1) e == m
    if up && (!down || decide (scale ≤ 2 * (n % scale))) then (lo + 1, e)
    else if down then (lo, e)
    else shortest f m n u j

/-- Drop the zeros at the end of a fraction. -/
def stripZeros : Nat → Nat × Int → Nat × Int
  | 0, p => p
  | fuel + 1, (d, e) => if e < 0 ∧ d % 10 = 0 then stripZeros fuel (d / 10, e + 1) else (d, e)

/-- Positional notation of `d * 10 ^ e`. -/
def positional (d : Nat) (e : Int) : List Char :=
  let ds := Nat.toDigits 10 d
  if 0 ≤ e then ds ++ List.replicate e.toNat '0'
  else
    let k := (-e).toNat
    if k < ds.length then ds.take (ds.length - k) ++ '.' :: ds.drop (ds.length - k)
    else '0' :: '.' :: (List.replicate (k - ds.length) '0' ++ ds)

/-- The digits a finite magnitude is printed with. -/
def displayDigits (f : Format) (m : Nat) : Nat × Int :=
  let n := unitsOf f m * 5 ^ f.unitExp
  let p := shortest f m n f.unitExp ((Nat.toDigits 10 n).length - 1)
  stripZeros (-p.2).toNat p

/-- `Display` of a float: the shortest decimal text that parses back, without an exponent. -/
def display (x : SoftFloat f) : List Char :=
  if x.isNan then ['N', 'a', 'N']
  else
    let text :=
      if x.isInfinite then ['i', 'n', 'f']
      else if x.isZero then ['0']
      else
        let p := displayDigits f x.mag
        positional p.1 p.2
    if x.neg then '-' :: text else text

/-! ## The decimal round trip -/

theorem ofDecimal_shift (d : Nat) {e : Int} (he : e < 0) :
    ofDecimal f (d * 10) e = ofDecimal f d (e + 1) := by
  obtain ⟨k, rfl⟩ : ∃ k : Nat, e = -((k : Int) + 1) := ⟨(-e - 1).toNat, by omega⟩
  unfold ofDecimal
  have h1 : (-((k : Int) + 1)).toNat = 0 := by omega
  have h2 : (-(-((k : Int) + 1))).toNat = k + 1 := by omega
  have h3 : (-((k : Int) + 1) + 1).toNat = 0 := by omega
  have h4 : (-(-((k : Int) + 1) + 1)).toNat = k := by omega
  rw [h1, h2, h3, h4, pow_succ]
  have hn : d * 10 * 10 ^ 0 * 2 ^ f.unitExp = d * 10 ^ 0 * 2 ^ f.unitExp * 10 := by ring
  rw [hn, round_scale _ _ (by decide)]

theorem ofDecimal_stripZeros : ∀ (fuel : Nat) (p : Nat × Int),
    ofDecimal f (stripZeros fuel p).1 (stripZeros fuel p).2 = ofDecimal f p.1 p.2
  | 0, _ => rfl
  | fuel + 1, (d, e) => by
    unfold stripZeros
    split
    · rename_i h
      rw [ofDecimal_stripZeros fuel, ← ofDecimal_shift _ h.1]
      rw [Nat.div_mul_cancel (Nat.dvd_of_mod_eq_zero h.2)]
    · rfl

/-- The search only stops at digits that round back. -/
theorem ofDecimal_shortest {m n u : Nat} (h : ofDecimal f n (-(u : Int)) = m) : ∀ j : Nat,
    ofDecimal f (shortest f m n u j).1 (shortest f m n u j).2 = m
  | 0 => h
  | j + 1 => by
    simp only [shortest]
    split
    · rename_i hup
      simp only [Bool.and_eq_true, beq_iff_eq] at hup
      exact hup.1
    · split
      · rename_i hdown
        simpa using hdown
      · exact ofDecimal_shortest h j

theorem ofDecimal_exact (m : Nat) :
    ofDecimal f (unitsOf f m * 5 ^ f.unitExp) (-(f.unitExp : Int)) = m := by
  unfold ofDecimal
  have h1 : (-(f.unitExp : Int)).toNat = 0 := by omega
  have h2 : (-(-(f.unitExp : Int))).toNat = f.unitExp := by omega
  rw [h1, h2, pow_zero, Nat.mul_one, Nat.mul_assoc, ← Nat.mul_pow]
  exact round_units m (by positivity)

theorem ofDecimal_displayDigits (m : Nat) :
    ofDecimal f (displayDigits f m).1 (displayDigits f m).2 = m := by
  unfold displayDigits
  rw [ofDecimal_stripZeros]
  exact ofDecimal_shortest (ofDecimal_exact m) _

theorem takeWhile_digits_append {ds : List Char} (cs : List Char) (h : ∀ c ∈ ds, c.isDigit = true)
    (hc : ∀ c, cs.head? = some c → c.isDigit = false) :
    (ds ++ cs).takeWhile Char.isDigit = ds ∧ (ds ++ cs).dropWhile Char.isDigit = cs := by
  rw [List.takeWhile_append_of_pos h, List.dropWhile_append_of_pos h, Text.dropWhile_of_head hc]
  refine ⟨?_, rfl⟩
  cases cs with
  | nil => simp
  | cons c cs => simp [hc c rfl]

theorem parseNumber_whole (ds : List Char) (h : ∀ c ∈ ds, c.isDigit = true) (hne : ds ≠ []) :
    parseNumber f ds = some (ofDecimal f (Nat.ofDigitChars 10 ds 0) 0) := by
  have ht := takeWhile_digits_append [] h (by simp)
  rw [List.append_nil] at ht
  unfold parseNumber
  simp [ht.1, ht.2, hne, splitFraction, parseExponent]

theorem parseNumber_fraction (ds fs : List Char) (h : ∀ c ∈ ds, c.isDigit = true) (hne : ds ≠ [])
    (hf : ∀ c ∈ fs, c.isDigit = true) :
    parseNumber f (ds ++ '.' :: fs) =
      some (ofDecimal f (Nat.ofDigitChars 10 (ds ++ fs) 0) (-(fs.length : Int))) := by
  have ht := takeWhile_digits_append ('.' :: fs) h (by simp)
  have hfs := takeWhile_digits_append [] hf (by simp)
  rw [List.append_nil] at hfs
  unfold parseNumber
  simp [ht.1, ht.2, hne, splitFraction, hfs.1, hfs.2, parseExponent]

/-- Reading positional notation gives the digits and the exponent back. -/
theorem parseNumber_positional (d : Nat) (e : Int) :
    parseNumber f (positional d e) = some (ofDecimal f d e) := by
  have hdig : ∀ c ∈ Nat.toDigits 10 d, c.isDigit = true := fun c => Text.isDigit_of_mem_toDigits
  have hzero : ∀ n, ∀ c ∈ List.replicate n '0', c.isDigit = true := by
    intro n c hc
    rw [List.eq_of_mem_replicate hc]
    decide
  unfold positional
  by_cases he : 0 ≤ e
  · simp only [he, if_true]
    rw [parseNumber_whole]
    · rw [Nat.ofDigitChars_append, Nat.ofDigitChars_ten_toDigits, Nat.ofDigitChars_replicate_zero]
      unfold ofDecimal
      have h1 : (-e).toNat = 0 := by omega
      rw [h1, Nat.mul_comm (10 ^ e.toNat) d]
      simp
    · intro c hc
      rcases List.mem_append.mp hc with hc | hc
      · exact hdig c hc
      · exact hzero _ c hc
    · simp [Nat.toDigits_ne_nil]
  · simp only [he, if_false]
    by_cases hk : (-e).toNat < (Nat.toDigits 10 d).length
    · rw [if_pos hk, parseNumber_fraction]
      · rw [List.take_append_drop, Nat.ofDigitChars_ten_toDigits, List.length_drop]
        congr 2
        omega
      · exact fun c hc => hdig c (List.mem_of_mem_take hc)
      · intro h0
        have := congrArg List.length h0
        rw [List.length_take] at this
        simp only [List.length_nil] at this
        omega
      · exact fun c hc => hdig c (List.mem_of_mem_drop hc)
    · rw [if_neg hk]
      have hfs : ∀ c ∈ List.replicate ((-e).toNat - (Nat.toDigits 10 d).length) '0' ++
          Nat.toDigits 10 d, c.isDigit = true := by
        intro c hc
        rcases List.mem_append.mp hc with hc | hc
        · exact hzero _ c hc
        · exact hdig c hc
      have := parseNumber_fraction (f := f) ['0'] _ (by simp) (by simp) hfs
      rw [List.singleton_append] at this
      rw [this, List.singleton_append, Nat.ofDigitChars_cons, Nat.ofDigitChars_append,
        Nat.ofDigitChars_replicate_zero]
      simp only [Nat.sub_self, Nat.mul_zero, Nat.add_zero, Nat.ofDigitChars_ten_toDigits,
        List.length_append, List.length_replicate]
      congr 2
      omega

theorem positional_head (d : Nat) (e : Int) :
    ∃ c cs, positional d e = c :: cs ∧ c.isDigit = true := by
  obtain ⟨c, cs, hc⟩ := List.exists_cons_of_ne_nil (Nat.toDigits_ne_nil (b := 10) (n := d))
  have hd : c.isDigit = true := Text.isDigit_of_mem_toDigits (n := d) (by rw [hc]; simp)
  unfold positional
  simp only
  split
  · exact ⟨c, cs ++ _, by rw [hc]; rfl, hd⟩
  · split
    · rename_i hk
      obtain ⟨n, hn⟩ : ∃ n, (Nat.toDigits 10 d).length - (-e).toNat = n + 1 :=
        ⟨(Nat.toDigits 10 d).length - (-e).toNat - 1, by omega⟩
      rw [hn, hc]
      exact ⟨c, _, rfl, hd⟩
    · exact ⟨'0', _, rfl, by decide⟩

theorem lower_of_isDigit {c : Char} (h : c.isDigit = true) : lower c = c := by
  have := Text.toNat_of_isDigit h
  unfold lower
  rw [if_neg]
  have hA : 'A'.toNat = 65 := rfl
  omega

/-- A text that starts with a digit is read as a number. -/
theorem parseUnsigned_digit {neg : Bool} {c : Char} {cs : List Char} (h : c.isDigit = true) :
    (parseUnsigned neg (c :: cs) : Option (SoftFloat f)) =
      (parseNumber f (c :: cs)).map (ofMag neg) := by
  have hi : c ≠ 'i' := by rintro rfl; exact absurd h (by decide)
  have hn : c ≠ 'n' := by rintro rfl; exact absurd h (by decide)
  unfold parseUnsigned
  simp [lower_of_isDigit h, hi, hn]

theorem parse_neg (cs : List Char) :
    (parse ('-' :: cs) : Option (SoftFloat f)) = parseUnsigned true cs := rfl

theorem parse_digit {c : Char} {cs : List Char} (h : c.isDigit = true) :
    (parse (c :: cs) : Option (SoftFloat f)) = parseUnsigned false (c :: cs) := by
  have hm : c ≠ '-' := by rintro rfl; exact absurd h (by decide)
  have hp : c ≠ '+' := by rintro rfl; exact absurd h (by decide)
  unfold parse
  split
  · rename_i he; cases he; exact absurd rfl hm
  · rename_i he; cases he; exact absurd rfl hp
  · rfl

/-- The text of a magnitude, signed, parses to it whenever the unsigned text does. -/
theorem parse_signed {neg : Bool} {c : Char} {cs : List Char} {m : Nat} (h : c.isDigit = true)
    (hm : parseNumber f (c :: cs) = some m) :
    parse (if neg then '-' :: c :: cs else c :: cs) = some (ofMag (f := f) neg m) := by
  cases neg with
  | true =>
    rw [if_pos rfl, parse_neg, parseUnsigned_digit h, hm]
    rfl
  | false =>
    rw [if_neg (by decide), parse_digit h, parseUnsigned_digit h, hm]
    rfl

/-- **Printing and parsing give every number back.** -/
theorem parse_display {x : SoftFloat f} (h : x.isNan = false) : parse x.display = some x := by
  unfold display
  rw [h]
  simp only [Bool.false_eq_true, if_false]
  by_cases hinf : x.isInfinite = true
  · rw [hinf]
    have hx : (inf x.neg : SoftFloat f) = x := by
      rw [← ofMag_eq h]
      unfold inf ofMag
      simp only [isInfinite, decide_eq_true_eq] at hinf
      simp [hinf]
    cases hn : x.neg with
    | true =>
      rw [hn] at hx
      rw [← hx]
      rfl
    | false =>
      rw [hn] at hx
      rw [← hx]
      rfl
  · rw [if_neg hinf]
    by_cases hz : x.isZero = true
    · rw [if_pos hz, parse_signed (m := 0) (by decide)]
      · have h0 : x.mag.val = 0 := by simpa [isZero] using hz
        rw [← h0, ofMag_eq h]
      · have := parseNumber_whole (f := f) ['0'] (by simp) (by simp)
        rw [this]
        simp only [Option.some.injEq]
        unfold ofDecimal
        simp [Nat.ofDigitChars_cons, round, halfEven]
    · rw [if_neg hz]
      obtain ⟨c, cs, hcs, hd⟩ := positional_head (displayDigits f x.mag).1 (displayDigits f x.mag).2
      have hp := parseNumber_positional (f := f) (displayDigits f x.mag).1 (displayDigits f x.mag).2
      rw [ofDecimal_displayDigits, hcs] at hp
      simp only [hcs]
      rw [parse_signed hd hp, ofMag_eq h]

/-- Printed numbers are made of visible ASCII characters. -/
theorem positional_visible (d : Nat) (e : Int) :
    ∀ c ∈ positional d e, c.toNat < 0x80 ∧ Text.isWhitespace c = false := by
  have hdig : ∀ c ∈ Nat.toDigits 10 d, c.toNat < 0x80 ∧ Text.isWhitespace c = false := fun c hc =>
    ⟨Text.ascii_toDigits d c hc, (Text.word_toDigits d).solid c hc⟩
  have hzero : ∀ n, ∀ c ∈ List.replicate n '0', c.toNat < 0x80 ∧ Text.isWhitespace c = false := by
    intro n c hc
    rw [List.eq_of_mem_replicate hc]
    decide
  have hpoint : '.'.toNat < 0x80 ∧ Text.isWhitespace '.' = false := by decide
  have h0 : '0'.toNat < 0x80 ∧ Text.isWhitespace '0' = false := by decide
  intro c hc
  unfold positional at hc
  simp only at hc
  split at hc
  · rcases List.mem_append.mp hc with hc | hc
    · exact hdig c hc
    · exact hzero _ c hc
  · split at hc
    · rcases List.mem_append.mp hc with hc | hc
      · exact hdig c (List.mem_of_mem_take hc)
      · rcases List.mem_cons.mp hc with rfl | hc
        · exact hpoint
        · exact hdig c (List.mem_of_mem_drop hc)
    · rcases List.mem_cons.mp hc with rfl | hc
      · exact h0
      · rcases List.mem_cons.mp hc with rfl | hc
        · exact hpoint
        · rcases List.mem_append.mp hc with hc | hc
          · exact hzero _ c hc
          · exact hdig c hc

theorem display_visible (x : SoftFloat f) :
    ∀ c ∈ x.display, c.toNat < 0x80 ∧ Text.isWhitespace c = false := by
  have htext : ∀ c ∈ (if x.isInfinite then ['i', 'n', 'f'] else if x.isZero then ['0']
      else positional (displayDigits f x.mag).1 (displayDigits f x.mag).2),
      c.toNat < 0x80 ∧ Text.isWhitespace c = false := by
    intro c hc
    split at hc
    · revert c; exact Text.forall_chars (by decide)
    · split at hc
      · revert c; exact Text.forall_chars (by decide)
      · exact positional_visible _ _ c hc
  intro c hc
  unfold display at hc
  split at hc
  · revert c; exact Text.forall_chars (by decide)
  · simp only at hc
    split at hc
    · rcases List.mem_cons.mp hc with rfl | hc
      · decide
      · exact htext c hc
    · exact htext c hc

theorem display_ne_nil (x : SoftFloat f) : x.display ≠ [] := by
  obtain ⟨c, cs, hcs, -⟩ := positional_head (displayDigits f x.mag).1 (displayDigits f x.mag).2
  unfold display
  simp only [hcs]
  split
  · simp
  · split
    · simp
    · split
      · simp
      · split <;> simp

theorem display_word (x : SoftFloat f) : Text.Word x.display :=
  ⟨display_ne_nil x, fun c hc => (display_visible x c hc).2⟩

theorem display_ascii (x : SoftFloat f) : Text.Ascii x.display :=
  fun c hc => (display_visible x c hc).1

end SoftFloat

/-- `f64`. -/
abbrev F64 := SoftFloat ⟨53, 11⟩

/-- `f32`. -/
abbrev F32 := SoftFloat ⟨24, 8⟩
