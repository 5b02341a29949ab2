import Klyro.Commands.Strings

/-!
# One window rule

`LRANGE`, `LTRIM`, `GETRANGE`, `ZRANGE`, `ZREVRANGE` and `ZREMRANGEBYRANK` resolve a pair of indices
the same way.

* `window`, `outside`, `mirrored` — the elements a pair of indices stands for, by position.
* `resolveRangeChecked` and its companions — the source's routines once more, with every arithmetic
  operation and every slice checked.
* `windows_exact` — the checked routines end well, and with these elements; so do the others.
-/

set_option autoImplicit false

namespace Klyro

/-! ## Windows by position -/

section windows

variable {α : Type}

/-- The first position of a window. -/
def firstIndex (n : Nat) (start : Int) : Int := max 0 (if start < 0 then start + n else start)

/-- The last position of a window. -/
def lastIndex (n : Nat) (stop : Int) : Int := min (n - 1) (if stop < 0 then stop + n else stop)

/-- The elements whose position is in the window. -/
def window (l : List α) (start stop : Int) : List α :=
  (l.zipIdx.filter fun p => decide (firstIndex l.length start ≤ p.2 ∧
    (p.2 : Int) ≤ lastIndex l.length stop)).map Prod.fst

/-- The elements whose position is not. -/
def outside (l : List α) (start stop : Int) : List α :=
  (l.zipIdx.filter fun p => !decide (firstIndex l.length start ≤ p.2 ∧
    (p.2 : Int) ≤ lastIndex l.length stop)).map Prod.fst

/-- The elements of the window counted from the end, the last of them first. -/
def mirrored (l : List α) (start stop : Int) : List α :=
  ((l.zipIdx.filter fun p => decide ((l.length : Int) - 1 - lastIndex l.length stop ≤ p.2 ∧
    (p.2 : Int) ≤ l.length - 1 - firstIndex l.length start)).map Prod.fst).reverse

theorem filter_between (lo hi : Nat) : ∀ (l : List α) (k : Nat), lo ≤ hi + 1 →
    ((l.zipIdx k).filter fun p => decide (lo ≤ p.2 ∧ p.2 ≤ hi)).map Prod.fst =
      (l.take (hi + 1 - k)).drop (lo - k)
  | [], k, _ => by simp
  | x :: l, k, h => by
    have ih := filter_between lo hi l (k + 1) h
    rw [List.zipIdx_cons]
    by_cases hin : lo ≤ k ∧ k ≤ hi
    · have htake : hi + 1 - k = (hi + 1 - (k + 1)) + 1 := by omega
      have h0 : lo - k = 0 := by omega
      have h0' : lo - (k + 1) = 0 := by omega
      rw [List.filter_cons_of_pos (by simpa using hin), List.map_cons, ih, htake, h0, h0',
        List.take_succ_cons, List.drop_zero, List.drop_zero]
    · rw [List.filter_cons_of_neg (by simpa using hin), ih]
      by_cases hlo : k < lo
      · have htake : hi + 1 - k = (hi + 1 - (k + 1)) + 1 := by omega
        have hdrop : lo - k = (lo - (k + 1)) + 1 := by omega
        rw [htake, hdrop, List.take_succ_cons, List.drop_succ_cons]
      · have h0 : hi + 1 - k = 0 := by omega
        have h0' : hi + 1 - (k + 1) = 0 := by omega
        rw [h0, h0', List.take_zero, List.take_zero, List.drop_nil, List.drop_nil]

theorem filter_beyond (lo hi : Nat) : ∀ (l : List α) (k : Nat), lo ≤ hi + 1 →
    ((l.zipIdx k).filter fun p => !decide (lo ≤ p.2 ∧ p.2 ≤ hi)).map Prod.fst =
      l.take (lo - k) ++ l.drop (hi + 1 - k)
  | [], k, _ => by simp
  | x :: l, k, h => by
    have ih := filter_beyond lo hi l (k + 1) h
    rw [List.zipIdx_cons]
    by_cases hin : lo ≤ k ∧ k ≤ hi
    · have hdrop : hi + 1 - k = (hi + 1 - (k + 1)) + 1 := by omega
      have h0 : lo - k = 0 := by omega
      have h0' : lo - (k + 1) = 0 := by omega
      rw [List.filter_cons_of_neg (by simpa using hin), ih, hdrop, h0, h0', List.drop_succ_cons,
        List.take_zero, List.take_zero]
    · have hpos : (!decide (lo ≤ (x, k).2 ∧ (x, k).2 ≤ hi)) = true := by
        rw [decide_eq_false hin]
        rfl
      rw [List.filter_cons_of_pos (l := l.zipIdx (k + 1)) hpos, List.map_cons, ih]
      by_cases hlo : k < lo
      · have htake : lo - k = (lo - (k + 1)) + 1 := by omega
        have hdrop : hi + 1 - k = (hi + 1 - (k + 1)) + 1 := by omega
        rw [htake, hdrop, List.take_succ_cons, List.drop_succ_cons, List.cons_append]
      · have h0 : lo - k = 0 := by omega
        have h0' : lo - (k + 1) = 0 := by omega
        have h1 : hi + 1 - k = 0 := by omega
        have h1' : hi + 1 - (k + 1) = 0 := by omega
        rw [h0, h0', h1, h1', List.take_zero, List.take_zero, List.drop_zero, List.drop_zero]
        rfl

variable {l : List α} {start stop : Int}

theorem firstIndex_nonneg (n : Nat) (start : Int) : 0 ≤ firstIndex n start := le_max_left _ _

theorem lastIndex_lt (n : Nat) (stop : Int) : lastIndex n stop < n := by
  unfold lastIndex
  omega

theorem window_empty (h : lastIndex l.length stop < firstIndex l.length start) :
    window l start stop = [] := by
  unfold window
  rw [List.filter_eq_nil_iff.mpr fun p _ => by simp; omega]
  rfl

theorem outside_empty (h : lastIndex l.length stop < firstIndex l.length start) :
    outside l start stop = l := by
  unfold outside
  rw [List.filter_eq_self.mpr fun p _ => by simp; omega]
  exact List.zipIdx_map_fst ..

theorem mirrored_empty (h : lastIndex l.length stop < firstIndex l.length start) :
    mirrored l start stop = [] := by
  unfold mirrored
  rw [List.filter_eq_nil_iff.mpr fun p _ => by simp; omega]
  rfl

section
variable (h : firstIndex l.length start ≤ lastIndex l.length stop)
include h

theorem window_eq : window l start stop =
    (l.take ((lastIndex l.length stop).toNat + 1)).drop (firstIndex l.length start).toNat := by
  have hfirst := firstIndex_nonneg l.length start
  have hbetween := filter_between (firstIndex l.length start).toNat (lastIndex l.length stop).toNat l 0
    (by omega)
  rw [Nat.sub_zero, Nat.sub_zero] at hbetween
  rw [← hbetween]
  unfold window
  refine congrArg _ (List.filter_congr fun p _ => decide_eq_decide.mpr ?_)
  omega

theorem outside_eq : outside l start stop = l.take (firstIndex l.length start).toNat ++
    l.drop ((lastIndex l.length stop).toNat + 1) := by
  have hfirst := firstIndex_nonneg l.length start
  have hbeyond := filter_beyond (firstIndex l.length start).toNat (lastIndex l.length stop).toNat l 0
    (by omega)
  rw [Nat.sub_zero, Nat.sub_zero] at hbeyond
  rw [← hbeyond]
  unfold outside
  refine congrArg _ (List.filter_congr fun p _ => congrArg not (decide_eq_decide.mpr ?_))
  omega

theorem mirrored_eq : mirrored l start stop =
    ((l.take (l.length - 1 - (firstIndex l.length start).toNat + 1)).drop
      (l.length - 1 - (lastIndex l.length stop).toNat)).reverse := by
  have hfirst := firstIndex_nonneg l.length start
  have hlast := lastIndex_lt l.length stop
  have hbetween := filter_between (l.length - 1 - (lastIndex l.length stop).toNat)
    (l.length - 1 - (firstIndex l.length start).toNat) l 0 (by omega)
  rw [Nat.sub_zero, Nat.sub_zero] at hbetween
  rw [← hbetween]
  unfold mirrored
  refine congrArg List.reverse (congrArg _ (List.filter_congr fun p _ => decide_eq_decide.mpr ?_))
  omega

end

end windows

/-! ## The routines with their arithmetic checked -/

/-- The result of an `i64` operation. -/
def inI64 (x : Int) : Except Panic Int :=
  if i64Min ≤ x ∧ x ≤ i64Max then .ok x else .error .overflow

/-- The result of a `usize` operation. -/
def inUsize (x : Int) : Except Panic Nat :=
  if 0 ≤ x ∧ x ≤ u64Max then .ok x.toNat else .error .overflow

/-- `as usize`. -/
def asUsize (x : Int) : Nat := (x % (u64Max + 1)).toNat

/-- `xs[first..=last]`. -/
def sliceChecked {α : Type} (xs : List α) (first last : Nat) : Except Panic (List α) :=
  if last < xs.length ∧ first ≤ last + 1 then .ok ((xs.take (last + 1)).drop first) else .error .bounds

/-- An index that may count from the end. -/
def fromEnd (len index : Int) : Except Panic Int :=
  if index < 0 then inI64 (index + len) else .ok index

/-- A last index, brought into the collection. -/
def capped (len stop : Int) : Except Panic Int :=
  if len ≤ stop then inI64 (len - 1) else .ok stop

/-- `resolve_range`. -/
def resolveRangeChecked (len : Nat) (start stop : Int) : Except Panic (Option (Nat × Nat)) := do
  let len := wrapI64 len
  let start ← fromEnd len start
  let stop ← fromEnd len stop
  let start := if start < 0 then 0 else start
  let stop ← capped len stop
  if len = 0 ∨ stop < start ∨ len ≤ start then pure none
  else pure (some (asUsize start, asUsize stop))

/-- `list::range`. -/
def ListValue.rangeChecked (list : ListValue) (start stop : Int) : Except Panic (List Bytes) := do
  match ← resolveRangeChecked list.length start stop with
  | none => pure []
  | some (start, stop) => do
    let width ← inUsize (stop - start : Int)
    let width ← inUsize (width + 1 : Int)
    pure ((list.drop start).take width)

/-- `list::trim`. -/
def ListValue.trimChecked (list : ListValue) (start stop : Int) : Except Panic ListValue := do
  match ← resolveRangeChecked list.length start stop with
  | none => pure []
  | some (start, stop) => do
    let size ← inUsize (stop + 1 : Int)
    let kept := list.take size
    if kept.length < start then .error .bounds else pure (kept.drop start)

/-- `substring`. -/
def substringChecked (value : Bytes) (start stop : Int) : Except Panic Bytes := do
  let len := wrapI64 value.length
  let start ← fromEnd len start
  let stop ← fromEnd len stop
  let start := if start < 0 then 0 else start
  let stop ← capped len stop
  if len = 0 ∨ stop < start ∨ len ≤ start then pure []
  else sliceChecked value (asUsize start) (asUsize stop)

namespace Zset

/-- `range`. -/
def rangeChecked (z : Zset) (start stop : Int) : Except Panic (List (Bytes × F64)) := do
  match ← resolveRangeChecked z.entries.length start stop with
  | none => pure []
  | some (start, stop) => sliceChecked z.entries start stop

/-- `rev_range`. -/
def revRangeChecked (z : Zset) (start stop : Int) : Except Panic (List (Bytes × F64)) := do
  match ← resolveRangeChecked z.entries.length start stop with
  | none => pure []
  | some (start, stop) => do
    let last ← inUsize (z.entries.length - 1 : Int)
    let first ← inUsize (last - stop : Int)
    let last ← inUsize (last - start : Int)
    let found ← sliceChecked z.entries first last
    pure found.reverse

/-- `remove_range_by_rank`. -/
def removeRangeByRankChecked (z : Zset) (start stop : Int) : Except Panic (Nat × Zset) := do
  match ← resolveRangeChecked z.entries.length start stop with
  | none => pure (0, z)
  | some (start, stop) => do
    let drained ← sliceChecked z.entries start stop
    pure (drained.length, ⟨z.entries.take start ++ z.entries.drop (stop + 1)⟩)

end Zset

/-! ## The rule -/

section rule

variable {α : Type} {start stop : Int} {n : Nat}

/-- A pair of indices, resolved. -/
def resolved (n : Nat) (start stop : Int) : Option (Nat × Nat) :=
  if lastIndex n stop < firstIndex n start then none
  else some ((firstIndex n start).toNat, (lastIndex n stop).toNat)

theorem resolveRange_eq (n : Nat) (start stop : Int) : resolveRange n start stop =
    resolved n start stop := by
  have hstart : (if (if start < 0 then start + n else start) < 0 then 0
      else if start < 0 then start + n else start) = firstIndex n start := by
    unfold firstIndex
    split_ifs <;> omega
  have hstop : (if (n : Int) ≤ (if stop < 0 then stop + n else stop) then (n : Int) - 1
      else if stop < 0 then stop + n else stop) = lastIndex n stop := by
    unfold lastIndex
    split_ifs <;> omega
  have hfirst := firstIndex_nonneg n start
  have hlast := lastIndex_lt n stop
  unfold resolveRange resolved
  dsimp only
  rw [hstart, hstop]
  by_cases hempty : lastIndex n stop < firstIndex n start
  · rw [if_pos hempty, if_pos (.inr (.inl hempty))]
  · rw [if_neg hempty, if_neg (by omega)]

theorem inI64_ok {x : Int} (hmin : i64Min ≤ x) (hmax : x ≤ i64Max) : inI64 x = .ok x :=
  if_pos ⟨hmin, hmax⟩

theorem inUsize_ok {x : Int} (hmin : 0 ≤ x) (hmax : x ≤ u64Max) : inUsize x = .ok x.toNat :=
  if_pos ⟨hmin, hmax⟩

theorem asUsize_eq {x : Int} (hmin : 0 ≤ x) (hmax : x ≤ u64Max) : asUsize x = x.toNat := by
  unfold asUsize
  rw [Int.emod_eq_of_lt hmin (by omega)]

theorem wrapI64_length (hn : n ≤ isizeMax) : wrapI64 n = n := by
  unfold wrapI64
  unfold isizeMax at hn
  omega

theorem fromEnd_ok {index : Int} (hn : n ≤ isizeMax) (hi : i64Min ≤ index ∧ index ≤ i64Max) :
    fromEnd (wrapI64 n) index = .ok (if index < 0 then index + n else index) := by
  rw [wrapI64_length hn]
  unfold isizeMax at hn
  unfold i64Min i64Max at hi
  unfold fromEnd
  split
  · exact inI64_ok (by unfold i64Min; omega) (by unfold i64Max; omega)
  · rfl

theorem capped_ok (hn : n ≤ isizeMax) (stop : Int) :
    capped (wrapI64 n) (if stop < 0 then stop + n else stop) = .ok (lastIndex n stop) := by
  rw [wrapI64_length hn]
  unfold isizeMax at hn
  unfold capped lastIndex
  by_cases hlarge : (n : Int) ≤ if stop < 0 then stop + n else stop
  · rw [if_pos hlarge, inI64_ok (by unfold i64Min; omega) (by unfold i64Max; omega)]
    exact congrArg Except.ok (by omega)
  · rw [if_neg hlarge]
    exact congrArg Except.ok (by omega)

/-- The checked steps every routine begins with. -/
theorem steps_ok {β : Type} (hn : n ≤ isizeMax) (hs : i64Min ≤ start ∧ start ≤ i64Max)
    (he : i64Min ≤ stop ∧ stop ≤ i64Max) (f : Int → Int → Except Panic β) :
    (do
      let start ← fromEnd (wrapI64 n) start
      let stop ← fromEnd (wrapI64 n) stop
      let start := if start < 0 then 0 else start
      let stop ← capped (wrapI64 n) stop
      f start stop) = f (firstIndex n start) (lastIndex n stop) := by
  have hfirst : (if (if start < 0 then start + n else start) < 0 then 0
      else if start < 0 then start + n else start) = firstIndex n start := by
    unfold firstIndex
    split_ifs <;> omega
  rw [fromEnd_ok hn hs, fromEnd_ok hn he, ok_bind, ok_bind, capped_ok hn, hfirst]
  exact ok_bind _ _

/-- The emptiness test of the source, on a resolved pair. -/
theorem empty_iff (hn : n ≤ isizeMax) : (wrapI64 n = 0 ∨ lastIndex n stop < firstIndex n start ∨
    wrapI64 n ≤ firstIndex n start) ↔ lastIndex n stop < firstIndex n start := by
  have hfirst := firstIndex_nonneg n start
  have hlast := lastIndex_lt n stop
  rw [wrapI64_length hn]
  omega

theorem asUsize_first (hn : n ≤ isizeMax) (h : firstIndex n start ≤ lastIndex n stop) :
    asUsize (firstIndex n start) = (firstIndex n start).toNat := by
  have hlast := lastIndex_lt n stop
  unfold isizeMax at hn
  exact asUsize_eq (firstIndex_nonneg n start) (by unfold u64Max; omega)

theorem asUsize_last (hn : n ≤ isizeMax) (h : firstIndex n start ≤ lastIndex n stop) :
    asUsize (lastIndex n stop) = (lastIndex n stop).toNat := by
  have hfirst := firstIndex_nonneg n start
  have hlast := lastIndex_lt n stop
  unfold isizeMax at hn
  exact asUsize_eq (by omega) (by unfold u64Max; omega)

theorem resolveRangeChecked_eq (hn : n ≤ isizeMax) (hs : i64Min ≤ start ∧ start ≤ i64Max)
    (he : i64Min ≤ stop ∧ stop ≤ i64Max) :
    resolveRangeChecked n start stop = .ok (resolved n start stop) := by
  unfold resolveRangeChecked resolved
  dsimp only
  rw [steps_ok hn hs he fun start stop => if wrapI64 n = 0 ∨ stop < start ∨ wrapI64 n ≤ start then pure none
    else pure (some (asUsize start, asUsize stop))]
  by_cases hempty : lastIndex n stop < firstIndex n start
  · rw [if_pos hempty, if_pos ((empty_iff hn).mpr hempty)]
    rfl
  · rw [if_neg hempty, if_neg (mt (empty_iff hn).mp hempty), asUsize_first hn (not_lt.mp hempty),
      asUsize_last hn (not_lt.mp hempty)]
    rfl

theorem sliceChecked_ok (l : List α) {first last : Nat} (hlast : last < l.length) (h : first ≤ last + 1) :
    sliceChecked l first last = .ok ((l.take (last + 1)).drop first) := if_pos ⟨hlast, h⟩

variable (hs : i64Min ≤ start ∧ start ≤ i64Max) (he : i64Min ≤ stop ∧ stop ≤ i64Max)
include hs he

/-- `LRANGE`. -/
theorem lrange_window (l : ListValue) (hn : l.length ≤ isizeMax) :
    l.rangeChecked start stop = .ok (window l start stop) ∧ l.range start stop = window l start stop := by
  have hfirst := firstIndex_nonneg l.length start
  have hlast := lastIndex_lt l.length stop
  unfold ListValue.rangeChecked ListValue.range
  rw [resolveRangeChecked_eq hn hs he, resolveRange_eq]
  unfold resolved
  by_cases hempty : lastIndex l.length stop < firstIndex l.length start
  · rw [if_pos hempty, window_empty hempty]
    exact ⟨rfl, rfl⟩
  · unfold isizeMax at hn
    have hwindow : window l start stop = (l.drop (firstIndex l.length start).toNat).take
        ((lastIndex l.length stop).toNat - (firstIndex l.length start).toNat + 1) := by
      rw [window_eq (not_lt.mp hempty), List.drop_take]
      congr 1
      omega
    rw [if_neg hempty, hwindow]
    refine ⟨?_, rfl⟩
    rw [ok_bind]
    dsimp only
    rw [inUsize_ok (by omega) (by unfold u64Max; omega), ok_bind,
      inUsize_ok (by omega) (by unfold u64Max; omega), ok_bind]
    refine congrArg Except.ok (congrArg (fun k => List.take k _) ?_)
    omega

/-- `LTRIM`. -/
theorem ltrim_window (l : ListValue) (hn : l.length ≤ isizeMax) :
    l.trimChecked start stop = .ok (window l start stop) ∧ l.trim start stop = window l start stop := by
  have hfirst := firstIndex_nonneg l.length start
  have hlast := lastIndex_lt l.length stop
  unfold ListValue.trimChecked ListValue.trim
  rw [resolveRangeChecked_eq hn hs he, resolveRange_eq]
  unfold resolved
  by_cases hempty : lastIndex l.length stop < firstIndex l.length start
  · rw [if_pos hempty, window_empty hempty]
    exact ⟨rfl, rfl⟩
  · unfold isizeMax at hn
    rw [if_neg hempty, window_eq (not_lt.mp hempty)]
    refine ⟨?_, rfl⟩
    have hsize : (((lastIndex l.length stop).toNat : Int) + 1).toNat =
        (lastIndex l.length stop).toNat + 1 := by omega
    rw [ok_bind]
    dsimp only
    rw [inUsize_ok (by omega) (by unfold u64Max; omega), ok_bind, hsize,
      if_neg (by rw [List.length_take]; omega)]
    rfl

/-- `GETRANGE`. -/
theorem getrange_window (value : Bytes) (hn : value.length ≤ isizeMax) :
    substringChecked value start stop = .ok (window value start stop) ∧
      Strings.substring value start stop = window value start stop := by
  have hfirst := firstIndex_nonneg value.length start
  have hlast := lastIndex_lt value.length stop
  have hplain : Strings.substring value start stop = match resolveRange value.length start stop with
      | none => []
      | some (start, stop) => (value.take (stop + 1)).drop start := by
    unfold Strings.substring resolveRange
    dsimp only
    split_ifs <;> rfl
  rw [hplain, resolveRange_eq]
  unfold substringChecked resolved
  dsimp only
  rw [steps_ok hn hs he fun first last =>
    if wrapI64 value.length = 0 ∨ last < first ∨ wrapI64 value.length ≤ first then pure []
    else sliceChecked value (asUsize first) (asUsize last)]
  by_cases hempty : lastIndex value.length stop < firstIndex value.length start
  · rw [if_pos hempty, if_pos ((empty_iff hn).mpr hempty), window_empty hempty]
    exact ⟨rfl, rfl⟩
  · rw [if_neg hempty, if_neg (mt (empty_iff hn).mp hempty), asUsize_first hn (not_lt.mp hempty),
      asUsize_last hn (not_lt.mp hempty), sliceChecked_ok value (by omega) (by omega),
      window_eq (not_lt.mp hempty)]
    exact ⟨rfl, rfl⟩

/-- `ZRANGE`. -/
theorem zrange_window (z : Zset) (hn : z.entries.length ≤ isizeMax) :
    z.rangeChecked start stop = .ok (window z.entries start stop) ∧
      z.range start stop = window z.entries start stop := by
  have hfirst := firstIndex_nonneg z.entries.length start
  have hlast := lastIndex_lt z.entries.length stop
  unfold Zset.rangeChecked Zset.range
  rw [resolveRangeChecked_eq hn hs he, resolveRange_eq]
  unfold resolved
  by_cases hempty : lastIndex z.entries.length stop < firstIndex z.entries.length start
  · rw [if_pos hempty, window_empty hempty]
    exact ⟨rfl, rfl⟩
  · rw [if_neg hempty, window_eq (not_lt.mp hempty)]
    exact ⟨sliceChecked_ok _ (by omega) (by omega), rfl⟩

/-- `ZREVRANGE`. -/
theorem zrevrange_window (z : Zset) (hn : z.entries.length ≤ isizeMax) :
    z.revRangeChecked start stop = .ok (mirrored z.entries start stop) ∧
      z.revRange start stop = mirrored z.entries start stop := by
  have hfirst := firstIndex_nonneg z.entries.length start
  have hlast := lastIndex_lt z.entries.length stop
  unfold Zset.revRangeChecked Zset.revRange
  dsimp only
  rw [resolveRangeChecked_eq hn hs he, resolveRange_eq]
  unfold resolved
  by_cases hempty : lastIndex z.entries.length stop < firstIndex z.entries.length start
  · rw [if_pos hempty, mirrored_empty hempty]
    exact ⟨rfl, rfl⟩
  · unfold isizeMax at hn
    rw [if_neg hempty, mirrored_eq (not_lt.mp hempty)]
    refine ⟨?_, rfl⟩
    have h₁ : ((z.entries.length : Int) - 1).toNat = z.entries.length - 1 := by omega
    have h₂ : (((z.entries.length - 1 : Nat) : Int) - (lastIndex z.entries.length stop).toNat).toNat =
        z.entries.length - 1 - (lastIndex z.entries.length stop).toNat := by omega
    have h₃ : (((z.entries.length - 1 : Nat) : Int) - (firstIndex z.entries.length start).toNat).toNat =
        z.entries.length - 1 - (firstIndex z.entries.length start).toNat := by omega
    rw [ok_bind]
    dsimp only
    rw [inUsize_ok (by omega) (by unfold u64Max; omega), ok_bind, h₁,
      inUsize_ok (by omega) (by unfold u64Max; omega), ok_bind, h₂,
      inUsize_ok (by omega) (by unfold u64Max; omega), ok_bind, h₃,
      sliceChecked_ok _ (by omega) (by omega), ok_bind]
    rfl

/-- `ZREMRANGEBYRANK`. -/
theorem zremrangebyrank_window (z : Zset) (hn : z.entries.length ≤ isizeMax) :
    z.removeRangeByRankChecked start stop =
        .ok ((window z.entries start stop).length, ⟨outside z.entries start stop⟩) ∧
      z.removeRangeByRank start stop =
        ((window z.entries start stop).length, ⟨outside z.entries start stop⟩) := by
  have hfirst := firstIndex_nonneg z.entries.length start
  have hlast := lastIndex_lt z.entries.length stop
  unfold Zset.removeRangeByRankChecked Zset.removeRangeByRank
  rw [resolveRangeChecked_eq hn hs he, resolveRange_eq]
  unfold resolved
  by_cases hempty : lastIndex z.entries.length stop < firstIndex z.entries.length start
  · rw [if_pos hempty, window_empty hempty, outside_empty hempty]
    exact ⟨rfl, rfl⟩
  · rw [if_neg hempty, window_eq (not_lt.mp hempty), outside_eq (not_lt.mp hempty)]
    refine ⟨?_, rfl⟩
    rw [ok_bind]
    dsimp only
    rw [sliceChecked_ok _ (by omega) (by omega), ok_bind]
    rfl

end rule

/-- **One window rule everywhere**: the elements at the positions of the window and no others, with no
overflow and no slice out of range. -/
theorem windows_exact (start stop : Int) (hs : i64Min ≤ start ∧ start ≤ i64Max)
    (he : i64Min ≤ stop ∧ stop ≤ i64Max) :
    (∀ l : ListValue, l.length ≤ isizeMax →
      (l.rangeChecked start stop = .ok (window l start stop) ∧
        l.range start stop = window l start stop) ∧
      (l.trimChecked start stop = .ok (window l start stop) ∧
        l.trim start stop = window l start stop)) ∧
    (∀ value : Bytes, value.length ≤ isizeMax →
      substringChecked value start stop = .ok (window value start stop) ∧
        Strings.substring value start stop = window value start stop) ∧
    (∀ z : Zset, z.entries.length ≤ isizeMax →
      (z.rangeChecked start stop = .ok (window z.entries start stop) ∧
        z.range start stop = window z.entries start stop) ∧
      (z.revRangeChecked start stop = .ok (mirrored z.entries start stop) ∧
        z.revRange start stop = mirrored z.entries start stop) ∧
      (z.removeRangeByRankChecked start stop =
          .ok ((window z.entries start stop).length, ⟨outside z.entries start stop⟩) ∧
        z.removeRangeByRank start stop =
          ((window z.entries start stop).length, ⟨outside z.entries start stop⟩))) :=
  ⟨fun l hn => ⟨lrange_window hs he l hn, ltrim_window hs he l hn⟩,
    fun value hn => getrange_window hs he value hn,
    fun z hn => ⟨zrange_window hs he z hn, zrevrange_window hs he z hn,
      zremrangebyrank_window hs he z hn⟩⟩

/-- The last three bytes of four. -/
theorem windows_exact_last : substringChecked [1, 2, 3, 4] (-3) i64Max =
      .ok (window [1, 2, 3, 4] (-3) i64Max) ∧
    Strings.substring [1, 2, 3, 4] (-3) i64Max = window [1, 2, 3, 4] (-3) i64Max :=
  (windows_exact (-3) i64Max (by decide) (by decide)).2.1 [1, 2, 3, 4] (by decide)

end Klyro
