import Klyro.Util.Bytes

/-!
# Lists (`types/list.rs`)

Index windows, trimming, removal and insertion on the sequence behind a list key.
-/

set_option autoImplicit false

namespace Klyro

/-- `resolve_range`. -/
def resolveRange (len : Nat) (start stop : Int) : Option (Nat × Nat) :=
  let n : Int := len
  let start := if start < 0 then start + n else start
  let stop := if stop < 0 then stop + n else stop
  let start := if start < 0 then 0 else start
  let stop := if n ≤ stop then n - 1 else stop
  if n = 0 ∨ stop < start ∨ n ≤ start then none else some (start.toNat, stop.toNat)

/-- `resolve_index`. -/
def resolveIndex (len : Nat) (index : Int) : Option Nat :=
  let real := if index < 0 then index + len else index
  if real < 0 ∨ (len : Int) ≤ real then none else some real.toNat

/-- The sequence behind a list key, a `VecDeque`. -/
abbrev ListValue := List Bytes

namespace ListValue

/-- `list::range`. -/
def range (list : ListValue) (start stop : Int) : List Bytes :=
  match resolveRange list.length start stop with
  | none => []
  | some (start, stop) => (list.drop start).take (stop - start + 1)

/-- `list::trim`. -/
def trim (list : ListValue) (start stop : Int) : ListValue :=
  match resolveRange list.length start stop with
  | none => []
  | some (start, stop) => (list.take (stop + 1)).drop start

/-- Positions holding `value`, in ascending order. -/
def positions (list : ListValue) (value : Bytes) : List Nat :=
  (list.zipIdx.filter fun p => p.1 == value).map Prod.snd

/-- `list::remove`: what is left and how many were removed. -/
def remove (list : ListValue) (count : Int) (value : Bytes) : Nat × ListValue :=
  let limit := if count = 0 then u64Max else count.natAbs
  let hits := positions list value
  let hits := (if count < 0 then hits.reverse else hits).take limit
  let hits := sortBy (fun a b => compare b a) hits
  (hits.length, hits.foldl (fun l i => l.eraseIdx i) list)

/-- `list::insert`: the new length, `none` when the pivot is absent. -/
def insert (list : ListValue) (before : Bool) (pivot value : Bytes) : Option Nat × ListValue :=
  match list.findIdx? (· == pivot) with
  | none => (none, list)
  | some pos =>
    let list' := list.insertIdx (if before then pos else pos + 1) value
    (some list'.length, list')

end ListValue

end Klyro
