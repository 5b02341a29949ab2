import Klyro.Persist.Load
import Klyro.Persist.Saved
import Klyro.Types.Memory.Searchable

/-!
# A memory index, saved and loaded

The index of one key goes into a dump and comes back out of it: `save_inner` writes its
configuration and its records, `read_memory` rebuilds it from them.

* `Memory.reload` — both halves, over the bytes in between.
* `Memory.loadedAll` — the records of a copy or of a dump, loaded one after another.
* `sat_reload` — a reload gives the rebuilt index.
-/

set_option autoImplicit false

namespace Klyro

open DumpReader Store

namespace Memory

/-- Save the index and load it back; `none` when the loader gives up. -/
def reload (maxTerms : Nat) : Run Memory (Option Memory) := do
  let records ← recordsForDump
  let m ← Act.get
  let written := (Payload.memory m.config m.nextId records).pieces.flatMap Piece.bytes
  let read ← Act.zoom (fun _ => written) (fun _ m => m) (readMemory records.length maxTerms).run
  pure (match read with
    | .ok loaded => loaded
    | .error _ => none)

/-- The numbers and texts of an index are of sizes that can exist, and no vector is empty. -/
structure Written (m : Memory) : Prop where
  dim : m.config.dim ≤ u64Max
  nextId : m.nextId ≤ u64Max
  record : ∀ id r, m.records.lookup id = some r → MemoryRecordFits (r, m.vectorOf r)

variable {m : Memory} {e : Env} {w : World} {cap : Nat}

theorem mem_dumpAt_lookup {t t' : SystemTime} {p : MemoryRecord × Option (List F32)}
    (hp : p ∈ m.dumpAt t t') : ∃ id, m.records.lookup id = some p.1 ∧ p.2 = m.vectorOf p.1 := by
  unfold dumpAt at hp
  obtain ⟨r, hr, rfl⟩ := List.mem_map.mp hp
  obtain ⟨id, -, hlook⟩ := List.mem_filterMap.mp (List.mem_filter.mp hr).1
  exact ⟨id, hlook, rfl⟩

/-- **A reload rebuilds the index** from the records that were live when it was saved; it fails only
where no array of vectors is that large. -/
theorem sat_reload (h : m.Written) (maxTerms : Nat) : Act.Sat (reload maxTerms) e m w
    (fun r m' w' => r = some (rebuilt maxTerms m.config m.nextId
        (m.dumpAt (e.clock w.ticks) (e.clock (w.ticks + 1)))) ∧ m' = m ∧ Later 2 w w')
    (· = .capacity) := by
  unfold reload
  rw [Act.sat_bind]
  refine Act.sat_mono recordsForDump_spec ?_ (fun _ h => h.elim)
  rintro records m' w' ⟨rfl, rfl, hw⟩
  rw [Act.sat_bind, Act.sat_get, Act.sat_bind, Act.sat_zoom]
  have hread : Act.SatE (readMemory (m'.dumpAt (e.clock w.ticks) (e.clock (w.ticks + 1))).length maxTerms)
      e ((Payload.memory m'.config m'.nextId
        (m'.dumpAt (e.clock w.ticks) (e.clock (w.ticks + 1)))).pieces.flatMap Piece.bytes ++ []) w'
      (fun r _ w'' => r = some (rebuilt maxTerms m'.config m'.nextId
        (m'.dumpAt (e.clock w.ticks) (e.clock (w.ticks + 1)))) ∧ w'' = w') (fun _ _ _ => False)
      (· = .capacity) := by
    refine sat_readMemory h.dim (.inl rfl) (fun p hp => ?_) ⟨rfl, rfl⟩
    obtain ⟨id, hlook, hvec⟩ := mem_dumpAt_lookup hp
    have hfits := h.record id p.1 hlook
    rwa [← hvec] at hfits
  rw [List.append_nil] at hread
  refine Act.sat_mono hread ?_ (fun _ h => h)
  rintro (error | loaded) _ w'' hloaded
  · exact hloaded.elim
  · obtain ⟨rfl, rfl⟩ := hloaded
    exact ⟨rfl, rfl, hw⟩

/-! ## Records loaded one after another -/

/-- Load every record, in order. -/
def loadedAll (cap : Nat) (records : List (MemoryRecord × Option (List F32))) (m : Memory) : Memory :=
  records.foldl (fun m p => m.loaded p.1 p.2 cap) m

theorem rebuilt_eq (config : MemoryConfig) (nextId : Nat)
    (records : List (MemoryRecord × Option (List F32))) : rebuilt cap config nextId records =
      loadedAll cap (records.map fun p => (reparsed p, revector p.2)) (rebuildStart config nextId) := by
  unfold rebuilt loadedAll
  rw [List.foldl_map]

theorem loadedAll_config : ∀ (records : List (MemoryRecord × Option (List F32))) (m : Memory),
    (loadedAll cap records m).config = m.config ∧ (loadedAll cap records m).nextId = m.nextId
  | [], _ => ⟨rfl, rfl⟩
  | p :: records, m => loadedAll_config records (m.loaded p.1 p.2 cap)

theorem lookup_loaded (r : MemoryRecord) (vector : Option (List F32)) :
    ∃ slot, ∀ id, (m.loaded r vector cap).records.lookup id =
      if id = r.id then some { r with slot := slot } else m.records.lookup id :=
  ⟨_, fun _ => Assoc.lookup_insert_eq _ _ _ _⟩

theorem loadedAll_notMem : ∀ {records : List (MemoryRecord × Option (List F32))} {m : Memory} {id : Bytes},
    id ∉ records.map (fun p => p.1.id) → (loadedAll cap records m).records.lookup id = m.records.lookup id
  | [], _, _, _ => rfl
  | p :: records, m, id, h => by
    rw [List.map_cons, List.mem_cons, not_or] at h
    obtain ⟨slot, hone⟩ : ∃ slot, ∀ id, (m.loaded p.1 p.2 cap).records.lookup id = _ :=
      lookup_loaded p.1 p.2
    have hrest : (loadedAll cap records (m.loaded p.1 p.2 cap)).records.lookup id = _ :=
      loadedAll_notMem h.2
    rw [hone, if_neg h.1] at hrest
    exact hrest

/-- Of records with different ids, each is found again, but for its slot. -/
theorem loadedAll_mem : ∀ {records : List (MemoryRecord × Option (List F32))} {m : Memory},
    (records.map fun p => p.1.id).Nodup → ∀ p ∈ records,
      ∃ slot, (loadedAll cap records m).records.lookup p.1.id = some { p.1 with slot := slot }
  | [], _, _, _, hp => by cases hp
  | q :: records, m, hn, p, hp => by
    rw [List.map_cons, List.nodup_cons] at hn
    rcases List.mem_cons.mp hp with rfl | hp
    · obtain ⟨slot, hone⟩ : ∃ slot, ∀ id, (m.loaded p.1 p.2 cap).records.lookup id = _ :=
        lookup_loaded p.1 p.2
      have hrest : (loadedAll cap records (m.loaded p.1 p.2 cap)).records.lookup p.1.id = _ :=
        loadedAll_notMem hn.1
      rw [hone, if_pos rfl] at hrest
      exact ⟨slot, hrest⟩
    · exact loadedAll_mem (m := m.loaded q.1 q.2 cap) hn.2 p hp

theorem reparsed_id (p : MemoryRecord × Option (List F32)) : (reparsed p).id = p.1.id :=
  (setMetaAll_same _ _).1

theorem dumpAt_nodup (h : m.Keyed) (t t' : SystemTime) :
    ((m.dumpAt t t').map fun p => p.1.id).Nodup := by
  unfold dumpAt
  rw [List.map_map]
  exact liveRecords_nodup h t t'

/-- A record that is saved is found again in the rebuilt index. -/
theorem rebuilt_mem (h : m.Keyed) {t t' : SystemTime} {p : MemoryRecord × Option (List F32)}
    (hp : p ∈ m.dumpAt t t') (config : MemoryConfig) (nextId : Nat) :
    ∃ slot, (rebuilt cap config nextId (m.dumpAt t t')).records.lookup p.1.id =
      some { reparsed p with slot := slot } := by
  rw [rebuilt_eq, ← reparsed_id p]
  refine loadedAll_mem ?_ (reparsed p, revector p.2) (List.mem_map_of_mem hp)
  have hids : ((m.dumpAt t t').map fun q => (reparsed q, revector q.2)).map (fun q => q.1.id) =
      (m.dumpAt t t').map fun q => q.1.id := by
    rw [List.map_map]
    exact List.map_congr_left fun q _ => reparsed_id q
  rw [hids]
  exact dumpAt_nodup h t t'

end Memory

/-! ## Lives -/

/-- What may happen to an index: an operation, or a save with a load after it. -/
inductive LifeOp where
  | index (op : IndexOp)
  | reload

/-- One step; where the dump cannot be loaded the index is the one that was saved. -/
def LifeOp.exec : LifeOp → Run IndexState Unit
  | .index op => op.exec
  | .reload => do
    let s ← Act.get
    let loaded ← onIndex (Memory.reload s.cap)
    Act.modify fun s => { s with memory := loaded.getD s.memory }

end Klyro
