import Klyro.Persist.Expiry
import Klyro.Persist.SlotsKept
import Klyro.Types.Memory.Documented

/-!
# Copies of a memory index

`COPY` rebuilds an index from its records, without a term cap.

* `Memory.Bare` — an index that stores no vectors; `Memory.Placed` — every slot is owned, or there is
  none.
* `loadedAll_documented` — records loaded one after another are indexed by their texts.
* `clone_spec` — a copy is what the index dumps, loaded into a new one.
* `lookup_copied`, `copied_live` — it has the same records and as many vectors, where none has expired.
-/

set_option autoImplicit false

namespace Klyro

open TextIndex

namespace Memory

variable {m m' : Memory} {e : Env} {w : World} {cap : Nat} {id : Bytes}

/-! ## Indexes without vectors -/

/-- The index stores no vectors, and no record has one. -/
structure Bare (m : Memory) : Prop where
  stores : m.config.mode.storesVectors = false
  keyed : m.Keyed
  slots : ∀ id r, m.records.lookup id = some r → r.slot = none
  live : m.vectors.live = 0

theorem bare_new {config : MemoryConfig} (h : config.mode.storesVectors = false) :
    (new config).Bare where
  stores := h
  keyed id r hr := by cases hr
  slots id r hr := by cases hr
  live := rfl

/-- A record without a vector is put in the place of another. -/
theorem Bare.withRecord (h : m.Bare) {r : MemoryRecord} (hid : r.id = id) (hslot : r.slot = none)
    (hconfig : m'.config = m.config) (hvectors : m'.vectors = m.vectors)
    (hrecords : m'.records = m.records.insert id r) : m'.Bare where
  stores := by
    rw [hconfig]
    exact h.stores
  keyed id' r' hr' := by
    rw [hrecords, Assoc.lookup_insert_eq] at hr'
    split at hr'
    · cases hr'
      exact hid.trans (‹id' = id›).symm
    · exact h.keyed id' r' hr'
  slots id' r' hr' := by
    rw [hrecords, Assoc.lookup_insert_eq] at hr'
    split at hr'
    · cases hr'
      exact hslot
    · exact h.slots id' r' hr'
  live := by
    rw [hvectors]
    exact h.live

theorem Bare.vectorOf (h : m.Bare) {r : MemoryRecord} (hr : m.records.lookup id = some r) :
    m.vectorOf r = none := by
  unfold Memory.vectorOf
  rw [h.slots id r hr]
  rfl

/-- A request with a vector is refused. -/
theorem Bare.request (h : m.Bare) {request : AddRequest} {t : SystemTime} {maxRecords : Nat}
    (href : m.addRefusal request id t maxRecords = none) : request.vector = none := by
  unfold addRefusal at href
  rw [h.stores] at href
  dsimp only at href
  split at href
  · cases href
  · split at href
    · cases href
    · cases hv : request.vector with
      | none => rfl
      | some values =>
        rw [hv] at href
        cases href

theorem keptBy_bare (e : Env) (cap : Nat) : KeptBy e cap (fun _ => True) Bare where
  add := by
    intro m w request maxRecords _ h
    have hn : (m.numbered request).Bare := by
      rw [numbered_eq]
      exact ⟨h.stores, h.keyed, h.slots, h.live⟩
    refine sat_add (fun _ _ => hn) fun href => sat_addChecked (fun _ _ _ => trivial) ?_
    rw [h.request href]
    refine hn.withRecord (added_id hn.keyed request _ _) ?_ rfl rfl rfl
    rw [added_slot]
    unfold slotAt
    cases hr : (m.numbered request).records.lookup (m.addedId request) with
    | none => rfl
    | some r => exact hn.slots _ r hr
  del := by
    intro m id h
    unfold del
    cases hr : m.records.lookup id with
    | none => exact h
    | some r =>
      dsimp only
      rw [h.slots id r hr]
      refine ⟨h.stores, fun id' r' hr' => ?_, fun id' r' hr' => ?_, h.live⟩
      · have hl : (m.records.erase id).lookup id' = some r' := hr'
        rw [Assoc.lookup_erase_eq] at hl
        split at hl
        · cases hl
        · exact h.keyed id' r' hl
      · have hl : (m.records.erase id).lookup id' = some r' := hr'
        rw [Assoc.lookup_erase_eq] at hl
        split at hl
        · cases hl
        · exact h.slots id' r' hl
  onLive := by
    intro α m w id f h hf
    refine sat_onLive (fun _ => h) fun r hr => Act.sat_mono (hf _ r _) ?_ (fun _ h => h)
    rintro p m' w' ⟨rfl, hsame⟩
    have hold := (liveRecord_some hr).1
    exact h.withRecord (hsame.id.trans (h.keyed id r hold)) (hsame.slot.trans (h.slots id r hold)) rfl
      rfl rfl

/-- Every slot is owned by one record or is free, or there is none. -/
def Placed (m : Memory) : Prop := m.Slotted ∨ m.Bare

theorem placed_new {config : MemoryConfig} (h : config.mode.storesVectors = true → 0 < config.dim) :
    (new config).Placed := by
  by_cases hstores : config.mode.storesVectors = true
  · exact .inl (slotted_new config hstores (h hstores))
  · exact .inr (bare_new (Bool.eq_false_iff.mpr hstores))

theorem Placed.keyed (h : m.Placed) : m.Keyed := h.elim Slotted.keyed Bare.keyed

/-! ## Records loaded one after another -/

/-- **Records that are loaded** are indexed by their texts. -/
theorem loadedAll_documented (hcap : 0 < cap) : ∀ {records : List (MemoryRecord × Option (List F32))}
    {m : Memory}, m.Documented cap → (records.map fun p => p.1.id).Nodup →
    (∀ p ∈ records, m.records.lookup p.1.id = none) → (loadedAll cap records m).Documented cap
  | [], _, h, _, _ => h
  | p :: records, m, h, hn, hnew => by
    rw [List.map_cons, List.nodup_cons] at hn
    obtain ⟨slot, hlookup⟩ : ∃ slot, ∀ id, (m.loaded p.1 p.2 cap).records.lookup id = _ :=
      lookup_loaded p.1 p.2
    have hnone := hnew p List.mem_cons_self
    have hone : (m.loaded p.1 p.2 cap).Documented cap := by
      have hfiled : ∀ (v : VectorIndex) (slot : Option Nat), ({ m with vectors := v }.filed p.1.id none
          { p.1 with slot := slot } cap).Documented cap := by
        intro v slot
        have hv : Documented cap { m with vectors := v } := h.congr rfl rfl fun _ => rfl
        have hrecord := hv.filed hcap (r := { p.1 with slot := slot }) rfl
        have hprevious : ((({ m with vectors := v } : Memory).records.lookup p.1.id).map
            MemoryRecord.text) = none := by
          show (m.records.lookup p.1.id).map _ = none
          rw [hnone]
          rfl
        rw [hprevious] at hrecord
        exact hrecord
      obtain ⟨v, slot, hloaded⟩ : ∃ (v : VectorIndex) (slot : Option Nat), m.loaded p.1 p.2 cap =
          { m with vectors := v }.filed p.1.id none { p.1 with slot := slot } cap :=
        ⟨(m.loaded p.1 p.2 cap).vectors, (p.2.filter fun values => m.config.mode.storesVectors &&
          decide (values.length = m.config.dim)).map fun _ => m.vectors.data.length / m.vectors.dim, rfl⟩
      rw [hloaded]
      exact hfiled v slot
    refine loadedAll_documented (m := m.loaded p.1 p.2 cap) hcap hone hn.2 fun q hq => ?_
    have hne : q.1.id ≠ p.1.id := fun heq => hn.1 (List.mem_map.mpr ⟨q, hq, heq⟩)
    rw [hlookup, if_neg hne]
    exact hnew q (List.mem_cons_of_mem _ hq)

/-- **A reloaded index** is indexed by the texts of its records. -/
theorem rebuilt_documented (hkeyed : m.Keyed) (hcap : 0 < cap) (t t' : SystemTime) :
    (rebuilt cap m.config m.nextId (m.dumpAt t t')).Documented cap := by
  have hstart : (rebuildStart m.config m.nextId).Documented cap :=
    (documented_new (reconfig m.config m.nextId) cap).congr rfl rfl fun _ => rfl
  rw [rebuilt_eq]
  refine loadedAll_documented hcap hstart ?_ fun _ _ => rfl
  rw [reparsed_ids]
  exact dumpAt_nodup hkeyed t t'

/-- A record is loaded without its vector. -/
theorem loadedAll_bare : ∀ {records : List (MemoryRecord × Option (List F32))} {m : Memory}, m.Bare →
    (loadedAll cap records m).Bare
  | [], _, h => h
  | (r, vector) :: records, m, h => by
    have hnone : (vector.filter fun values => m.config.mode.storesVectors &&
        decide (values.length = m.config.dim)) = none := by
      rw [Option.filter_eq_none_iff]
      simp [h.stores]
    have hone : (m.loaded r vector cap).Bare := by
      unfold Memory.loaded
      rw [hnone]
      exact h.withRecord (r := { r with slot := none }) rfl rfl rfl rfl rfl
    have hrest : (loadedAll cap records (m.loaded r vector cap)).Bare := loadedAll_bare hone
    exact hrest

theorem rebuilt_bare (h : m.Bare) (t t' : SystemTime) :
    (rebuilt cap m.config m.nextId (m.dumpAt t t')).Bare := by
  have hstart : (new (reconfig m.config m.nextId)).Bare := bare_new (by
    rw [reconfig_mode]
    exact h.stores)
  rw [rebuilt_eq]
  exact loadedAll_bare ⟨hstart.stores, hstart.keyed, hstart.slots, hstart.live⟩

theorem Bare.written (h : m.Bare) (hs : m.Sized) : m.Written where
  dim := hs.dim
  nextId := hs.nextId
  record id r hr := by
    refine ⟨hs.id id r hr, hs.text id r hr, (hs.metadata id r hr).2, (hs.metadata id r hr).1, ?_⟩
    intro values hv
    rw [h.vectorOf hr] at hv
    cases hv

/-- An index of a size that can exist is written as it can be read. -/
theorem Placed.written (h : m.Placed) (hs : m.Sized) : m.Written :=
  h.elim (fun h => h.written hs) fun h => h.written hs

theorem rebuilt_placed (h : m.Placed) (hs : m.Sized) (t t' : SystemTime) :
    (rebuilt cap m.config m.nextId (m.dumpAt t t')).Placed :=
  h.imp (fun h => rebuilt_slotted h hs t t') fun h => rebuilt_bare h t t'

/-- Every vector that fits is counted. -/
theorem loadedAll_live : ∀ {records : List (MemoryRecord × Option (List F32))} {m : Memory},
    (∀ p ∈ records, ∀ values, p.2 = some values → values.length = m.config.dim ∧
      m.config.mode.storesVectors = true) →
    (loadedAll cap records m).vectors.live = m.vectors.live + (records.filterMap Prod.snd).length
  | [], _, _ => rfl
  | (r, none) :: records, m, h =>
    loadedAll_live (m := m.loaded r none cap) fun q hq => h q (List.mem_cons_of_mem _ hq)
  | (r, some values) :: records, m, h => by
    obtain ⟨hlen, hstores⟩ := h (r, some values) List.mem_cons_self values rfl
    have hone : (m.loaded r (some values) cap).vectors.live = m.vectors.live + 1 := by
      unfold loaded
      rw [Option.filter_some_pos (by rw [hstores, decide_eq_true hlen]; rfl)]
    have hcount : ((r, some values) :: records).filterMap Prod.snd =
        values :: records.filterMap Prod.snd := rfl
    have hrest := loadedAll_live (m := m.loaded r (some values) cap)
      fun q hq => h q (List.mem_cons_of_mem _ hq)
    rw [hcount, List.length_cons]
    refine hrest.trans ?_
    omega

/-! ## What a copy is made of -/

/-- No record has expired. -/
def Unexpired (m : Memory) (t : SystemTime) : Prop :=
  ∀ id r, m.records.lookup id = some r → r.isLive t = true

/-- The index that a copy is, from two readings of the clock. -/
def copied (m : Memory) (t t' : SystemTime) : Memory :=
  (loadedAll u64Max (m.dumpAt t t') (new m.config)).setNextId m.nextId

theorem Bare.dumps (h : m.Bare) {t t' : SystemTime} : ∀ p ∈ m.dumpAt t t', p.2 = none := by
  intro p hp
  obtain ⟨id, hlook, hvec⟩ := mem_dumpAt_lookup hp
  exact hvec.trans (h.vectorOf hlook)

/-- **`clone`** loads what the index dumps into a new one. -/
theorem clone_spec (h : m.Placed) : Act.Sat clone e m w
    (fun copy m' _ => m' = m ∧ copy = m.copied (e.clock w.ticks) (e.clock (w.ticks + 1)))
    (fun _ => False) := by
  rcases h with h | h
  · exact Act.sat_mono (clone_slotted h) (fun _ _ _ hcopy => hcopy.2) (fun _ h => h)
  · unfold clone
    rw [Act.sat_bind]
    refine Act.sat_mono recordsForDump_spec ?_ (fun _ h => h.elim)
    rintro records m' w' ⟨rfl, rfl, -⟩
    have hnone : (m'.dumpAt (e.clock w.ticks) (e.clock (w.ticks + 1))).filterMap Prod.snd = [] :=
      List.filterMap_eq_nil_iff.mpr h.dumps
    rw [Act.sat_bind, Act.sat_get, Act.sat_zoom, Act.sat_bind]
    refine sat_loadAll (n := 0) (m := new m'.config) ⟨rfl, rfl, 0, Nat.le_refl 0, ?_⟩ ?_ ?_ ?_
    · simp [new]
    · intro p hp values hv
      rw [h.dumps p hp] at hv
      cases hv
    · rw [hnone]
      simp [new]
    · rw [Act.sat_bind, Act.sat_get, Act.sat_pure]
      exact ⟨rfl, rfl⟩

section copied

variable {t t' : SystemTime}

/-- A record but for its slot. -/
def unslotted (r : MemoryRecord) : MemoryRecord := { r with slot := none }

/-- A filter does not read the slot. -/
theorem accepts_unslotted (filter : Filter) (r : MemoryRecord) (t : SystemTime) :
    filter.accepts (unslotted r) t = filter.accepts r t := by
  have hread : ∀ field : Field, field.read (unslotted r) = field.read r := fun field => by
    cases field <;> rfl
  unfold Filter.accepts Clause.accepts
  simp only [hread]
  rfl

/-- **A copy has the same records**, where none has expired. -/
theorem lookup_copied (hkeyed : m.Keyed) (h : m.Unexpired t) (h' : m.Unexpired t') (id : Bytes) :
    ((m.copied t t').records.lookup id).map unslotted = (m.records.lookup id).map unslotted := by
  show ((loadedAll u64Max (m.dumpAt t t') (new m.config)).records.lookup id).map unslotted = _
  cases hr : m.records.lookup id with
  | some r =>
    have hid := hkeyed id r hr
    have hmem : (r, m.vectorOf r) ∈ m.dumpAt t t' :=
      (mem_dumpAt hkeyed).mpr ⟨by rw [hid]; exact hr, h id r hr, h' id r hr, rfl⟩
    obtain ⟨slot, hslot⟩ : ∃ slot, (loadedAll u64Max (m.dumpAt t t') (new m.config)).records.lookup r.id =
        some { r with slot := slot } := loadedAll_mem (dumpAt_nodup hkeyed t t') _ hmem
    rw [← hid, hslot]
    rfl
  | none =>
    have hout : id ∉ (m.dumpAt t t').map fun p => p.1.id := by
      intro hin
      obtain ⟨⟨r, v⟩, hmem, hid⟩ := List.mem_map.mp hin
      have hlook := ((mem_dumpAt hkeyed).mp hmem).1
      dsimp only at hid
      rw [hid, hr] at hlook
      cases hlook
    rw [loadedAll_notMem hout]
    rfl

theorem copied_documented (hkeyed : m.Keyed) : (m.copied t t').Documented u64Max :=
  (loadedAll_documented (by decide) (documented_new m.config u64Max) (dumpAt_nodup hkeyed t t')
    fun _ _ => rfl).congr rfl rfl fun _ => rfl

theorem copied_config (m : Memory) (t t' : SystemTime) : (m.copied t t').config = m.config :=
  (loadedAll_config (m.dumpAt t t') (new m.config)).1

/-- Where no record has expired a dump holds every vector. -/
theorem dumpAt_vectors_all (h : m.Slotted) (hlive : m.Unexpired t) (hlive' : m.Unexpired t') :
    ((m.dumpAt t t').filterMap Prod.snd).length = m.vectors.live := by
  obtain ⟨hnodup, hsub⟩ := dumpAt_pairs h.keyed t t'
  have hperm : ((m.dumpAt t t').map fun p => (p.1.id, p.1)).Perm m.records.pairs := by
    refine (List.perm_ext_iff_of_nodup hnodup m.records.nodup_pairs).mpr fun q => ⟨@hsub q, fun hq => ?_⟩
    have hlook : m.records.lookup q.1 = some q.2 := Assoc.mem_pairs.mp hq
    have hid := h.keyed q.1 q.2 hlook
    refine List.mem_map.mpr ⟨(q.2, m.vectorOf q.2), (mem_dumpAt h.keyed).mpr ?_, ?_⟩
    · exact ⟨by rw [hid]; exact hlook, hlive q.1 q.2 hlook, hlive' q.1 q.2 hlook, rfl⟩
    · exact Prod.ext hid rfl
  rw [dumpAt_vectorOf h.keyed, (hperm.filterMap _).length_eq, h.vectors_length]

/-- **A copy has as many vectors**, where no record has expired. -/
theorem copied_live (hplaced : m.Placed) (h : m.Unexpired t) (h' : m.Unexpired t') :
    (m.copied t t').vectors.live = m.vectors.live := by
  show (loadedAll u64Max (m.dumpAt t t') (new m.config)).vectors.live = _
  rcases hplaced with hslotted | hbare
  · have hload : ∀ p ∈ m.dumpAt t t', ∀ values, p.2 = some values →
        values.length = (new m.config).config.dim ∧ (new m.config).config.mode.storesVectors = true :=
      fun p hp values hv => ⟨(loadable_dumpAt (r := m) hslotted rfl rfl p hp).length values hv,
        hslotted.stores⟩
    rw [loadedAll_live hload, dumpAt_vectors_all hslotted h h']
    exact Nat.zero_add _
  · have hload : ∀ p ∈ m.dumpAt t t', ∀ values, p.2 = some values →
        values.length = (new m.config).config.dim ∧ (new m.config).config.mode.storesVectors = true := by
      intro p hp values hv
      rw [hbare.dumps p hp] at hv
      cases hv
    rw [loadedAll_live hload, List.filterMap_eq_nil_iff.mpr hbare.dumps, hbare.live]
    rfl

end copied

end Memory

end Klyro
