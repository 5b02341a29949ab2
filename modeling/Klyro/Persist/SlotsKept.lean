import Klyro.Persist.Reload
import Klyro.Types.Memory.Slotted

/-!
# Slots over the life of an index

A copy and a reload give every record a new slot, in an array without free slots; the other
operations keep the slots they find.

* `Memory.SlotsOwned` — every slot is owned by one record or is free.
* `loadedAll_slotted` — records loaded one after another own their slots.
* `slotsAlong` — over every run the slots are owned, and an operation on one record changes no
  vector another one reads.
-/

set_option autoImplicit false

namespace Klyro

open DumpReader Store

namespace Memory

variable {m m' : Memory} {e : Env} {w : World} {cap : Nat} {id : Bytes} {t t' : SystemTime}

/-! ## Vectors, written and read -/

theorem f32Bits_lt (x : F32) : f32Bits x < 4294967296 := by
  have hmag : x.mag.val < 2147483648 := x.mag.isLt
  unfold f32Bits
  split <;> omega

theorem f32FromBits_bits (x : F32) : f32FromBits (f32Bits x) = x := by
  obtain ⟨neg, ⟨mag, hmag⟩⟩ := x
  have hmag' : mag < 2147483648 := hmag
  unfold f32FromBits f32Bits
  congr 1
  · cases neg with
    | false => exact decide_eq_false (by dsimp only; simp; omega)
    | true => exact decide_eq_true (by dsimp only; simp; omega)
  · apply Fin.ext
    cases neg <;> simp <;> omega

theorem f32FromLeBytes_toLeBytes (x : F32) : f32FromLeBytes (UInt8.ofNat (f32Bits x))
    (UInt8.ofNat (f32Bits x / 256)) (UInt8.ofNat (f32Bits x / 65536))
    (UInt8.ofNat (f32Bits x / 16777216)) = x := by
  have hlt := f32Bits_lt x
  have hbits : (UInt8.ofNat (f32Bits x)).toNat + 256 * (UInt8.ofNat (f32Bits x / 256)).toNat +
      65536 * (UInt8.ofNat (f32Bits x / 65536)).toNat +
      16777216 * (UInt8.ofNat (f32Bits x / 16777216)).toNat = f32Bits x := by
    simp only [UInt8.toNat_ofNat']
    omega
  unfold f32FromLeBytes
  rw [hbits, f32FromBits_bits]

/-- **A finite vector is read back as it was written.** -/
theorem parseLeF32_encode : ∀ {values : List F32}, AllFinite values →
    parseLeF32 (encodeLeF32 values) = .ok values
  | [], _ => rfl
  | x :: values, h => by
    have ih := parseLeF32_encode fun y hy => h y (List.mem_cons_of_mem _ hy)
    have hlen := length_encodeLeF32 values
    have hcons : encodeLeF32 (x :: values) = UInt8.ofNat (f32Bits x) :: UInt8.ofNat (f32Bits x / 256) ::
      UInt8.ofNat (f32Bits x / 65536) :: UInt8.ofNat (f32Bits x / 16777216) :: encodeLeF32 values := rfl
    have hwhole : ¬ (encodeLeF32 values).length % 4 ≠ 0 := by omega
    have hfinite : x.isFinite = true := h x List.mem_cons_self
    rw [hcons, parseLeF32, if_neg hwhole, f32FromLeBytes_toLeBytes]
    dsimp only
    rw [if_pos hfinite, ih]
    rfl

/-- What `parse_le_f32` gives is finite. -/
theorem parseLeF32_finite : ∀ {bs : Bytes} {values : List F32}, parseLeF32 bs = .ok values →
    AllFinite values
  | [], values, h => by
    cases h
    exact fun x hx => by cases hx
  | a :: b :: c :: d :: rest, values, h => by
    rw [parseLeF32] at h
    split at h
    · cases h
    · dsimp only at h
      split at h
      · rename_i hfinite
        cases hr : parseLeF32 rest with
        | error error =>
          rw [hr] at h
          cases h
        | ok values' =>
          rw [hr] at h
          cases h
          intro x hx
          rcases List.mem_cons.mp hx with rfl | hx
          · exact hfinite
          · exact parseLeF32_finite hr x hx
      · cases h
  | [_], _, h => by cases h
  | [_, _], _, h => by cases h
  | [_, _, _], _, h => by cases h

/-! ## Records loaded one after another -/

/-- An index may take a record that is loaded. -/
structure Loadable (m : Memory) (p : MemoryRecord × Option (List F32)) : Prop where
  length : ∀ values, p.2 = some values → values.length = m.config.dim
  finite : ∀ values, p.2 = some values → AllFinite values
  embedded : m.config.mode = .vector → p.2 ≠ none

/-- **A record that is loaded** under a new id owns its slot. -/
theorem loaded_slotted (cap : Nat) (h : m.Slotted) {p : MemoryRecord × Option (List F32)}
    (hp : m.Loadable p) (hnew : m.records.lookup p.1.id = none)
    (hroom : 4 * (m.vectors.data.length + (p.2.toList.length) * m.config.dim) ≤ isizeMax) :
    (m.loaded p.1 p.2 cap).Slotted ∧ (m.loaded p.1 p.2 cap).vectors.data.length =
      m.vectors.data.length + p.2.toList.length * m.config.dim := by
  have hheld := replaced_refl h p.1.id
  have hnone : slotAt m.records p.1.id = none := by
    unfold slotAt
    rw [hnew, Option.bind_none]
  rw [hnone] at hheld
  cases hvec : p.2 with
  | none =>
    have hfile : (m.loaded p.1 none cap).Slotted ∧ ∀ id', id' ≠ p.1.id →
        RecordKept m (m.loaded p.1 none cap) id' :=
      h.file (r := { p.1 with slot := none }) hheld rfl (fun hmode => absurd hvec (hp.embedded hmode))
        (fun values hv => by cases hv) rfl rfl rfl
    exact ⟨hfile.1, by simp [loaded]⟩
  | some values =>
    have hlen := hp.length values hvec
    have hplaced : ((some values).filter fun values =>
        m.config.mode.storesVectors && decide (values.length = m.config.dim)) = some values := by
      simp [Option.filter, h.stores, hlen]
    have hdim : values.length = m.vectors.dim := hlen.trans h.dim.symm
    rw [hvec, Option.toList_some, List.length_singleton, Nat.one_mul, ← h.dim] at hroom
    have hholds₀ : m.vectors.Holds (slotsOf (m.records.erase p.1.id)) := hheld.holds
    obtain ⟨hholds, hget, hothers⟩ := VectorIndex.append_holds hholds₀ hdim hroom rfl
    have hloaded : m.loaded p.1 (some values) cap = { m with
        text := if m.config.mode.indexesText then m.text.index p.1.id none p.1.text cap else m.text
        vectors := { m.vectors with
          data := m.vectors.data ++ m.vectors.prepare values, live := m.vectors.live + 1 }
        records := m.records.insert p.1.id
          { p.1 with slot := some (m.vectors.data.length / m.vectors.dim) } } := by
      unfold loaded
      rw [hplaced]
      rfl
    have hreplaced : Replaced m { m.vectors with
        data := m.vectors.data ++ m.vectors.prepare values, live := m.vectors.live + 1 } p.1.id
        (some (m.vectors.data.length / m.vectors.dim)) := ⟨rfl, hholds, hothers⟩
    obtain ⟨hkept, -⟩ : (m.loaded p.1 (some values) cap).Slotted ∧ ∀ id', id' ≠ p.1.id →
        RecordKept m (m.loaded p.1 (some values) cap) id' := by
      refine h.file (r := { p.1 with slot := some (m.vectors.data.length / m.vectors.dim) }) hreplaced rfl
        (fun _ => by simp) ?_ rfl (by rw [hloaded]) (by rw [hloaded])
      intro values' hv
      rw [Option.bind_some, hget] at hv
      cases hv
      exact prepare_finite _ (hp.finite values hvec)
    exact ⟨hkept, by rw [hloaded]; simp [VectorIndex.length_prepare, hlen]⟩

/-- **Records loaded one after another** own their slots. -/
theorem loadedAll_slotted : ∀ {records : List (MemoryRecord × Option (List F32))} {m : Memory},
    m.Slotted → (∀ p ∈ records, m.Loadable p) → (records.map fun p => p.1.id).Nodup →
    (∀ p ∈ records, m.records.lookup p.1.id = none) →
    4 * (m.vectors.data.length + (records.filterMap Prod.snd).length * m.config.dim) ≤ isizeMax →
    (loadedAll cap records m).Slotted
  | [], _, h, _, _, _, _ => h
  | p :: records, m, h, hload, hn, hnew, hroom => by
    rw [List.map_cons, List.nodup_cons] at hn
    have hsplit : ((p :: records).filterMap Prod.snd).length =
        p.2.toList.length + (records.filterMap Prod.snd).length := by
      rw [List.filterMap_cons]
      cases p.2 with
      | none => simp
      | some values => simp [Nat.add_comm]
    rw [hsplit, Nat.add_mul, ← Nat.add_assoc] at hroom
    obtain ⟨hone, hdata⟩ := loaded_slotted cap h (hload p List.mem_cons_self)
      (hnew p List.mem_cons_self) (by omega)
    show (loadedAll cap records (m.loaded p.1 p.2 cap)).Slotted
    refine loadedAll_slotted hone (fun q hq => ?_) hn.2 (fun q hq => ?_) ?_
    · obtain ⟨hlength, hfinite, hembedded⟩ := hload q (List.mem_cons_of_mem _ hq)
      exact ⟨hlength, hfinite, hembedded⟩
    · obtain ⟨slot, hlookup⟩ : ∃ slot, ∀ id, (m.loaded p.1 p.2 cap).records.lookup id = _ :=
        lookup_loaded p.1 p.2
      have hne : q.1.id ≠ p.1.id := fun heq => hn.1 (List.mem_map.mpr ⟨q, hq, heq⟩)
      rw [hlookup, if_neg hne]
      exact hnew q (List.mem_cons_of_mem _ hq)
    · rw [hdata]
      exact hroom

/-! ## Copies and reloads -/

theorem reparsed_ids (records : List (MemoryRecord × Option (List F32))) :
    (records.map fun p => (reparsed p, revector p.2)).map (fun p => p.1.id) =
      records.map fun p => p.1.id := by
  rw [List.map_map]
  exact List.map_congr_left fun p _ => reparsed_id p

/-- Every slot in use has its vector. -/
theorem Slotted.vectors_length (h : m.Slotted) :
    (m.records.pairs.filterMap fun q => m.vectorOf q.2).length = m.vectors.live := by
  have hslots : (m.records.pairs.filterMap fun q => m.vectorOf q.2) =
      (slotsOf m.records).filterMap m.vectors.get := by
    unfold slotsOf
    rw [List.filterMap_filterMap]
    rfl
  rw [hslots, List.length_filterMap_eq_countP, h.holds.live, List.countP_eq_length]
  intro s hs
  rw [VectorIndex.get_eq_window, if_pos (h.holds.fits (List.mem_append_left _ hs))]
  rfl

theorem mem_dumpAt_keyed (hkeyed : m.Keyed) {p : MemoryRecord × Option (List F32)}
    (hp : p ∈ m.dumpAt t t') : m.records.lookup p.1.id = some p.1 ∧ p.2 = m.vectorOf p.1 := by
  obtain ⟨id, hlook, hvec⟩ := mem_dumpAt_lookup hp
  rw [hkeyed id p.1 hlook]
  exact ⟨hlook, hvec⟩

/-- The records of a dump, with their ids, are different pairs of the index. -/
theorem dumpAt_pairs (hkeyed : m.Keyed) (t t' : SystemTime) :
    ((m.dumpAt t t').map fun p => (p.1.id, p.1)).Nodup ∧
      ((m.dumpAt t t').map fun p => (p.1.id, p.1)) ⊆ m.records.pairs := by
  refine ⟨List.Nodup.of_map Prod.fst ?_, fun q hq => ?_⟩
  · rw [List.map_map]
    exact dumpAt_nodup hkeyed t t'
  · obtain ⟨p, hp, rfl⟩ := List.mem_map.mp hq
    exact Assoc.mem_pairs.mpr (mem_dumpAt_keyed hkeyed hp).1

theorem dumpAt_vectorOf (hkeyed : m.Keyed) (t t' : SystemTime) : (m.dumpAt t t').filterMap Prod.snd =
    ((m.dumpAt t t').map fun p => (p.1.id, p.1)).filterMap fun q => m.vectorOf q.2 := by
  rw [List.filterMap_map]
  exact List.filterMap_congr fun p hp => (mem_dumpAt_keyed hkeyed hp).2

/-- A dump holds no more vectors than the index has. -/
theorem dumpAt_vectors (h : m.Slotted) (t t' : SystemTime) :
    ((m.dumpAt t t').filterMap Prod.snd).length ≤ m.vectors.live := by
  obtain ⟨hnodup, hsub⟩ := dumpAt_pairs h.keyed t t'
  obtain ⟨l, hperm, hsublist⟩ := hnodup.subperm hsub
  calc ((m.dumpAt t t').filterMap Prod.snd).length
      = (l.filterMap fun q => m.vectorOf q.2).length := by
        rw [dumpAt_vectorOf h.keyed]
        exact ((hperm.filterMap _).length_eq).symm
    _ ≤ (m.records.pairs.filterMap fun q => m.vectorOf q.2).length := (hsublist.filterMap _).length_le
    _ = m.vectors.live := h.vectors_length

/-- What an index dumps may be loaded into another of its kind. -/
theorem loadable_dumpAt {r : Memory} (h : m.Slotted) (hdim : r.config.dim = m.config.dim)
    (hmode : r.config.mode = m.config.mode) :
    ∀ p ∈ m.dumpAt t t', r.Loadable p := by
  intro p hp
  obtain ⟨id, hlook, hvec⟩ := mem_dumpAt_lookup hp
  refine ⟨fun values hv => ?_, fun values hv => ?_, fun hvector hnone => ?_⟩
  · rw [hvec] at hv
    cases hslot : p.1.slot with
    | none =>
      unfold vectorOf at hv
      rw [hslot] at hv
      cases hv
    | some s =>
      obtain ⟨values', hv', hlen⟩ := h.vectorOf_slot hlook hslot
      rw [hv] at hv'
      cases hv'
      exact hlen.trans hdim.symm
  · rw [hvec] at hv
    exact h.finite id p.1 hlook values hv
  · rw [hmode] at hvector
    obtain ⟨s, hslot⟩ := Option.ne_none_iff_exists'.mp (h.embedded hvector id p.1 hlook)
    obtain ⟨values, hv, -⟩ := h.vectorOf_slot hlook hslot
    rw [hvec, hv] at hnone
    cases hnone

/-- The vectors of a dump fit an array of their own. -/
theorem dumpAt_room (h : m.Slotted) (t t' : SystemTime) :
    4 * (((m.dumpAt t t').filterMap Prod.snd).length * m.config.dim) ≤ isizeMax := by
  have hlen := dumpAt_vectors h t t'
  have hsize := h.holds.size
  have hroom := h.holds.room
  have hle : ((m.dumpAt t t').filterMap Prod.snd).length * m.config.dim ≤ m.vectors.data.length := by
    rw [hsize, ← h.dim, Nat.mul_comm m.vectors.dim]
    exact Nat.mul_le_mul_right _ (by omega)
  omega

/-- **Records loaded one after another** into an array that has room for their vectors. -/
theorem sat_loadAll {R : Panic → Prop} :
    ∀ {records : List (MemoryRecord × Option (List F32))} {m : Memory} {n : Nat} {w : World}
      {Q : Unit → Memory → World → Prop}, m.Appended n →
      (∀ p ∈ records, ∀ values, p.2 = some values → values ≠ [] ∧ values.length = m.config.dim ∧
        m.config.mode.storesVectors = true) →
      4 * (m.vectors.data.length + (records.filterMap Prod.snd).length * m.config.dim) ≤ isizeMax →
      Q () (loadedAll cap records m) w →
      Act.Sat (Act.forList (fun p => loadRecord p.1 p.2 cap) records) e m w Q R
  | [], _, _, _, _, _, _, _, hQ => hQ
  | (r, none) :: records, m, n, w, Q, hm, hvec, hroom, hQ => by
    rw [Act.forList, Act.sat_bind]
    unfold loadRecord
    simp only [Act.sat_bind, Act.sat_modify, Act.sat_get, Act.sat_pure]
    exact sat_loadAll (m := m.loaded r none cap) ⟨hm.free, hm.dim, hm.data⟩
      (fun q hq => hvec q (List.mem_cons_of_mem _ hq)) hroom hQ
  | (r, some values) :: records, m, n, w, Q, hm, hvec, hroom, hQ => by
    obtain ⟨hne, hlen, hstores⟩ := hvec (r, some values) List.mem_cons_self values rfl
    obtain ⟨k, -, hdata⟩ := hm.data
    have hcount : ((r, some values) :: records).filterMap Prod.snd =
        values :: records.filterMap Prod.snd := rfl
    rw [hcount, List.length_cons, Nat.add_one_mul (records.filterMap Prod.snd).length] at hroom
    have hlength : (m.loaded r (some values) cap).vectors.data.length =
        m.vectors.data.length + m.config.dim := by
      unfold loaded
      rw [Option.filter_some_pos (by rw [hstores, decide_eq_true hlen]; rfl)]
      show (m.vectors.data ++ m.vectors.prepare values).length = _
      rw [List.length_append, VectorIndex.length_prepare, hlen]
    rw [Act.forList, Act.sat_bind]
    refine loadRecord_appends (n := k) ⟨hm.free, hm.dim, k, le_rfl, hdata⟩ (fun values' hv => ?_)
      (.inr (.inr ?_))
      fun hm' => sat_loadAll hm' (fun q hq => hvec q (List.mem_cons_of_mem _ hq)) ?_ hQ
    · cases hv
      exact hne
    · rw [Nat.add_one_mul k, ← hdata]
      omega
    · rw [hlength, loaded_config]
      omega

/-- **A copy** is loaded from the records; it owns its slots. -/
theorem clone_slotted (h : m.Slotted) :
    Act.Sat clone e m w (fun copy m' _ => copy.Slotted ∧ m' = m ∧
        copy = (loadedAll u64Max (m.dumpAt (e.clock w.ticks) (e.clock (w.ticks + 1)))
          (new m.config)).setNextId m.nextId) (fun _ => False) := by
  have hpos : 0 < m.config.dim := h.dim ▸ h.holds.dim
  have hroom : 4 * ((new m.config).vectors.data.length + ((m.dumpAt (e.clock w.ticks)
      (e.clock (w.ticks + 1))).filterMap Prod.snd).length * (new m.config).config.dim) ≤ isizeMax := by
    show 4 * (([] : List F32).length + _ * m.config.dim) ≤ isizeMax
    rw [List.length_nil, Nat.zero_add]
    exact dumpAt_room h _ _
  unfold clone
  rw [Act.sat_bind]
  refine Act.sat_mono recordsForDump_spec ?_ (fun _ h => h.elim)
  rintro records m' w' ⟨rfl, rfl, -⟩
  rw [Act.sat_bind, Act.sat_get, Act.sat_zoom, Act.sat_bind]
  refine sat_loadAll (n := 0) (m := new m'.config) ⟨rfl, rfl, 0, Nat.le_refl 0, ?_⟩ ?_ hroom ?_
  · simp [new]
  · intro p hp values hv
    have hlen := (loadable_dumpAt (r := m') h rfl rfl p hp).length values hv
    refine ⟨fun hnil => ?_, hlen, h.stores⟩
    rw [hnil, List.length_nil] at hlen
    omega
  · rw [Act.sat_bind, Act.sat_get, Act.sat_pure]
    refine ⟨Slotted.congr (loadedAll_slotted (slotted_new _ h.stores hpos) ?_ ?_ ?_ hroom) rfl rfl rfl,
      rfl, rfl⟩
    · exact loadable_dumpAt h rfl rfl
    · exact dumpAt_nodup h.keyed _ _
    · exact fun _ _ => rfl

/-- The numbers and texts of an index are of sizes that can exist. -/
structure Sized (m : Memory) : Prop where
  dim : m.config.dim ≤ u64Max
  nextId : m.nextId ≤ u64Max
  id : ∀ id r, m.records.lookup id = some r → BlobFits r.id
  text : ∀ id r, m.records.lookup id = some r → BlobFits r.text
  metadata : ∀ id r, m.records.lookup id = some r → r.metadata.length ≤ u64Max ∧
    ∀ p ∈ r.metadata, BlobFits p.1 ∧ BlobFits p.2

theorem Slotted.written (h : m.Slotted) (hs : m.Sized) : m.Written where
  dim := hs.dim
  nextId := hs.nextId
  record id r hr := by
    refine ⟨hs.id id r hr, hs.text id r hr, (hs.metadata id r hr).2, (hs.metadata id r hr).1, ?_⟩
    intro values hv
    obtain ⟨s, hslot, hget⟩ := Option.bind_eq_some_iff.mp hv
    obtain ⟨values', hv', hlen⟩ := h.vectorOf_slot hr hslot
    obtain rfl : values = values' := by
      change m.vectorOf r = some values at hv
      rw [hv] at hv'
      exact Option.some.inj hv'
    have hpos := h.holds.dim
    have hfit := h.holds.fits (List.mem_append_left _
      (mem_slotsOf.mpr ⟨id, (slotAt_of_lookup hr).trans hslot⟩))
    have hroom := h.holds.room
    rw [h.dim] at hpos hfit
    refine ⟨by omega, ?_⟩
    unfold BlobFits
    rw [length_encodeLeF32]
    omega

/-- **A reload** owns its slots. -/
theorem rebuilt_slotted (h : m.Slotted) (hs : m.Sized) (t t' : SystemTime) :
    (rebuilt cap m.config m.nextId (m.dumpAt t t')).Slotted := by
  have hpos : 0 < m.config.dim := h.dim ▸ h.holds.dim
  have hdim : (reconfig m.config m.nextId).dim = m.config.dim := by
    rw [reconfig_dim m.config m.nextId hs.dim, if_pos h.stores]
  have hmode := reconfig_mode m.config m.nextId
  have hstart : (rebuildStart m.config m.nextId).Slotted := by
    refine Slotted.congr (slotted_new (reconfig m.config m.nextId) ?_ ?_) rfl rfl rfl
    · rw [hmode]
      exact h.stores
    · rw [hdim]
      exact hpos
  -- the vectors come back as they were
  have hsame : (m.dumpAt t t').map (fun p => (reparsed p, revector p.2)) =
      (m.dumpAt t t').map fun p => (reparsed p, p.2) := by
    refine List.map_congr_left fun p hp => ?_
    have hfinite := (loadable_dumpAt (r := m) h rfl rfl p hp).finite
    unfold revector
    cases hv : p.2 with
    | none => rfl
    | some values =>
      rw [Option.bind_some, parseLeF32_encode (hfinite values hv)]
      rfl
  rw [rebuilt_eq]
  refine loadedAll_slotted hstart ?_ ?_ (fun _ _ => rfl) ?_
  · rw [hsame]
    intro q hq
    obtain ⟨p, hp, rfl⟩ := List.mem_map.mp hq
    obtain ⟨hlength, hfinite, hembedded⟩ :=
      loadable_dumpAt (r := rebuildStart m.config m.nextId) h hdim hmode p hp
    exact ⟨hlength, hfinite, hembedded⟩
  · rw [reparsed_ids]
    exact dumpAt_nodup h.keyed t t'
  · have hvectors : ((m.dumpAt t t').map fun p => (reparsed p, p.2)).filterMap Prod.snd =
        (m.dumpAt t t').filterMap Prod.snd := by
      rw [List.filterMap_map]
      rfl
    rw [hsame, hvectors]
    show 4 * (([] : List F32).length + _ * (reconfig m.config m.nextId).dim) ≤ isizeMax
    rw [List.length_nil, Nat.zero_add, hdim]
    exact dumpAt_room h t t'

/-! ## Ownership -/

/-- Every slot is owned by one record or is free, the counts are right, and every access is within the
array. -/
structure SlotsOwned (m : Memory) : Prop where
  distinct : ∀ id id' r r' s, m.records.lookup id = some r → m.records.lookup id' = some r' →
    r.slot = some s → r'.slot = some s → id = id'
  taken : ∀ id r s, m.records.lookup id = some r → r.slot = some s → s ∉ m.vectors.free
  free : m.vectors.free.Nodup
  size : m.vectors.data.length = m.vectors.dim * (m.vectors.live + m.vectors.free.length)
  live : m.vectors.live = (m.records.pairs.filter fun p => p.2.slot.isSome).length
  embedded : m.config.mode = .vector → ∀ id r, m.records.lookup id = some r → r.slot ≠ none
  inRange : ∀ id r s, m.records.lookup id = some r → r.slot = some s →
    s * m.vectors.dim + m.vectors.dim ≤ m.vectors.data.length
  freeInRange : ∀ s ∈ m.vectors.free, s * m.vectors.dim + m.vectors.dim ≤ m.vectors.data.length
  positive : ∀ id r, m.records.lookup id = some r → r.slot ≠ none → 0 < m.vectors.live

theorem Slotted.owned (h : m.Slotted) : m.SlotsOwned := by
  have hheld : ∀ id r s, m.records.lookup id = some r → r.slot = some s → s ∈ slotsOf m.records :=
    fun id r s hr hs => mem_slotsOf.mpr ⟨id, (slotAt_of_lookup hr).trans hs⟩
  obtain ⟨-, hfree, hapart⟩ := List.nodup_append.mp h.holds.nodup
  refine ⟨?_, ?_, hfree, h.holds.size, ?_, h.embedded, ?_, ?_, ?_⟩
  · intro id id' r r' s hr hr' hs hs'
    exact slotAt_inj h.slot_nodup ((slotAt_of_lookup hr).trans hs) ((slotAt_of_lookup hr').trans hs')
  · intro id r s hr hs hmem
    exact hapart s (hheld id r s hr hs) s hmem rfl
  · rw [h.holds.live]
    unfold slotsOf
    rw [List.length_filterMap_eq_countP, List.countP_eq_length_filter]
  · intro id r s hr hs
    exact h.holds.fits (List.mem_append_left _ (hheld id r s hr hs))
  · intro s hs
    exact h.holds.fits (List.mem_append_right _ hs)
  · intro id r hr hs
    obtain ⟨s, hs⟩ := Option.ne_none_iff_exists'.mp hs
    rw [h.holds.live]
    exact List.length_pos_of_mem (hheld id r s hr hs)

end Memory

/-! ## Runs -/

variable {e : Env} {s : IndexState} {w : World}

/-- The vector of a request is one that `parse_le_f32` gave. -/
def LifeOp.Parsed : LifeOp → Prop
  | .index (.add request _) => ∀ values, request.vector = some values → ∃ bs, parseLeF32 bs = .ok values
  | _ => True

/-- The operation is about other records than `id`; a sweep is about the expired ones. -/
def LifeOp.Spares (e : Env) (s : IndexState) (w : World) (id : Bytes) : LifeOp → Prop
  | .index (.add request _) => id ≠ s.memory.addedId request
  | .index (.del ids) => id ∉ ids
  | .index .sweep => ∃ r, s.memory.records.lookup id = some r ∧ r.isLive (e.clock w.ticks) = true
  | .index (.setMeta id' _) => id ≠ id'
  | .index (.removeMeta id' _) => id ≠ id'
  | .index (.setTtl id' _) => id ≠ id'
  | .index (.setCap _) => True
  | .index .copy => False
  | .reload => False

/-- In every state of a run the slots are owned; no step touches a record it is not about, and none
panics but where a deadline is out of range or no array is that large. -/
def SlotsAlong (e : Env) : List LifeOp → IndexState → World → Prop
  | [], s, _ => s.memory.SlotsOwned
  | op :: ops, s, w => s.memory.SlotsOwned ∧ ((op = .reload → s.memory.Sized) →
    Act.Sat op.exec e s w
      (fun _ s' w' => (∀ id, op.Spares e s w id → Memory.RecordKept s.memory s'.memory id) ∧
        SlotsAlong e ops s' w')
      (fun p => p = .overflow ∨ p = .capacity))

/-- **One step** keeps the slots. -/
theorem exec_slotted (op : LifeOp) (h : s.memory.Slotted) (hparsed : op.Parsed)
    (hsized : op = .reload → s.memory.Sized) : Act.Sat op.exec e s w
      (fun _ s' _ => s'.memory.Slotted ∧
        ∀ id, op.Spares e s w id → Memory.RecordKept s.memory s'.memory id)
      (fun p => p = .overflow ∨ p = .capacity) := by
  have hlive : ∀ {α : Type} {id : Bytes} {f : SystemTime → MemoryRecord → Run Memory (α × MemoryRecord)},
      (∀ t r w, Act.Sat (f t r) e s.memory w
        (fun p m' _ => m' = s.memory ∧ p.2.id = r.id ∧ p.2.slot = r.slot)
        (fun p => p = .overflow ∨ p = .capacity)) →
      Act.Sat (do let _ ← onIndex (Memory.onLive id f)) e s w
        (fun _ s' _ => s'.memory.Slotted ∧ ∀ id', id' ≠ id → Memory.RecordKept s.memory s'.memory id')
        (fun p => p = .overflow ∨ p = .capacity) := by
    intro α id f hf
    unfold onIndex
    rw [Act.sat_bind, Act.sat_zoom]
    exact Memory.onLive_slotted h hf
  cases op with
  | reload =>
    unfold LifeOp.exec onIndex
    rw [Act.sat_bind, Act.sat_get, Act.sat_bind, Act.sat_zoom]
    refine Act.sat_mono (Memory.sat_reload (h.written (hsized rfl)) s.cap) ?_ (fun _ h => .inr h)
    rintro _ m' w' ⟨rfl, rfl, -⟩
    exact ⟨Memory.rebuilt_slotted h (hsized rfl) _ _, fun id hid => hid.elim⟩
  | index op =>
    cases op with
    | add request maxRecords =>
      unfold LifeOp.exec IndexOp.exec onIndex
      rw [Act.sat_bind, Act.sat_get, Act.sat_bind, Act.sat_zoom]
      refine Memory.add_slotted h request maxRecords fun values hv => ?_
      obtain ⟨bs, hbs⟩ := hparsed values hv
      exact Memory.parseLeF32_finite hbs
    | del ids => exact Memory.delAll_slotted _ ids h
    | sweep =>
      unfold LifeOp.exec IndexOp.exec onIndex
      rw [Act.sat_bind, Act.sat_get, Act.sat_bind, Act.sat_zoom]
      refine Act.sat_mono (Memory.sweepExpired_slotted h) ?_ (fun _ h => h.elim)
      rintro _ m' w' ⟨hkept, hsame⟩
      refine ⟨hkept, fun id hid => ?_⟩
      obtain ⟨r, hr, hlive⟩ := hid
      exact hsame id r hr hlive
    | copy =>
      unfold LifeOp.exec IndexOp.exec onIndex
      rw [Act.sat_bind, Act.sat_zoom]
      refine Act.sat_mono (Memory.clone_slotted h) ?_ (fun _ h => h.elim)
      rintro copy m' w' ⟨hcopy, -⟩
      exact ⟨hcopy, fun id hid => hid.elim⟩
    | setMeta id pairs =>
      refine hlive fun t r w => ⟨rfl, ?_, ?_⟩
      · dsimp only
        rw [MemoryRecord.setMetaAll_eq]
      · dsimp only
        rw [MemoryRecord.setMetaAll_eq]
    | removeMeta id fields =>
      refine hlive fun t r w => ⟨rfl, ?_, ?_⟩
      · dsimp only
        rw [MemoryRecord.removeMetaAll_eq]
      · dsimp only
        rw [MemoryRecord.removeMetaAll_eq]
    | setTtl id ttl =>
      refine hlive fun t r w => ?_
      cases ttl with
      | none => exact ⟨rfl, rfl, rfl⟩
      | some d =>
        simp only [addDuration, Act.sat_bind, Act.sat_ite, Act.sat_pure, Act.sat_panic]
        exact ⟨fun _ => ⟨trivial, trivial, trivial⟩, fun _ => .inl trivial⟩
    | setCap cap => exact ⟨h, fun id _ => .refl _ id⟩

/-- A run keeps them. -/
theorem run_slotted : ∀ {ops : List LifeOp} {s : IndexState} {w : World}, s.memory.Slotted →
    (∀ op ∈ ops, op.Parsed) → SlotsAlong e ops s w
  | [], _, _, h, _ => h.owned
  | op :: ops, s, w, h, hops => by
    refine ⟨h.owned, fun hsized => ?_⟩
    refine Act.sat_mono (exec_slotted op h (hops op List.mem_cons_self) hsized) ?_ (fun _ h => h)
    rintro _ s' w' ⟨hkept, hsame⟩
    exact ⟨hsame, run_slotted hkept fun op' hop' => hops op' (List.mem_cons_of_mem _ hop')⟩

/-- **Slots are owned** in every run on a new index with vectors, and an operation on one record
changes no vector another one reads. -/
theorem slotsAlong (e : Env) (w : World) (mode : Mode) (dim : Nat) (metric : Metric) (weights : Weights)
    (halfLife : Duration) (hdim : 1 ≤ (MemoryConfig.new mode dim metric).dim) (cap : Nat)
    (ops : List LifeOp) (hops : ∀ op ∈ ops, op.Parsed) :
    SlotsAlong e ops ⟨Memory.new
      { MemoryConfig.new mode dim metric with weights := weights, halfLife := halfLife }, cap⟩ w := by
  have hstores : mode.storesVectors = true := by
    by_contra hno
    unfold MemoryConfig.new at hdim
    rw [if_neg hno] at hdim
    exact absurd hdim (Nat.not_succ_le_zero 0)
  exact run_slotted (Memory.slotted_new _ hstores hdim) hops

/-- An addition of the vector `(1, 0)`. -/
def addUnit : LifeOp :=
  .index (.add { vector := some [f32FromLeBytes 0 0 128 63, f32FromLeBytes 0 0 0 0] } 0)

theorem slotsAlong_one : 1 ≤ (MemoryConfig.new .vector 2 .cosine).dim ∧
    SlotsAlong (stillEnv 0) [addUnit, .index .copy, .reload] ⟨Memory.new
      { MemoryConfig.new .vector 2 .cosine with weights := Weights.default, halfLife := 0 }, 10⟩ {} := by
  have hdim : 1 ≤ (MemoryConfig.new .vector 2 .cosine).dim := by decide
  refine ⟨hdim, slotsAlong (stillEnv 0) {} .vector 2 .cosine Weights.default 0 hdim 10 _ fun op hop => ?_⟩
  simp only [List.mem_cons, List.not_mem_nil, or_false] at hop
  rcases hop with rfl | rfl | rfl
  · intro values hv
    cases hv
    exact ⟨[0, 0, 128, 63, 0, 0, 0, 0], by decide⟩
  · trivial
  · trivial

end Klyro
