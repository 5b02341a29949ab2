import Klyro.Types.Memory.Added
import Klyro.Types.Memory.Normalized

/-!
# Records and their slots

Every vector of an index belongs to one record: the slots the records hold and the free slots are
all the slots there are.

* `Slotted` — that, with what the operations need to keep it.
* `RecordKept` — a record and its vector are as they were.
* `add_slotted`, `delAll_slotted`, `sweepExpired_slotted`, `onLive_slotted` — the operations keep
  `Slotted`, and touch the records they are about only.
-/

set_option autoImplicit false

namespace Klyro

namespace Memory

variable {e : Env} {w : World} {m m' : Memory} {id : Bytes} {t : SystemTime} {cap : Nat}

/-! ## Slots of records -/

/-- The slots the records hold. -/
def slotsOf (records : Assoc Bytes MemoryRecord) : List Nat :=
  records.pairs.filterMap fun p => p.2.slot

/-- The slot of the record with an id. -/
def slotAt (records : Assoc Bytes MemoryRecord) (id : Bytes) : Option Nat :=
  (records.lookup id).bind MemoryRecord.slot

variable {records : Assoc Bytes MemoryRecord} {s : Nat}

theorem mem_slotsOf : s ∈ slotsOf records ↔ ∃ id, slotAt records id = some s := by
  unfold slotsOf slotAt
  rw [List.mem_filterMap]
  constructor
  · rintro ⟨⟨id, r⟩, hp, hs⟩
    exact ⟨id, by rw [Assoc.mem_pairs.mp hp]; exact hs⟩
  · rintro ⟨id, hs⟩
    obtain ⟨r, hr, hslot⟩ := Option.bind_eq_some_iff.mp hs
    exact ⟨(id, r), Assoc.mem_pairs.mpr hr, hslot⟩

/-- One record's slot comes first. -/
theorem slotsOf_perm (records : Assoc Bytes MemoryRecord) (id : Bytes) :
    (slotsOf records).Perm ((slotAt records id).toList ++ slotsOf (records.erase id)) := by
  unfold slotsOf slotAt
  cases hr : records.lookup id with
  | none =>
    have hsame : (Assoc.pairs (records.erase id)).Perm records.pairs := by
      refine (List.perm_ext_iff_of_nodup (Assoc.nodup_pairs _) (Assoc.nodup_pairs _)).mpr ?_
      rintro ⟨id', r⟩
      rw [Assoc.mem_pairs, Assoc.mem_pairs, Assoc.lookup_erase_eq]
      by_cases hid : id' = id
      · rw [if_pos hid, hid, hr]
      · rw [if_neg hid]
    exact (hsame.filterMap _).symm
  | some r =>
    refine ((Assoc.pairs_perm_erase hr).filterMap _).trans ?_
    rw [List.filterMap_cons, Option.bind_some]
    cases r.slot <;> exact List.Perm.refl _

theorem slotsOf_insert (records : Assoc Bytes MemoryRecord) (id : Bytes) (r : MemoryRecord) :
    (slotsOf (records.insert id r)).Perm (r.slot.toList ++ slotsOf (records.erase id)) := by
  unfold slotsOf
  refine ((Assoc.pairs_perm_insert id r records).filterMap _).trans ?_
  rw [List.filterMap_cons]
  cases r.slot <;> exact List.Perm.refl _

/-- A slot is held once. -/
theorem slotAt_inj (h : (slotsOf records).Nodup) {id id' : Bytes} (hs : slotAt records id = some s)
    (hs' : slotAt records id' = some s) : id = id' := by
  by_contra hne
  have hrest : s ∈ slotsOf (records.erase id) := by
    refine mem_slotsOf.mpr ⟨id', ?_⟩
    unfold slotAt at hs' ⊢
    rwa [Assoc.lookup_erase_eq, if_neg (Ne.symm hne)]
  have hperm := (slotsOf_perm records id).nodup_iff.mp h
  rw [hs, Option.toList_some, List.singleton_append, List.nodup_cons] at hperm
  exact hperm.1 hrest

/-! ## The invariant -/

/-- The slots of the records and the free slots are all there are, each once; in `VECTOR` mode every
record has one; every vector is finite. -/
structure Slotted (m : Memory) : Prop where
  stores : m.config.mode.storesVectors = true
  dim : m.vectors.dim = m.config.dim
  keyed : m.Keyed
  holds : m.vectors.Holds (slotsOf m.records)
  embedded : m.config.mode = .vector → ∀ id r, m.records.lookup id = some r → r.slot ≠ none
  finite : ∀ id r, m.records.lookup id = some r → ∀ values, m.vectorOf r = some values → AllFinite values

/-- The record `id` is as it was, and so is its vector. -/
structure RecordKept (m m' : Memory) (id : Bytes) : Prop where
  record : m'.records.lookup id = m.records.lookup id
  vector : ∀ r, m.records.lookup id = some r → m'.vectorOf r = m.vectorOf r

theorem RecordKept.refl (m : Memory) (id : Bytes) : RecordKept m m id := ⟨rfl, fun _ _ => rfl⟩

theorem RecordKept.trans {m'' : Memory} (h : RecordKept m m' id) (h' : RecordKept m' m'' id) :
    RecordKept m m'' id where
  record := h'.record.trans h.record
  vector r hr := (h'.vector r (h.record.trans hr)).trans (h.vector r hr)

theorem Slotted.slot_nodup (h : m.Slotted) : (slotsOf m.records).Nodup :=
  (List.nodup_append.mp h.holds.nodup).1

theorem slotAt_of_lookup {r : MemoryRecord} (hr : records.lookup id = some r) :
    slotAt records id = r.slot := by
  unfold slotAt
  rw [hr, Option.bind_some]

/-- Of a record with a slot the vector is there, and of the right length. -/
theorem Slotted.vectorOf_slot (h : m.Slotted) {r : MemoryRecord} (hr : m.records.lookup id = some r)
    (hslot : r.slot = some s) : ∃ values, m.vectorOf r = some values ∧ values.length = m.config.dim := by
  have hmem : s ∈ slotsOf m.records := mem_slotsOf.mpr ⟨id, (slotAt_of_lookup hr).trans hslot⟩
  have hfit := h.holds.fits (List.mem_append_left _ hmem)
  refine ⟨window m.vectors.data (s * m.vectors.dim) m.vectors.dim, ?_, ?_⟩
  · unfold vectorOf
    rw [hslot, Option.bind_some, VectorIndex.get_eq_window, if_pos hfit]
  · unfold window
    rw [List.length_take, List.length_drop, ← h.dim]
    omega

/-- Only the records, the texts and the counter differ from an index that keeps its slots. -/
theorem Slotted.congr (h : m.Slotted) (hconfig : m'.config = m.config) (hvectors : m'.vectors = m.vectors)
    (hrecords : m'.records = m.records) : m'.Slotted where
  stores := by rw [hconfig]; exact h.stores
  dim := by rw [hvectors, hconfig]; exact h.dim
  keyed := by
    unfold Keyed
    rw [hrecords]
    exact h.keyed
  holds := by rw [hvectors, hrecords]; exact h.holds
  embedded := by rw [hconfig, hrecords]; exact h.embedded
  finite := by
    unfold vectorOf
    rw [hrecords, hvectors]
    exact h.finite

theorem slotted_new (config : MemoryConfig) (hstores : config.mode.storesVectors = true)
    (hdim : 0 < config.dim) : (new config).Slotted where
  stores := hstores
  dim := rfl
  keyed id r hr := by cases hr
  holds := VectorIndex.holds_new hdim config.metric
  embedded _ id r hr := by cases hr
  finite id r hr := by cases hr

/-- What an addition or a removal leaves, when it has given the record `id` the slot `slot`. -/
structure Replaced (m : Memory) (v : VectorIndex) (id : Bytes) (slot : Option Nat) : Prop where
  dim : v.dim = m.vectors.dim
  holds : v.Holds (slot.toList ++ slotsOf (m.records.erase id))
  others : ∀ s ∈ slotsOf (m.records.erase id), v.get s = m.vectors.get s

theorem Replaced.untouched {v : VectorIndex} {slot : Option Nat} (h : Replaced m v id slot) {id' : Bytes}
    (hne : id' ≠ id) {r : MemoryRecord} (hr : m.records.lookup id' = some r) :
    r.slot.bind v.get = r.slot.bind m.vectors.get := by
  cases hslot : r.slot with
  | none => rfl
  | some s =>
    rw [Option.bind_some, Option.bind_some]
    refine h.others s (mem_slotsOf.mpr ⟨id', ?_⟩)
    unfold slotAt
    rw [Assoc.lookup_erase_eq, if_neg hne, hr]
    exact hslot

/-- A record is filed. -/
theorem Slotted.file (h : m.Slotted) {v : VectorIndex} {r : MemoryRecord} (hv : Replaced m v id r.slot)
    (hid : r.id = id) (hembedded : m.config.mode = .vector → r.slot ≠ none)
    (hfinite : ∀ values, r.slot.bind v.get = some values → AllFinite values)
    (hconfig : m'.config = m.config) (hvectors : m'.vectors = v)
    (hrecords : m'.records = m.records.insert id r) :
    m'.Slotted ∧ ∀ id', id' ≠ id → RecordKept m m' id' := by
  have hlookup : ∀ id', m'.records.lookup id' = if id' = id then some r else m.records.lookup id' := by
    intro id'
    rw [hrecords, Assoc.lookup_insert_eq]
  have huntouched : ∀ id', id' ≠ id → RecordKept m m' id' := by
    intro id' hne
    refine ⟨by rw [hlookup, if_neg hne], fun r' hr' => ?_⟩
    unfold vectorOf
    rw [hvectors]
    exact hv.untouched hne hr'
  refine ⟨⟨?_, ?_, ?_, ?_, ?_, ?_⟩, huntouched⟩
  · rw [hconfig]
    exact h.stores
  · rw [hvectors, hconfig, hv.dim]
    exact h.dim
  · intro id' r' hr'
    rw [hlookup] at hr'
    split at hr'
    · cases hr'
      rw [hid]
      exact (‹id' = id›).symm
    · exact h.keyed id' r' hr'
  · rw [hvectors, hrecords]
    exact hv.holds.perm (slotsOf_insert m.records id r).symm
  · intro hmode id' r' hr'
    rw [hconfig] at hmode
    rw [hlookup] at hr'
    split at hr'
    · cases hr'
      exact hembedded hmode
    · exact h.embedded hmode id' r' hr'
  · intro id' r' hr' values hvalues
    by_cases hne : id' = id
    · rw [hlookup, if_pos hne] at hr'
      cases hr'
      unfold vectorOf at hvalues
      rw [hvectors] at hvalues
      exact hfinite values hvalues
    · have hr'' := hr'
      rw [hlookup, if_neg hne] at hr''
      rw [(huntouched id' hne).vector r' hr''] at hvalues
      exact h.finite id' r' hr'' values hvalues

/-! ## Additions -/

theorem replaced_refl (h : m.Slotted) (id : Bytes) : Replaced m m.vectors id (slotAt m.records id) where
  dim := rfl
  holds := h.holds.perm (slotsOf_perm m.records id)
  others _ _ := rfl

theorem prepare_finite (v : VectorIndex) {values : List F32} (h : AllFinite values) :
    AllFinite (v.prepare values) := by
  unfold VectorIndex.prepare
  split
  · exact normalized_finite h
  · exact h

/-- **Placing a vector** gives the record a slot of its own, or writes to the one it has. -/
theorem placeVector_slots (h : m.Slotted) {r : MemoryRecord} (hr : r.slot = slotAt m.records id)
    (vector : Option (List F32)) (hlen : ∀ values, vector = some values → values.length = m.vectors.dim) :
    Act.Sat (placeVector r vector) e m w (fun r' m' _ => Replaced m m'.vectors id r'.slot ∧
      (vector ≠ none ∨ r.slot ≠ none → r'.slot ≠ none) ∧ (vector = none → r' = r ∧ m' = m) ∧
        ∀ values, vector = some values → m'.vectorOf r' = some (m.vectors.prepare values))
      (· = .capacity) := by
  have hheld := replaced_refl h id
  unfold placeVector
  cases vector with
  | none =>
    refine ⟨by rw [hr]; exact hheld, ?_, fun _ => ⟨rfl, rfl⟩, fun values hv => by cases hv⟩
    rintro (hv | hs)
    · exact absurd rfl hv
    · exact hs
  | some values =>
    dsimp only
    have hlen' := hlen values rfl
    cases hslot : r.slot with
    | some slot =>
      rw [← hr, hslot] at hheld
      have hholds₀ : m.vectors.Holds (slot :: slotsOf (m.records.erase id)) := hheld.holds
      dsimp only
      unfold onVectors
      rw [Act.sat_bind, Act.sat_zoom]
      refine Act.sat_mono (VectorIndex.overwrite_holds hholds₀ List.mem_cons_self hlen') ?_
        (fun _ h => h.elim)
      rintro _ v' w' ⟨-, hholds, honly, hget⟩
      have hapart : ∀ s ∈ slotsOf (m.records.erase id), s ≠ slot := by
        rintro s hs rfl
        have hnodup := (List.nodup_append.mp hholds₀.nodup).1
        rw [List.nodup_cons] at hnodup
        exact hnodup.1 hs
      refine ⟨⟨honly.dim, hholds, fun s hs => honly.others s (hapart s hs)⟩, fun _ => by simp, ?_, ?_⟩
      · intro hv
        cases hv
      · intro values' hv
        cases hv
        exact hget
    | none =>
      rw [← hr, hslot] at hheld
      have hholds₀ : m.vectors.Holds (slotsOf (m.records.erase id)) := hheld.holds
      dsimp only
      unfold onVectors
      rw [Act.sat_bind, Act.sat_zoom]
      refine Act.sat_mono (VectorIndex.insert_holds hholds₀ hlen') ?_ (fun _ h => h)
      rintro slot v' w' ⟨-, hholds, hdim, -, hget, hothers⟩
      refine ⟨⟨hdim, hholds, hothers⟩, fun _ => by simp, ?_, ?_⟩
      · intro hv
        cases hv
      · intro values' hv
        cases hv
        exact hget

theorem added_slot (m : Memory) (request : AddRequest) (id : Bytes) (t : SystemTime) :
    (m.added request id t).slot = slotAt m.records id := by
  rw [added_eq]
  unfold applied addBase slotAt
  cases m.records.lookup id <;> rfl

theorem added_id (h : m.Keyed) (request : AddRequest) (id : Bytes) (t : SystemTime) :
    (m.added request id t).id = id := by
  obtain ⟨hid, -⟩ := addedRecord_same h request id t
  unfold added
  cases request.ttl <;> exact hid

/-- A request that passes its checks has a vector of the right length, or finds a record with a slot
where there must be one. -/
theorem addRefusal_none (h : m.Slotted) {request : AddRequest} {maxRecords : Nat}
    (href : m.addRefusal request id t maxRecords = none) :
    (∀ values, request.vector = some values → values.length = m.vectors.dim) ∧
      (m.config.mode = .vector → request.vector ≠ none ∨ slotAt m.records id ≠ none) := by
  unfold addRefusal at href
  simp only at href
  split at href
  · cases href
  · split at href
    · cases href
    · cases hv : request.vector with
      | some values =>
        rw [hv, h.stores] at href
        refine ⟨fun values' h' => ?_, fun _ => .inl (by simp)⟩
        cases h'
        have hvalid : m.vectors.validate values = none := by simpa using href
        unfold VectorIndex.validate at hvalid
        by_contra hlen
        rw [if_pos hlen] at hvalid
        cases hvalid
      | none =>
        rw [hv] at href
        refine ⟨fun values' h' => (by cases h'), fun hmode => .inr ?_⟩
        have hlive : (m.liveRecord id t).isSome = true := by
          by_contra hnone
          rw [Option.not_isSome_iff_eq_none] at hnone
          simp [hmode, hnone] at href
        obtain ⟨r, hr⟩ := Option.isSome_iff_exists.mp hlive
        have hlookup := (liveRecord_some hr).1
        rw [slotAt_of_lookup hlookup]
        exact h.embedded hmode id r hlookup

/-- **An addition** touches the record it is about only. -/
theorem add_slotted (h : m.Slotted) (request : AddRequest) (maxRecords : Nat)
    (hfinite : ∀ values, request.vector = some values → AllFinite values) :
    Act.Sat (add request cap maxRecords) e m w
      (fun _ m' _ => m'.Slotted ∧ ∀ id, id ≠ m.addedId request → RecordKept m m' id)
      (fun p => p = .overflow ∨ p = .capacity) := by
  have hn : (m.numbered request).Slotted := by
    rw [numbered_eq]
    exact h.congr rfl rfl rfl
  have hsame : ∀ id, RecordKept m (m.numbered request) id := by
    intro id
    rw [numbered_eq]
    exact ⟨rfl, fun _ _ => rfl⟩
  refine sat_add (fun error _ => ⟨hn, fun id _ => hsame id⟩) fun href => ?_
  have href' : (m.numbered request).addRefusal request (m.addedId request) (e.clock w.ticks) maxRecords =
      none := by
    rw [numbered_eq]
    exact href
  generalize m.addedId request = id at href'
  generalize m.numbered request = n at hn hsame href'
  obtain ⟨hlen, hthere⟩ := addRefusal_none hn href'
  refine sat_addChecked (fun _ _ _ => .inl rfl) ?_
  refine Act.sat_mono (Act.sat_and (placeVector_slots hn (added_slot n request id (e.clock w.ticks))
    request.vector hlen) (placeVector_vector _ request.vector)) ?_ (fun _ h => .inr h.1)
  rintro r n' w' ⟨⟨hreplaced, hslot, hnone, hsome⟩, hr, hn', -, -, -⟩
  have hid : r.id = id := by
    rw [hr]
    exact added_id hn.keyed request id _
  have hfile : (n'.filed id ((n.records.lookup id).map MemoryRecord.text) r cap).Slotted ∧
      ∀ id', id' ≠ id →
        RecordKept n (n'.filed id ((n.records.lookup id).map MemoryRecord.text) r cap) id' := by
    refine hn.file hreplaced hid (fun hmode => hslot ?_) ?_ ?_ rfl ?_
    · rw [added_slot]
      exact hthere hmode
    · intro values hvalues
      cases hv : request.vector with
      | some values' =>
        have hplaced := hsome values' hv
        unfold vectorOf at hplaced
        rw [hplaced] at hvalues
        cases hvalues
        exact prepare_finite _ (hfinite values' hv)
      | none =>
        obtain ⟨rfl, rfl⟩ := hnone hv
        rw [added_slot] at hvalues
        obtain ⟨s, hs, hget⟩ := Option.bind_eq_some_iff.mp hvalues
        obtain ⟨old, hold, hsold⟩ := Option.bind_eq_some_iff.mp hs
        refine hn.finite id old hold values ?_
        unfold vectorOf
        rw [hsold]
        exact hget
    · rw [hn']
      rfl
    · rw [hn']
      rfl
  exact ⟨hfile.1, fun id' hne => (hsame id').trans (hfile.2 id' hne)⟩

/-! ## Removals -/

/-- Without the record and its slot, the other records are as they were. -/
theorem Slotted.erase (h : m.Slotted) {v : VectorIndex} (hv : Replaced m v id none)
    (hconfig : m'.config = m.config) (hvectors : m'.vectors = v)
    (hrecords : m'.records = m.records.erase id) :
    m'.Slotted ∧ ∀ id', id' ≠ id → RecordKept m m' id' := by
  have hlookup : ∀ id', m'.records.lookup id' = if id' = id then none else m.records.lookup id' := by
    intro id'
    rw [hrecords, Assoc.lookup_erase_eq]
  have hother : ∀ id' r', m'.records.lookup id' = some r' → id' ≠ id ∧ m.records.lookup id' = some r' := by
    intro id' r' hr'
    rw [hlookup] at hr'
    split at hr'
    · cases hr'
    · exact ⟨‹_›, hr'⟩
  have huntouched : ∀ id', id' ≠ id → RecordKept m m' id' := by
    intro id' hne
    refine ⟨by rw [hlookup, if_neg hne], fun r' hr' => ?_⟩
    unfold vectorOf
    rw [hvectors]
    exact hv.untouched hne hr'
  refine ⟨⟨?_, ?_, ?_, ?_, ?_, ?_⟩, huntouched⟩
  · rw [hconfig]
    exact h.stores
  · rw [hvectors, hconfig, hv.dim]
    exact h.dim
  · intro id' r' hr'
    exact h.keyed id' r' (hother id' r' hr').2
  · rw [hvectors, hrecords]
    exact hv.holds
  · intro hmode id' r' hr'
    rw [hconfig] at hmode
    exact h.embedded hmode id' r' (hother id' r' hr').2
  · intro id' r' hr' values hvalues
    obtain ⟨hne, hr''⟩ := hother id' r' hr'
    rw [(huntouched id' hne).vector r' hr''] at hvalues
    exact h.finite id' r' hr'' values hvalues

/-- **A removal** frees the slot of its record and touches no other. -/
theorem del_slotted (cap : Nat) (h : m.Slotted) (id : Bytes) :
    (m.del id cap).2.Slotted ∧ ∀ id', id' ≠ id → RecordKept m (m.del id cap).2 id' := by
  unfold del
  cases hr : m.records.lookup id with
  | none => exact ⟨h, fun id' _ => .refl m id'⟩
  | some r =>
    dsimp only
    have hheld := replaced_refl h id
    rw [slotAt_of_lookup hr] at hheld
    refine h.erase ?_ rfl rfl rfl
    cases hslot : r.slot with
    | none =>
      rw [hslot] at hheld
      exact hheld
    | some slot =>
      rw [hslot] at hheld
      have hholds₀ : m.vectors.Holds (slot :: slotsOf (m.records.erase id)) := hheld.holds
      obtain ⟨hholds, -, honly⟩ := VectorIndex.remove_holds hholds₀
      have hnodup := (List.nodup_append.mp hholds₀.nodup).1
      rw [List.nodup_cons] at hnodup
      refine ⟨honly.dim, hholds, fun s hs => honly.others s ?_⟩
      rintro rfl
      exact hnodup.1 hs

/-- Many removals. -/
theorem delAll_slotted (cap : Nat) : ∀ (ids : List Bytes) {m : Memory}, m.Slotted →
    (delAll cap ids m).2.Slotted ∧ ∀ id, id ∉ ids → RecordKept m (delAll cap ids m).2 id
  | [], m, h => ⟨h, fun id _ => .refl m id⟩
  | id :: ids, m, h => by
    obtain ⟨hone, hsame⟩ := del_slotted cap h id
    obtain ⟨hrest, hsame'⟩ := delAll_slotted cap ids hone
    refine ⟨hrest, fun id' hid' => ?_⟩
    rw [List.mem_cons, not_or] at hid'
    exact (hsame id' hid'.1).trans (hsame' id' hid'.2)

/-- The sweep takes the slots of expired records only. -/
theorem sweepExpired_slotted (h : m.Slotted) : Act.Sat (sweepExpired cap) e m w
    (fun _ m' _ => m'.Slotted ∧ ∀ id r, m.records.lookup id = some r →
      r.isLive (e.clock w.ticks) = true → RecordKept m m' id) (fun _ => False) := by
  unfold sweepExpired
  simp only [Act.sat_bind, sat_now, Act.sat_get, Act.sat_set, Act.sat_pure]
  obtain ⟨hkept, hsame⟩ := delAll_slotted cap ((m.records.pairs.filter fun p =>
    !p.2.isLive (e.clock w.ticks)).map fun p => p.2.id) h
  refine ⟨hkept, fun id r hr hlive => hsame id ?_⟩
  rw [List.mem_map]
  rintro ⟨⟨id', r'⟩, hp, rfl⟩
  obtain ⟨hp, hdead⟩ := List.mem_filter.mp hp
  rw [Assoc.mem_pairs] at hp
  rw [show (id', r').2.id = id' from h.keyed id' r' hp, hp, Option.some.injEq] at hr
  subst hr
  simp [hlive] at hdead

/-- A change of one live record that keeps its id and its slot. -/
theorem onLive_slotted {α : Type} (h : m.Slotted)
    {f : SystemTime → MemoryRecord → Run Memory (α × MemoryRecord)}
    (hf : ∀ t r w, Act.Sat (f t r) e m w (fun p m' _ => m' = m ∧ p.2.id = r.id ∧ p.2.slot = r.slot)
      (fun p => p = .overflow ∨ p = .capacity)) :
    Act.Sat (onLive id f) e m w
      (fun _ m' _ => m'.Slotted ∧ ∀ id', id' ≠ id → RecordKept m m' id')
      (fun p => p = .overflow ∨ p = .capacity) := by
  refine sat_onLive (fun _ => ⟨h, fun id' _ => .refl m id'⟩) fun r hr => ?_
  have hlookup := (liveRecord_some hr).1
  refine Act.sat_mono (hf _ r _) ?_ (fun _ h => h)
  rintro ⟨a, r'⟩ m' w' ⟨rfl, hid, hslot⟩
  have hheld := replaced_refl h id
  rw [slotAt_of_lookup hlookup] at hheld
  change r'.id = r.id at hid
  change r'.slot = r.slot at hslot
  refine h.file (by rw [hslot]; exact hheld) (hid.trans (h.keyed id r hlookup)) ?_ ?_ rfl rfl rfl
  · intro hmode
    rw [hslot]
    exact h.embedded hmode id r hlookup
  · intro values hvalues
    rw [hslot] at hvalues
    exact h.finite id r hlookup values hvalues

end Memory

end Klyro
