import Klyro.Persist.RecordTtl
import Klyro.Types.Memory.RunsAlike

/-!
# A memory index survives a restart

* `Item.saved`, `PlainIndex.Survives` — what a save and a load leave of the map an index stands for.
* `reparsed_eq`, `reconfig_eq` — a record and a configuration come back.
* `loadedAll_items` — records loaded one after another are the items of the map.
* `reload_survives` — a reload of an index, and `reloadsAlong` — of every index that a run gives.
-/

set_option autoImplicit false

namespace Klyro

open TextIndex
open Memory (wholeMillis MillisFit reparsed_of_fits)

/-- An item as a dump keeps it: instants to the millisecond, and the vector prepared once more. -/
def Item.saved (p : PlainIndex) (i : Item) : Item where
  record := { i.record with
    createdAt := wholeMillis i.record.createdAt
    updatedAt := wholeMillis i.record.updatedAt
    expireAt := i.record.expireAt.map wholeMillis }
  vector := i.vector.map p.prepare

/-- **What a save and a load leave**: the configuration, the counter and every record that was live at
both readings of the clock. -/
structure PlainIndex.Survives (p p' : PlainIndex) (t t' : SystemTime) : Prop where
  config : p'.config = p.config
  nextId : p'.nextId = Nat.max p.nextId 1
  items : ∀ id, p'.items.lookup id =
    ((p.items.lookup id).filter fun i => i.record.isLive t && i.record.isLive t').map (Item.saved p)

/-! ## Records -/

/-- The metadata are in order, and the importance is a fraction. -/
structure TidyRecord (r : MemoryRecord) : Prop where
  metadata : InOrder r.metadata
  importance : clampUnit r.importance = r.importance
  number : r.importance.isNan = false

/-- The milliseconds of its instants fit. -/
structure TimedRecord (r : MemoryRecord) : Prop where
  created : 0 ≤ r.createdAt ∧ r.createdAt / 1000000 ≤ i64Max
  updated : 0 ≤ r.updatedAt ∧ r.updatedAt / 1000000 ≤ i64Max
  expire : MillisFit r.expireAt

theorem clampUnit_idem (x : F32) : clampUnit (clampUnit x) = clampUnit x := by
  by_cases hlow : x.lt (SoftFloat.zero false) = true
  · have hzero : clampUnit x = SoftFloat.zero false := if_pos hlow
    rw [hzero]
    decide +kernel
  · by_cases hhigh : SoftFloat.lt (lit "1") x = true
    · have hone : clampUnit x = lit "1" := (if_neg hlow).trans (if_pos hhigh)
      rw [hone]
      decide +kernel
    · have hsame : clampUnit x = x := (if_neg hlow).trans (if_neg hhigh)
      rw [hsame, hsame]

theorem clampUnit_number {x : F32} (h : x.isNan = false) : (clampUnit x).isNan = false := by
  unfold clampUnit
  split
  · exact SoftFloat.isNan_zero false
  · split
    · exact below_one.nonneg.number
    · exact h

theorem lastValue_eq {pairs : List (Bytes × Bytes)} (h : (pairs.map Prod.fst).Nodup) (field : Bytes) :
    MemoryRecord.lastValue pairs field = valueOf pairs field := by
  unfold MemoryRecord.lastValue
  refine Option.ext fun value => ?_
  rw [valueOf_eq_some, valueOf_eq_some h, List.mem_reverse]
  rwa [List.map_reverse, List.nodup_reverse]

/-- Metadata in order are set as they are. -/
theorem setMetaAll_inOrder {pairs : List (Bytes × Bytes)} (h : InOrder pairs) {r : MemoryRecord}
    (hr : r.metadata = []) : (MemoryRecord.setMetaAll pairs r).2 = { r with metadata := pairs } := by
  have hempty : InOrder r.metadata := hr ▸ List.Pairwise.nil
  obtain ⟨horder, hvalues⟩ := MemoryRecord.setMetaAll_spec pairs hempty
  rw [MemoryRecord.setMetaAll_eq]
  congr 1
  refine horder.ext h fun field => ?_
  rw [hvalues, hr, lastValue_eq h.nodup]
  cases valueOf pairs field <;> rfl

/-- An instant comes back to the millisecond. -/
theorem millis_back {t : SystemTime} (h : 0 ≤ t ∧ t / 1000000 ≤ i64Max) :
    i64Min ≤ unixMillis t ∧ unixMillis t ≤ i64Max ∧ fromUnixMillis (unixMillis t) = wholeMillis t := by
  have hmillis : unixMillis t = t / 1000000 := unixMillis_eq h.1 h.2
  have hnonneg : 0 ≤ t / 1000000 := Int.ediv_nonneg h.1 (by decide)
  rw [hmillis]
  refine ⟨le_trans (by decide) hnonneg, h.2, ?_⟩
  · unfold fromUnixMillis fromMillis wholeMillis nanosPerMilli
    push_cast
    rw [Int.toNat_of_nonneg hnonneg]

/-- **A record comes back** as it was saved. -/
theorem reparsed_eq {r : MemoryRecord} (h : TidyRecord r) (ht : TimedRecord r) (v : Option (List F32)) :
    reparsed (r, v) = { r with
      createdAt := wholeMillis r.createdAt
      updatedAt := wholeMillis r.updatedAt
      expireAt := r.expireAt.map wholeMillis
      slot := none } := by
  obtain ⟨hcmin, hcmax, hcreated⟩ := millis_back ht.created
  obtain ⟨humin, humax, hupdated⟩ := millis_back ht.updated
  have hexpire : (reparsed (r, v)).expireAt = r.expireAt.map wholeMillis := reparsed_of_fits ht.expire
  unfold reparsed at hexpire ⊢
  rw [setMetaAll_inOrder h.metadata rfl] at hexpire ⊢
  have hexpire : (parseRecord r.id r.text (Payload.recordWords r v)).expireAt = _ := hexpire
  have hparsed : parseRecord r.id r.text (Payload.recordWords r v) = { MemoryRecord.new r.id r.text
      (wholeMillis r.createdAt) with
        updatedAt := wholeMillis r.updatedAt
        importance := r.importance
        expireAt := (parseRecord r.id r.text (Payload.recordWords r v)).expireAt } := by
    unfold parseRecord Payload.recordWords
    simp only [List.getD_cons_zero, List.getD_cons_succ, Text.parseInt_showInt ⟨hcmin, hcmax⟩,
      Text.parseInt_showInt ⟨humin, humax⟩, SoftFloat.parse_display h.number, Option.getD_some, hcreated,
      hupdated, h.importance]
  dsimp only at hparsed ⊢
  rw [hparsed, hexpire]
  rfl

/-! ## Configurations -/

/-- A configuration a dump keeps. -/
structure KeptConfig (config : MemoryConfig) : Prop where
  dim : config.dim ≤ u64Max
  plain : config.mode.storesVectors = false → config.dim = 0
  weights : config.weights.isValid = true
  halfLife : ∃ seconds, seconds ≤ u64Max ∧ config.halfLife = fromSecs seconds

/-- **A configuration comes back.** -/
theorem reconfig_eq {config : MemoryConfig} (h : KeptConfig config) (nextId : Nat) :
    reconfig config nextId = config := by
  have hmode : Mode.parse (Text.utf8 config.mode.name.toList) = some config.mode := by
    cases config.mode <;> decide
  have hmetric : Metric.parse (Text.utf8 config.metric.name.toList) = some config.metric := by
    cases config.metric <;> decide
  have hvalid := h.weights
  unfold Weights.isValid at hvalid
  simp only [List.all_cons, List.all_nil, Bool.and_eq_true, Bool.and_true] at hvalid
  obtain ⟨⟨hk, -⟩, ⟨hv, -⟩, ⟨hr, -⟩, hi, -⟩ := hvalid
  obtain ⟨seconds, hseconds, hhalf⟩ := h.halfLife
  have hdiv : config.halfLife / nanosPerSec = seconds := by
    rw [hhalf]
    exact Nat.mul_div_cancel _ (by decide)
  have hc := parseConfig_words config nextId
  unfold parseConfig Payload.configWords at hc
  simp only [List.getD_cons_zero, List.getD_cons_succ, hmode, hmetric, Text.parseNat_toDigits h.dim,
    Option.getD_some, SoftFloat.parse_display (SoftFloat.isFinite_iff.mp hk).1,
    SoftFloat.parse_display (SoftFloat.isFinite_iff.mp hv).1,
    SoftFloat.parse_display (SoftFloat.isFinite_iff.mp hr).1,
    SoftFloat.parse_display (SoftFloat.isFinite_iff.mp hi).1, hdiv, Text.parseNat_toDigits hseconds] at hc
  rw [← Option.some.inj hc]
  have hweights : (⟨config.weights.keyword, config.weights.vector, config.weights.recency,
    config.weights.importance⟩ : Weights) = config.weights := rfl
  rw [hweights, if_pos h.weights, ← hhalf]
  unfold MemoryConfig.new
  dsimp only
  split
  · rfl
  · rename_i hstores
    rw [← h.plain (Bool.eq_false_iff.mpr hstores)]

/-! ## What the operations keep -/

namespace Memory

variable {m m' : Memory} {e : Env} {w : World} {cap : Nat} {id : Bytes} {t t' : SystemTime}
  {config : MemoryConfig}

/-- The configuration is that one, and every record is tidy. -/
structure Tidy (config : MemoryConfig) (m : Memory) : Prop where
  same : m.config = config
  metric : m.vectors.metric = config.metric
  records : ∀ id r, m.records.lookup id = some r → TidyRecord r

/-- Every record is timed, and the sizes are those that can exist. -/
structure Savable (m : Memory) : Prop where
  sized : m.Sized
  timed : ∀ id r, m.records.lookup id = some r → TimedRecord r

theorem tidy_new (config : MemoryConfig) : (Memory.new config).Tidy config where
  same := rfl
  metric := rfl
  records id r h := by cases h

/-- An addition leaves a tidy record. -/
theorem tidy_applied {request : AddRequest} {base : MemoryRecord}
    (himportance : ∀ x, request.importance = some x → x.isNan = false) (h : TidyRecord base) :
    TidyRecord (applied request t base) := by
  refine ⟨(MemoryRecord.setMetaAll_spec _ h.metadata).1, ?_, ?_⟩
  · show clampUnit ((request.importance.map clampUnit).getD base.importance) =
      (request.importance.map clampUnit).getD base.importance
    cases request.importance with
    | none => exact h.importance
    | some x => exact clampUnit_idem x
  · show SoftFloat.isNan ((request.importance.map clampUnit).getD base.importance) = false
    cases hx : request.importance with
    | none => exact h.number
    | some x => exact clampUnit_number (himportance x hx)

theorem tidy_new_record (id text : Bytes) (t : SystemTime) : TidyRecord (MemoryRecord.new id text t) :=
  ⟨List.Pairwise.nil, by show clampUnit (lit "0.5") = lit "0.5"; decide +kernel, below_half.nonneg.number⟩

/-- One record is put in the place of another. -/
theorem Tidy.insert (h : m.Tidy config) {r : MemoryRecord} (hr : TidyRecord r)
    (hconfig : m'.config = m.config) (hmetric : m'.vectors.metric = m.vectors.metric)
    (hrecords : m'.records = m.records.insert id r) : m'.Tidy config where
  same := hconfig.trans h.same
  metric := hmetric.trans h.metric
  records id' r' hr' := by
    rw [hrecords, Assoc.lookup_insert_eq] at hr'
    split at hr'
    · cases hr'
      exact hr
    · exact h.records id' r' hr'

theorem keptBy_tidy (e : Env) (cap : Nat) (config : MemoryConfig) : KeptBy e cap
    (fun request => ∀ x, request.importance = some x → x.isNan = false) (Tidy config) where
  add := by
    intro m w request maxRecords hrequest h
    refine Act.sat_mono (add_files m request cap maxRecords) ?_ (fun _ _ => trivial)
    rintro result m' w' ⟨-, ⟨error, -, -, rfl⟩ | ⟨-, -, r, hadded⟩⟩
    · rw [numbered_eq]
      exact ⟨h.same, h.metric, h.records⟩
    · refine h.insert ?_ hadded.config hadded.metric hadded.records
      have hbase : TidyRecord (m.addBase request (m.addedId request) (e.clock w.ticks)) := by
        unfold addBase
        cases hr : m.records.lookup (m.addedId request) with
        | none => exact tidy_new_record _ _ _
        | some r => exact ⟨(h.records _ r hr).metadata, (h.records _ r hr).importance, (h.records _ r hr).number⟩
      obtain ⟨hmeta, himportance, hnumber⟩ : TidyRecord (m.added request (m.addedId request) _) := by
        rw [added_eq]
        exact tidy_applied hrequest hbase
      rw [hadded.record]
      exact ⟨hmeta, himportance, hnumber⟩
  del := by
    intro m id h
    unfold del
    cases hr : m.records.lookup id with
    | none => exact h
    | some r =>
      refine ⟨h.same, ?_, fun id' r' hr' => ?_⟩
      · dsimp only
        cases r.slot with
        | none => exact h.metric
        | some slot => exact (VectorIndex.remove_get m.vectors slot).metric.trans h.metric
      · have hl : (m.records.erase id).lookup id' = some r' := hr'
        rw [Assoc.lookup_erase_eq] at hl
        split at hl
        · cases hl
        · exact h.records id' r' hl
  onLive := by
    intro α m w id f h hf
    refine sat_onLive (fun _ => h) fun r hr => Act.sat_mono (hf _ r _) ?_ (fun _ h => h)
    rintro p m' w' ⟨rfl, hretouched⟩
    have htidy := h.records id r (liveRecord_some hr).1
    refine h.insert ⟨hretouched.metadata htidy.metadata, ?_, ?_⟩ rfl rfl rfl
    · rw [hretouched.importance]
      exact htidy.importance
    · rw [hretouched.importance]
      exact htidy.number

/-! ## Records loaded one after another -/

/-- The item of a record that is loaded with its vector. -/
def loadedItem (m : Memory) (p : MemoryRecord × Option (List F32)) : Item where
  record := unslotted p.1
  vector := p.2.map m.plain.prepare

/-- A record with its vector is filed in an index with vectors. -/
theorem loaded_items_slotted (h : m.Slotted) (hmetric : m.vectors.metric = m.config.metric)
    {p : MemoryRecord × Option (List F32)} (hp : m.Loadable p) (hnew : m.records.lookup p.1.id = none)
    (hroom : 4 * (m.vectors.data.length + p.2.toList.length * m.config.dim) ≤ isizeMax) :
    (m.loaded p.1 p.2 cap).plain.items = m.plain.items.insert p.1.id (m.loadedItem p) := by
  cases hvec : p.2 with
  | none =>
    have hrecords : (m.loaded p.1 none cap).records =
        m.records.insert p.1.id { p.1 with slot := none } := rfl
    rw [plain_insert hrecords fun _ _ _ _ => rfl]
    unfold loadedItem
    rw [hvec]
    rfl
  | some values =>
    have hlen := hp.length values hvec
    have hplaced : ((some values).filter fun values =>
        m.config.mode.storesVectors && decide (values.length = m.config.dim)) = some values := by
      simp [Option.filter, h.stores, hlen]
    rw [hvec, Option.toList_some, List.length_singleton, Nat.one_mul, ← h.dim] at hroom
    have hheld := replaced_refl h p.1.id
    rw [slotAt, hnew, Option.bind_none] at hheld
    have hholds₀ : m.vectors.Holds (slotsOf (m.records.erase p.1.id)) := hheld.holds
    obtain ⟨-, hget, hothers⟩ := VectorIndex.append_holds hholds₀ (hlen.trans h.dim.symm) hroom rfl
    have hvectors : (m.loaded p.1 (some values) cap).vectors = { m.vectors with
        data := m.vectors.data ++ m.vectors.prepare values, live := m.vectors.live + 1 } := by
      unfold loaded
      rw [hplaced]
    have hrecords : (m.loaded p.1 (some values) cap).records = m.records.insert p.1.id
        { p.1 with slot := some (m.vectors.data.length / m.vectors.dim) } := by
      unfold loaded
      rw [hplaced]
      rfl
    have hkept : OthersKept m (m.loaded p.1 (some values) cap) p.1.id := by
      intro id' hne r hr
      unfold vectorOf
      rw [hvectors]
      cases hslot : r.slot with
      | none => rfl
      | some s =>
        refine hothers s (mem_slotsOf.mpr ⟨id', ?_⟩)
        unfold slotAt
        rw [Assoc.lookup_erase_eq, if_neg hne, hr]
        exact hslot
    rw [plain_insert hrecords hkept]
    have hvector : (m.loaded p.1 (some values) cap).vectorOf
        { p.1 with slot := some (m.vectors.data.length / m.vectors.dim) } =
          some (m.plain.prepare values) := by
      unfold vectorOf
      rw [Option.bind_some, hvectors, hget, VectorIndex.prepare, hmetric]
      rfl
    unfold item loadedItem
    rw [hvector, hvec]
    rfl

/-- A record without a vector is filed in an index without vectors. -/
theorem loaded_items_bare (h : m.Bare) {p : MemoryRecord × Option (List F32)} (hp : p.2 = none) :
    (m.loaded p.1 p.2 cap).plain.items = m.plain.items.insert p.1.id (m.loadedItem p) := by
  rw [hp]
  have hrecords : (m.loaded p.1 none cap).records =
      m.records.insert p.1.id { p.1 with slot := none } := rfl
  rw [plain_insert hrecords (h.othersKept _ _)]
  unfold loadedItem
  rw [hp]
  rfl

/-- **Records loaded one after another** are the items of the map, from what each of them is. -/
theorem loadedAll_items {P : Memory → List (MemoryRecord × Option (List F32)) → Prop}
    (hone : ∀ m p records, P m (p :: records) →
      (m.loaded p.1 p.2 cap).plain.items = m.plain.items.insert p.1.id (m.loadedItem p) ∧
        P (m.loaded p.1 p.2 cap) records) :
    ∀ {records : List (MemoryRecord × Option (List F32))} {m : Memory}, P m records →
      (records.map fun p => p.1.id).Nodup →
      (∀ p ∈ records, (loadedAll cap records m).plain.items.lookup p.1.id = some (m.loadedItem p)) ∧
        ∀ id, id ∉ records.map (fun p => p.1.id) →
          (loadedAll cap records m).plain.items.lookup id = m.plain.items.lookup id
  | [], _, _, _ => ⟨fun _ hp => (by cases hp), fun _ _ => rfl⟩
  | q :: records, m, h, hn => by
    rw [List.map_cons, List.nodup_cons] at hn
    obtain ⟨hitems, hnext⟩ := hone m q records h
    obtain ⟨hin, hout⟩ := loadedAll_items hone hnext hn.2
    have hstep : loadedAll cap (q :: records) m = loadedAll cap records (m.loaded q.1 q.2 cap) := rfl
    rw [hstep]
    refine ⟨fun p hp => ?_, fun id hid => ?_⟩
    · rcases List.mem_cons.mp hp with rfl | hp
      · rw [hout _ hn.1, hitems, Assoc.lookup_insert_eq, if_pos rfl]
      · exact hin p hp
    · rw [List.map_cons, List.mem_cons, not_or] at hid
      rw [hout id hid.2, hitems, Assoc.lookup_insert_eq, if_neg hid.1]

/-- What may be loaded into an index with vectors. -/
structure LoadableAll (m : Memory) (records : List (MemoryRecord × Option (List F32))) : Prop where
  slotted : m.Slotted
  metric : m.vectors.metric = m.config.metric
  loadable : ∀ p ∈ records, m.Loadable p
  nodup : (records.map fun p => p.1.id).Nodup
  fresh : ∀ p ∈ records, m.records.lookup p.1.id = none
  room : 4 * (m.vectors.data.length + (records.filterMap Prod.snd).length * m.config.dim) ≤ isizeMax

theorem LoadableAll.step {p : MemoryRecord × Option (List F32)}
    {records : List (MemoryRecord × Option (List F32))} (h : m.LoadableAll (p :: records)) :
    (m.loaded p.1 p.2 cap).plain.items = m.plain.items.insert p.1.id (m.loadedItem p) ∧
      (m.loaded p.1 p.2 cap).LoadableAll records := by
  have hn := h.nodup
  rw [List.map_cons, List.nodup_cons] at hn
  have hsplit : ((p :: records).filterMap Prod.snd).length =
      p.2.toList.length + (records.filterMap Prod.snd).length := by
    rw [List.filterMap_cons]
    cases p.2 with
    | none => simp
    | some values => simp [Nat.add_comm]
  have hroom := h.room
  rw [hsplit, Nat.add_mul, ← Nat.add_assoc] at hroom
  have hfresh := h.fresh p List.mem_cons_self
  have hload := h.loadable p List.mem_cons_self
  obtain ⟨hslotted, hdata⟩ := loaded_slotted cap h.slotted hload hfresh (by omega)
  refine ⟨loaded_items_slotted h.slotted h.metric hload hfresh (by omega), hslotted, ?_, fun q hq => ?_,
    hn.2, fun q hq => ?_, ?_⟩
  · show (m.loaded p.1 p.2 cap).vectors.metric = m.config.metric
    rw [← h.metric]
    unfold loaded
    dsimp only
    split <;> rfl
  · obtain ⟨hlength, hfinite, hembedded⟩ := h.loadable q (List.mem_cons_of_mem _ hq)
    exact ⟨hlength, hfinite, hembedded⟩
  · have hne : q.1.id ≠ p.1.id := fun heq => hn.1 (List.mem_map.mpr ⟨q, hq, heq⟩)
    show (m.records.insert p.1.id _).lookup q.1.id = none
    rw [Assoc.lookup_insert_eq, if_neg hne]
    exact h.fresh q (List.mem_cons_of_mem _ hq)
  · rw [hdata]
    exact hroom

/-! ## Reloads -/

theorem dump_vectors (h : m.Placed) : ∀ p ∈ m.dumpAt t t', revector p.2 = p.2 := by
  intro p hp
  unfold revector
  cases hv : p.2 with
  | none => rfl
  | some values =>
    rcases h with hslotted | hbare
    · have hfinite := (loadable_dumpAt (r := m) hslotted rfl rfl p hp).finite values hv
      rw [Option.bind_some, parseLeF32_encode hfinite]
      rfl
    · rw [hbare.dumps p hp] at hv
      cases hv

theorem rebuildStart_nextId (config : MemoryConfig) {nextId : Nat} (h : nextId ≤ u64Max) :
    (rebuildStart config nextId).nextId = Nat.max nextId 1 := by
  show Nat.max ((Text.parseNat u64Max (Nat.toDigits 10 nextId)).getD 1) 1 = _
  rw [Text.parseNat_toDigits h, Option.getD_some]

/-- The items of an index that is rebuilt are those that were saved. -/
theorem rebuilt_items (h : m.Placed) (hs : m.Savable) (hconfig : KeptConfig config)
    (htidy : m.Tidy config) :
    (∀ p ∈ m.dumpAt t t', (rebuilt cap m.config m.nextId (m.dumpAt t t')).plain.items.lookup p.1.id =
      some (Item.saved m.plain (m.item p.1))) ∧
    ∀ id, id ∉ (m.dumpAt t t').map (fun p => p.1.id) →
      (rebuilt cap m.config m.nextId (m.dumpAt t t')).plain.items.lookup id = none := by
  have hsame : reconfig m.config m.nextId = m.config := by
    rw [htidy.same]
    exact reconfig_eq hconfig _
  have hids : ((m.dumpAt t t').map fun p => (reparsed p, revector p.2)).map (fun p => p.1.id) =
      (m.dumpAt t t').map fun p => p.1.id := reparsed_ids _
  have hnodup : (((m.dumpAt t t').map fun p => (reparsed p, revector p.2)).map fun p => p.1.id).Nodup := by
    rw [hids]
    exact dumpAt_nodup h.keyed t t'
  have hall : (∀ q ∈ (m.dumpAt t t').map fun p => (reparsed p, revector p.2),
        (rebuilt cap m.config m.nextId (m.dumpAt t t')).plain.items.lookup q.1.id =
          some ((rebuildStart m.config m.nextId).loadedItem q)) ∧
      ∀ id, id ∉ ((m.dumpAt t t').map fun p => (reparsed p, revector p.2)).map (fun p => p.1.id) →
        (rebuilt cap m.config m.nextId (m.dumpAt t t')).plain.items.lookup id = none := by
    rw [rebuilt_eq]
    rcases h with hslotted | hbare
    · have hpos : 0 < m.config.dim := hslotted.dim ▸ hslotted.holds.dim
      have hload : (rebuildStart m.config m.nextId).LoadableAll
          ((m.dumpAt t t').map fun p => (reparsed p, revector p.2)) := by
        refine ⟨?_, rfl, fun q hq => ?_, hnodup, fun _ _ => rfl, ?_⟩
        · refine Slotted.congr (slotted_new (reconfig m.config m.nextId) ?_ ?_) rfl rfl rfl
          · rw [hsame]
            exact hslotted.stores
          · rw [hsame]
            exact hpos
        · obtain ⟨p, hp, rfl⟩ := List.mem_map.mp hq
          have hloadable := loadable_dumpAt (r := rebuildStart m.config m.nextId) hslotted
            (congrArg MemoryConfig.dim hsame) (congrArg MemoryConfig.mode hsame) p hp
          have hvector := dump_vectors (.inl hslotted) p hp
          exact ⟨fun values hv => hloadable.length values (hvector ▸ hv),
            fun values hv => hloadable.finite values (hvector ▸ hv),
            fun hmode => (congrArg (· ≠ none) hvector).mpr (hloadable.embedded hmode)⟩
        · have hvectors : ((m.dumpAt t t').map fun p => (reparsed p, revector p.2)).filterMap Prod.snd =
              (m.dumpAt t t').filterMap Prod.snd := by
            rw [List.filterMap_map]
            exact List.filterMap_congr fun p hp => dump_vectors (.inl hslotted) p hp
          rw [hvectors]
          show 4 * (([] : List F32).length + _ * (reconfig m.config m.nextId).dim) ≤ isizeMax
          rw [List.length_nil, Nat.zero_add, hsame]
          exact dumpAt_room hslotted t t'
      exact loadedAll_items (fun _ _ _ hstep => hstep.step) hload hnodup
    · have hstart : (rebuildStart m.config m.nextId).Bare ∧
          ∀ q ∈ (m.dumpAt t t').map (fun p => (reparsed p, revector p.2)), q.2 = none := by
        refine ⟨?_, fun q hq => ?_⟩
        · have hnew : (new (reconfig m.config m.nextId)).Bare := bare_new (by rw [hsame]; exact hbare.stores)
          exact ⟨hnew.stores, hnew.keyed, hnew.slots, hnew.live⟩
        · obtain ⟨p, hp, rfl⟩ := List.mem_map.mp hq
          exact (dump_vectors (.inr hbare) p hp).trans (hbare.dumps p hp)
      refine loadedAll_items (P := fun n records => n.Bare ∧ ∀ q ∈ records, q.2 = none)
        (fun n q records hn => ⟨loaded_items_bare hn.1 (hn.2 q List.mem_cons_self), ?_, fun r hr =>
          hn.2 r (List.mem_cons_of_mem _ hr)⟩) hstart hnodup
      have hloaded : (loadedAll cap [q] n).Bare := loadedAll_bare hn.1
      exact hloaded
  refine ⟨fun p hp => ?_, fun id hid => hall.2 id (by rwa [hids])⟩
  have hitem := hall.1 (reparsed p, revector p.2) (List.mem_map_of_mem hp)
  obtain ⟨hlook, hvec⟩ := mem_dumpAt_keyed h.keyed hp
  rw [show (reparsed p, revector p.2).1.id = p.1.id from reparsed_id p] at hitem
  rw [hitem]
  unfold loadedItem Item.saved
  have hrecord := reparsed_eq (htidy.records _ _ hlook) (hs.timed _ _ hlook) p.2
  have hprepare : (rebuildStart m.config m.nextId).plain.prepare = m.plain.prepare := by
    funext values
    unfold PlainIndex.prepare
    rw [show (rebuildStart m.config m.nextId).plain.config = m.plain.config from hsame]
  rw [dump_vectors h p hp, hrecord, hprepare, hvec]
  rfl

theorem rebuilt_survives (h : m.Placed) (hs : m.Savable) (hconfig : KeptConfig config)
    (htidy : m.Tidy config) :
    m.plain.Survives (rebuilt cap m.config m.nextId (m.dumpAt t t')).plain t t' := by
  obtain ⟨hin, hout⟩ : (∀ p ∈ m.dumpAt t t', (rebuilt cap m.config m.nextId
      (m.dumpAt t t')).plain.items.lookup p.1.id = some (Item.saved m.plain (m.item p.1))) ∧ _ :=
    rebuilt_items h hs hconfig htidy
  refine ⟨?_, ?_, fun id => ?_⟩
  · show (rebuilt cap m.config m.nextId (m.dumpAt t t')).config = m.config
    rw [rebuilt_eq, (loadedAll_config _ _).1]
    show reconfig m.config m.nextId = m.config
    rw [htidy.same]
    exact reconfig_eq hconfig _
  · show (rebuilt cap m.config m.nextId (m.dumpAt t t')).nextId = _
    rw [rebuilt_eq, (loadedAll_config _ _).2, rebuildStart_nextId _ hs.sized.nextId]
    rfl
  · rw [plain_lookup m]
    cases hr : m.records.lookup id with
    | none =>
      refine hout id fun hmem => ?_
      obtain ⟨p, hp, rfl⟩ := List.mem_map.mp hmem
      rw [(mem_dumpAt_keyed h.keyed hp).1] at hr
      cases hr
    | some r =>
      have hid := h.keyed id r hr
      by_cases hlive : (r.isLive t && r.isLive t') = true
      · have hmem : (r, m.vectorOf r) ∈ m.dumpAt t t' := by
          rw [Bool.and_eq_true] at hlive
          exact (mem_dumpAt h.keyed).mpr ⟨by rw [hid]; exact hr, hlive.1, hlive.2, rfl⟩
        have hitem := hin _ hmem
        rw [hid] at hitem
        have hkept : Option.filter (fun i : Item => i.record.isLive t && i.record.isLive t')
            (some (m.item r)) = some (m.item r) := Option.filter_some_pos hlive
        rw [hitem, Option.map_some, hkept]
        rfl
      · have hdropped : Option.filter (fun i : Item => i.record.isLive t && i.record.isLive t')
            (some (m.item r)) = none := Option.filter_some_neg (Bool.eq_false_iff.mpr hlive)
        rw [Option.map_some, hdropped]
        refine hout id fun hmem => hlive ?_
        obtain ⟨p, hp, hpid⟩ := List.mem_map.mp hmem
        have hpid : p.1.id = id := hpid
        obtain ⟨hlook, hl, hl', -⟩ := (mem_dumpAt h.keyed).mp hp
        rw [hpid, hr, Option.some.injEq] at hlook
        rw [hlook, hl, hl']
        rfl

/-- **A reload** leaves an index that stands for the map that was saved. -/
theorem reload_survives (hcap : 0 < cap) (h : m.Plainly cap) (hs : m.Savable) (hconfig : KeptConfig config)
    (htidy : m.Tidy config) :
    Act.Sat (reload cap) e m w (fun result m' _ => m' = m ∧ ∃ loaded, result = some loaded ∧
      loaded.Plainly cap ∧ m.plain.Survives loaded.plain (e.clock w.ticks) (e.clock (w.ticks + 1)))
      (· = .capacity) := by
  refine Act.sat_mono (sat_reload (h.placed.written hs.sized) cap) ?_ (fun _ hp => hp)
  rintro _ m' w' ⟨rfl, rfl, -⟩
  have hsurvives : m'.plain.Survives (rebuilt cap m'.config m'.nextId
      (m'.dumpAt (e.clock w.ticks) (e.clock (w.ticks + 1)))).plain _ _ :=
    rebuilt_survives h.placed hs hconfig htidy
  refine ⟨rfl, _, rfl, ⟨rebuilt_placed h.placed hs.sized _ _,
    rebuilt_documented h.placed.keyed hcap _ _, ?_⟩, hsurvives⟩
  have hmetric : ∀ (records : List (MemoryRecord × Option (List F32))) (n : Memory),
      (loadedAll cap records n).vectors.metric = n.vectors.metric := by
    intro records
    induction records with
    | nil => exact fun _ => rfl
    | cons p records ih =>
      intro n
      refine (ih (n.loaded p.1 p.2 cap)).trans ?_
      unfold loaded
      dsimp only
      split <;> rfl
  rw [rebuilt_eq, hmetric, (loadedAll_config _ _).1]
  rfl

/-- What survives is tidy. -/
theorem Tidy.survives (h : m.Tidy config) (hmetric : m'.vectors.metric = m'.config.metric)
    (hs : m.plain.Survives m'.plain t t') : m'.Tidy config where
  same := hs.config.trans h.same
  metric := hmetric.trans (congrArg MemoryConfig.metric (hs.config.trans h.same))
  records id r' hr' := by
    have hitem := hs.items id
    rw [plain_lookup, plain_lookup, hr', Option.map_some] at hitem
    obtain ⟨i, hi, heq⟩ := Option.map_eq_some_iff.mp hitem.symm
    obtain ⟨r, hr, rfl⟩ := Option.map_eq_some_iff.mp (Option.filter_eq_some_iff.mp hi).1
    obtain ⟨hmeta, himportance, hnumber⟩ := h.records id r hr
    have hrecord := congrArg Item.record heq
    have hsame : r'.metadata = r.metadata ∧ r'.importance = r.importance :=
      ⟨(congrArg MemoryRecord.metadata hrecord :).symm, (congrArg MemoryRecord.importance hrecord :).symm⟩
    exact ⟨hsame.1 ▸ hmeta, by rw [hsame.2]; exact himportance, by rw [hsame.2]; exact hnumber⟩

end Memory

/-! ## Runs -/

variable {e : Env} {s : IndexState} {w : World} {config : MemoryConfig}

/-- The importance of a request is a number. -/
def LifeOp.Weighed : LifeOp → Prop
  | .index (.add request _) => ∀ x, request.importance = some x → x.isNan = false
  | _ => True

/-- A save and a load leave an index that stands for the map that was saved, and every later run of calls
on it is answered as by that map. -/
def ReloadsAt (e : Env) (s : IndexState) (w : World) : Prop :=
  s.memory.Savable → Act.Sat (Memory.reload s.cap) e s.memory w (fun result m' w' =>
    m' = s.memory ∧ ∃ loaded, result = some loaded ∧
      s.memory.plain.Survives loaded.plain (e.clock w.ticks) (e.clock (w.ticks + 1)) ∧
      ∀ calls : List IndexCall, Grows e.ln → (∀ call ∈ calls, call.Parsed) →
        RunsAlike e s.cap calls loaded w') (· = .capacity)

/-- They do in every state of a run. -/
def ReloadsAlong (e : Env) : List LifeOp → IndexState → World → Prop
  | [], s, w => ReloadsAt e s w
  | op :: ops, s, w => ReloadsAt e s w ∧ ((op = .reload → s.memory.Savable) →
    Act.Sat op.exec e s w (fun _ s' w' => s'.cap = s.cap ∧ ReloadsAlong e ops s' w') (fun _ => True))

theorem reloadsAt (hcap : 0 < s.cap) (h : s.memory.Plainly s.cap) (hconfig : KeptConfig config)
    (htidy : s.memory.Tidy config) : ReloadsAt e s w := by
  intro hs
  refine Act.sat_mono (Memory.reload_survives hcap h hs hconfig htidy) ?_ (fun _ hp => hp)
  rintro result m' w' ⟨rfl, loaded, rfl, hplainly, hsurvives⟩
  exact ⟨rfl, loaded, rfl, hsurvives, fun calls hln hparsed => run_alike hcap hln hplainly hparsed⟩

/-- **One step** keeps what a reload needs. -/
theorem exec_tidy (op : LifeOp) (hcap : 0 < s.cap) (h : s.memory.Plainly s.cap) (hconfig : KeptConfig config)
    (htidy : s.memory.Tidy config) (hop : op.OneCap) (hparsed : op.Parsed) (hweighed : op.Weighed)
    (hs : op = .reload → s.memory.Savable) :
    Act.Sat op.exec e s w (fun _ s' _ => s'.cap = s.cap ∧ s'.memory.Plainly s.cap ∧
      s'.memory.Tidy config) (fun _ => True) := by
  cases op with
  | reload =>
    unfold LifeOp.exec onIndex
    rw [Act.sat_bind, Act.sat_get, Act.sat_bind, Act.sat_zoom]
    refine Act.sat_mono (Memory.reload_survives hcap h (hs rfl) hconfig htidy) ?_ (fun _ _ => trivial)
    rintro _ m' w' ⟨rfl, loaded, rfl, hplainly, hsurvives⟩
    exact ⟨rfl, hplainly, htidy.survives hplainly.metric hsurvives⟩
  | index op =>
    have hplaced := exec_placed (e := e) (w := w) (.index op) hcap h.documented h.placed hop hparsed
      (fun heq => by cases heq)
    have htidies := (Memory.keptBy_tidy e s.cap config).exec (w := w) htidy hop
      fun request maxRecords heq => by
        rw [heq] at hweighed
        exact hweighed
    refine Act.sat_mono (Act.sat_and hplaced htidies) ?_ (fun _ _ => trivial)
    rintro _ s' w' ⟨⟨hsame, hdoc, hplaced'⟩, -, htidy'⟩
    refine ⟨hsame, ⟨hplaced', hdoc, ?_⟩, htidy'⟩
    rw [htidy'.same]
    exact htidy'.metric

theorem run_reloads (hconfig : KeptConfig config) : ∀ {ops : List LifeOp} {s : IndexState} {w : World},
    0 < s.cap → s.memory.Plainly s.cap → s.memory.Tidy config →
    (∀ op ∈ ops, op.OneCap ∧ op.Parsed ∧ op.Weighed) → ReloadsAlong e ops s w
  | [], _, _, hcap, h, htidy, _ => reloadsAt hcap h hconfig htidy
  | op :: ops, s, w, hcap, h, htidy, hops => by
    refine ⟨reloadsAt hcap h hconfig htidy, fun hs => ?_⟩
    obtain ⟨hop, hparsed, hweighed⟩ := hops op List.mem_cons_self
    refine Act.sat_mono (exec_tidy op hcap h hconfig htidy hop hparsed hweighed hs) ?_ (fun _ hp => hp)
    rintro _ s' w' ⟨hsame, h', htidy'⟩
    rw [← hsame] at hcap h'
    exact ⟨hsame, run_reloads hconfig hcap h' htidy' fun op' hop' => hops op' (List.mem_cons_of_mem _ hop')⟩

/-- **A memory index survives a restart**: in every state of a run a save and a load leave the map it
stands for. -/
theorem reloadsAlong (e : Env) (w : World) (mode : Mode) (dim : Nat) (metric : Metric)
    (weights : Weights) (seconds : Nat) (hdim : mode.storesVectors = true → 1 ≤ dim) (hmax : dim ≤ u64Max)
    (hvalid : weights.isValid = true) (hseconds : seconds ≤ u64Max) (cap : Nat) (hcap : 1 ≤ cap)
    (ops : List LifeOp) (hops : ∀ op ∈ ops, op.OneCap ∧ op.Parsed ∧ op.Weighed) :
    ReloadsAlong e ops ⟨Memory.new
      { MemoryConfig.new mode dim metric with weights := weights, halfLife := fromSecs seconds }, cap⟩
      w := by
  have hdims : (MemoryConfig.new mode dim metric).dim = if mode.storesVectors then dim else 0 := rfl
  have hkept : KeptConfig
      { MemoryConfig.new mode dim metric with weights := weights, halfLife := fromSecs seconds } := by
    refine ⟨?_, fun hstores => ?_, hvalid, seconds, hseconds, rfl⟩
    · show (MemoryConfig.new mode dim metric).dim ≤ u64Max
      rw [hdims]
      split
      · exact hmax
      · exact Nat.zero_le _
    · have hstores : mode.storesVectors = false := hstores
      show (MemoryConfig.new mode dim metric).dim = 0
      rw [hdims, hstores]
      rfl
  refine run_reloads hkept hcap ⟨Memory.placed_new fun hstores => ?_, Memory.documented_new _ cap, rfl⟩
    (Memory.tidy_new _) hops
  have hstores : mode.storesVectors = true := hstores
  show 0 < (MemoryConfig.new mode dim metric).dim
  rw [hdims, if_pos hstores]
  exact hdim hstores

/-- A record with a vector is added, and the index is saved and loaded. -/
theorem reloadsAlong_one : ReloadsAlong (stillEnv 0) [addUnit, .reload] ⟨Memory.new
    { MemoryConfig.new .vector 2 .l2 with weights := Weights.default, halfLife := fromSecs 60 }, 10⟩ {} := by
  have hunit : addUnit.OneCap ∧ addUnit.Parsed ∧ addUnit.Weighed := by
    refine ⟨trivial, fun values hv => ?_, fun x hx => by cases hx⟩
    cases hv
    exact ⟨[0, 0, 128, 63, 0, 0, 0, 0], by decide⟩
  refine reloadsAlong (stillEnv 0) {} .vector 2 .l2 Weights.default 60 (by decide) (by decide)
    (by decide +kernel) (by decide) 10 (by decide) _ ?_
  exact List.forall_mem_cons.mpr ⟨hunit, List.forall_mem_cons.mpr
    ⟨⟨trivial, trivial, trivial⟩, List.forall_mem_nil _⟩⟩

end Klyro
