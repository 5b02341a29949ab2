import Klyro.Persist.LooksLike
import Klyro.Types.Memory.PlainIndex

/-!
# Every run of an index is one of the map it stands for

* `Memory.Plainly` — what an index has to be for that.
* `plain_insert`, `plain_erase` — a record is filed or taken out.
* `add_follows`, `del_follows`, `sweep_follows`, `onLive_follows` — the operations that write.
* `searchVector_follows`, `searchText_follows`, `query_follows` — the searches.
* `call_follows` — **one call** answers as on the map, and `runsAlike` — so does every run.
-/

set_option autoImplicit false

namespace Klyro

open TextIndex

namespace Memory

variable {m m' : Memory} {e : Env} {w : World} {cap : Nat} {id : Bytes} {t : SystemTime}

/-- Every slot is owned or free, and the texts are indexed under the cap. -/
structure Plainly (cap : Nat) (m : Memory) : Prop where
  placed : m.Placed
  documented : m.Documented cap
  metric : m.vectors.metric = m.config.metric

/-- A call panics where a deadline is out of range or no array is that large. -/
def Exhausted (p : Panic) : Prop := p = .overflow ∨ p = .capacity

/-! ## The map -/

/-- The vectors of the other records are as they were. -/
def OthersKept (m m' : Memory) (id : Bytes) : Prop :=
  ∀ id', id' ≠ id → ∀ r, m.records.lookup id' = some r → m'.vectorOf r = m.vectorOf r

theorem OthersKept.of_records (h : ∀ id', id' ≠ id → RecordKept m m' id') : OthersKept m m' id :=
  fun id' hne r hr => (h id' hne).vector r hr

theorem Bare.othersKept (h : m.Bare) (m' : Memory) (id : Bytes) : OthersKept m m' id := by
  intro id' _ r hr
  unfold Memory.vectorOf
  rw [h.slots id' r hr]
  rfl

/-- A record is filed. -/
theorem plain_insert {r : MemoryRecord} (hrecords : m'.records = m.records.insert id r)
    (hothers : OthersKept m m' id) : m'.plain.items = m.plain.items.insert id (m'.item r) := by
  unfold plain
  rw [hrecords]
  refine Assoc.mapValues_insert r fun id' hne r' hr' => ?_
  unfold item
  rw [hothers id' hne r' hr']

/-- A record is taken out. -/
theorem plain_erase (hrecords : m'.records = m.records.erase id) (hothers : OthersKept m m' id) :
    m'.plain.items = m.plain.items.erase id := by
  unfold plain
  rw [hrecords]
  refine Assoc.mapValues_erase fun id' hne r' hr' => ?_
  unfold item
  rw [hothers id' hne r' hr']

theorem plain_lookup (m : Memory) (id : Bytes) :
    m.plain.items.lookup id = (m.records.lookup id).map m.item := Assoc.lookup_mapValues _ _ _

theorem plain_pairs (m : Memory) :
    m.plain.items.pairs = m.records.pairs.map fun p => (p.1, m.item p.2) := Assoc.pairs_mapValues _ _

theorem plain_live (m : Memory) (id : Bytes) (t : SystemTime) :
    m.plain.live id t = (m.liveRecord id t).map m.item := by
  unfold PlainIndex.live liveRecord
  rw [plain_lookup, Option.filter_map]
  rfl

theorem plain_admits (m : Memory) (filter : Filter) (t : SystemTime) :
    m.plain.admits filter t = m.admits filter t := by
  funext id
  unfold PlainIndex.admits admits
  rw [plain_lookup, Option.any_map]
  exact congrArg (fun p => (m.records.lookup id).any p) (funext fun r => accepts_unslotted filter r t)

theorem plain_corpus (m : Memory) (cap : Nat) : m.plain.corpus cap = m.corpus cap := by
  unfold PlainIndex.corpus corpus
  rw [plain_pairs, List.map_map]
  rfl

theorem plain_vectorCount (h : m.Placed) : m.plain.vectorCount = m.vectors.live := by
  unfold PlainIndex.vectorCount
  rw [plain_pairs, List.countP_map]
  have hhas : ∀ p ∈ m.records.pairs, (m.vectorOf p.2).isSome = p.2.slot.isSome := by
    rintro ⟨id, r⟩ hp
    rw [Assoc.mem_pairs] at hp
    rcases h with hslotted | hbare
    · cases hslot : r.slot with
      | none =>
        unfold vectorOf
        rw [hslot]
        rfl
      | some s =>
        obtain ⟨values, hvalues, -⟩ := hslotted.vectorOf_slot hp hslot
        rw [hvalues]
        rfl
    · rw [hbare.vectorOf hp, hbare.slots id r hp]
      rfl
  have hcount : m.records.pairs.countP ((fun q : Bytes × Item => q.2.vector.isSome) ∘
      fun p => (p.1, m.item p.2)) = m.records.pairs.countP fun p => p.2.slot.isSome :=
    List.countP_congr fun p hp => by
      show (m.vectorOf p.2).isSome = true ↔ _
      rw [hhas p hp]
  rw [hcount]
  rcases h with hslotted | hbare
  · rw [hslotted.owned.live, List.countP_eq_length_filter]
  · rw [hbare.live, List.countP_eq_zero]
    rintro ⟨id, r⟩ hp
    rw [hbare.slots id r (Assoc.mem_pairs.mp hp)]
    simp

/-! ## Metadata -/

/-- The slot of a record has no part in its metadata. -/
theorem setMetaAll_slot : ∀ (pairs : List (Bytes × Bytes)) (r : MemoryRecord),
    MemoryRecord.setMetaAll pairs (unslotted r) =
      ((MemoryRecord.setMetaAll pairs r).1, unslotted (MemoryRecord.setMetaAll pairs r).2)
  | [], _ => rfl
  | (field, value) :: pairs, r => by
    have hone : (unslotted r).setMeta field value =
        ((r.setMeta field value).1, unslotted (r.setMeta field value).2) := by
      show MemoryRecord.setMeta { r with slot := none } field value = _
      unfold MemoryRecord.setMeta unslotted
      dsimp only
      split <;> rfl
    simp only [MemoryRecord.setMetaAll]
    rw [hone, setMetaAll_slot pairs]

theorem removeMetaAll_slot : ∀ (fields : List Bytes) (r : MemoryRecord),
    MemoryRecord.removeMetaAll fields (unslotted r) =
      ((MemoryRecord.removeMetaAll fields r).1, unslotted (MemoryRecord.removeMetaAll fields r).2)
  | [], _ => rfl
  | field :: fields, r => by
    have hone : (unslotted r).removeMeta field =
        ((r.removeMeta field).1, unslotted (r.removeMeta field).2) := by
      show MemoryRecord.removeMeta { r with slot := none } field = _
      unfold MemoryRecord.removeMeta unslotted
      dsimp only
      split <;> rfl
    simp only [MemoryRecord.removeMetaAll]
    rw [hone, removeMetaAll_slot fields]

/-! ## Additions -/

/-- The world is not asked where a vector is placed. -/
theorem placeVector_world (r : MemoryRecord) (vector : Option (List F32)) :
    Act.Sat (placeVector r vector) e m w (fun _ _ w' => w' = w) (fun _ => True) := by
  have hwrite : ∀ (slot : Nat) (values : List F32) (v : VectorIndex) (w : World),
      Act.Sat (VectorIndex.write slot values) e v w (fun _ _ w' => w' = w) (fun _ => True) := by
    intro slot values v w
    unfold VectorIndex.write
    simp [Act.sat_ite]
  unfold placeVector
  cases vector with
  | none => exact rfl
  | some values =>
    dsimp only
    cases r.slot with
    | some slot =>
      dsimp only
      unfold onVectors VectorIndex.overwrite
      rw [Act.sat_bind, Act.sat_zoom]
      exact Act.sat_mono (hwrite slot values m.vectors w) (fun _ _ _ h => h) (fun _ h => h)
    | none =>
      dsimp only
      unfold onVectors VectorIndex.insert VectorIndex.takeSlot
      rw [Act.sat_bind, Act.sat_zoom, Act.sat_bind, Act.sat_bind, Act.sat_get]
      cases m.vectors.free.getLast? with
      | some slot =>
        simp only [Act.sat_bind, Act.sat_set, Act.sat_pure, Act.sat_modify]
        exact Act.sat_mono (hwrite slot values _ w) (fun _ _ _ h => h) (fun _ h => h)
      | none =>
        simp only [Act.sat_ite, Act.sat_bind, Act.sat_set, Act.sat_panic, Act.sat_pure, Act.sat_modify]
        refine ⟨fun _ => trivial, fun _ => ⟨fun _ => trivial, fun _ => ?_⟩⟩
        exact Act.sat_mono (hwrite _ values _ w) (fun _ _ _ h => h) (fun _ h => h)

/-- What an addition does to the records. -/
structure AddedTo (m m' : Memory) (request : AddRequest) (id : Bytes) (t : SystemTime)
    (r : MemoryRecord) : Prop where
  config : m'.config = m.config
  metric : m'.vectors.metric = m.vectors.metric
  nextId : m'.nextId = (m.numbered request).nextId
  records : m'.records = m.records.insert id r
  record : r = { m.added request id t with slot := r.slot }
  same : request.vector = none → m'.vectorOf r = m.vectorOf (m.added request id t)
  placed : ∀ values, request.vector = some values → m'.vectorOf r = some (m.vectors.prepare values)

/-- **An addition** is refused, or files one record. -/
theorem add_files (m : Memory) (request : AddRequest) (cap maxRecords : Nat) :
    Act.Sat (add request cap maxRecords) e m w (fun result m' w' =>
      w' = { w with ticks := w.ticks + 1 } ∧
      ((∃ error, m.addRefusal request (m.addedId request) (e.clock w.ticks) maxRecords = some error ∧
        result = .error error ∧ m' = m.numbered request) ∨
      (m.addRefusal request (m.addedId request) (e.clock w.ticks) maxRecords = none ∧
        result = .ok (m.addedId request) ∧
          ∃ r, AddedTo m m' request (m.addedId request) (e.clock w.ticks) r))) (fun _ => True) := by
  refine sat_add (fun error href => ⟨rfl, .inl ⟨error, href, rfl, rfl⟩⟩) fun href => ?_
  refine sat_addChecked (fun _ _ _ => trivial) ?_
  have hadded : (m.numbered request).added request (m.addedId request) (e.clock w.ticks) =
      m.added request (m.addedId request) (e.clock w.ticks) := by
    rw [numbered_eq]
    rfl
  rw [hadded]
  refine Act.sat_mono (Act.sat_and (placeVector_vector _ request.vector)
    (placeVector_world _ request.vector)) ?_ (fun _ _ => trivial)
  rintro r n w' ⟨⟨hr, hn, hmetric, hsame, hplaced⟩, rfl⟩
  have hconfig : n.config = m.config := by
    rw [hn, numbered_eq]
  have hrecords : n.records = m.records := by
    rw [hn, numbered_eq]
  have hvectors : (m.numbered request).vectors = m.vectors := by
    rw [numbered_eq]
  rw [hvectors] at hmetric hplaced
  refine ⟨rfl, .inr ⟨href, rfl, r, hconfig, hmetric, ?_, ?_, hr, fun hv => ?_, hplaced⟩⟩
  · show n.nextId = _
    rw [hn]
  · show n.records.insert _ r = _
    rw [hrecords]
  · obtain ⟨rfl, rfl⟩ := hsame hv
    show Option.bind _ (m.numbered request).vectors.get = _
    rw [hvectors]
    rfl

/-- **Nothing else is touched**, and there are no other panics. -/
theorem add_placed (h : m.Placed) (request : AddRequest) (maxRecords : Nat)
    (hfinite : ∀ values, request.vector = some values → AllFinite values) :
    Act.Sat (add request cap maxRecords) e m w
      (fun _ m' _ => m'.Placed ∧ OthersKept m m' (m.addedId request)) Exhausted := by
  rcases h with hslotted | hbare
  · refine Act.sat_mono (add_slotted hslotted request maxRecords hfinite) ?_ (fun _ h => h)
    rintro _ m' _ ⟨hslotted', hkept⟩
    exact ⟨.inl hslotted', .of_records hkept⟩
  · have hpanics : Act.Sat (add request cap maxRecords) e m w (fun _ _ _ => True) Exhausted := by
      refine sat_add (fun _ _ => trivial) fun href => sat_addChecked (fun _ _ _ => .inl rfl) ?_
      rw [hbare.request href]
      exact trivial
    refine Act.sat_mono (Act.sat_and ((keptBy_bare e cap).add request maxRecords trivial hbare) hpanics)
      ?_ (fun _ h => h.2)
    rintro _ m' _ ⟨hbare', -⟩
    exact ⟨.inr hbare', hbare.othersKept m' _⟩

/-- A refusal is read off the map. -/
theorem plain_refusal (h : m.Plainly cap) (request : AddRequest) (id : Bytes) (t : SystemTime)
    (maxRecords : Nat) :
    m.plain.refusal request id t maxRecords = m.addRefusal request id t maxRecords := by
  have hsize : m.plain.items.size = m.records.size := Assoc.size_mapValues _ _
  have hfault : m.config.mode.storesVectors = true → m.plain.fault = m.vectors.validate := by
    intro hstores
    funext values
    rcases h.placed with hslotted | hbare
    · unfold PlainIndex.fault VectorIndex.validate
      rw [hslotted.dim, h.metric]
      rfl
    · rw [hbare.stores] at hstores
      cases hstores
  unfold PlainIndex.refusal addRefusal
  rw [plain_live, Option.isSome_map, hsize]
  dsimp only
  cases hv : request.vector with
  | none => rfl
  | some values =>
    cases hstores : m.config.mode.storesVectors with
    | false =>
      rw [show m.plain.config = m.config from rfl, hstores]
    | true =>
      rw [show m.plain.config = m.config from rfl, hstores, hfault hstores]

/-- What is filed is read off the map. -/
theorem plain_added (h : m.vectors.metric = m.config.metric) {request : AddRequest}
    {r : MemoryRecord} (hadded : AddedTo m m' request id t r) :
    m.plain.added request id t = m'.item r := by
  have hrecord : unslotted r = (m.plain.added request id t).record := by
    have hmeta : ∀ base : MemoryRecord, unslotted (applied request t base) =
        applied request t (unslotted base) := by
      intro base
      unfold applied
      rw [setMetaAll_slot]
      rfl
    rw [hadded.record]
    show unslotted (m.added request id t) = applied request t _
    rw [added_eq, hmeta, plain_lookup]
    unfold addBase
    cases m.records.lookup id <;> rfl
  have hvector : m'.vectorOf r = (m.plain.added request id t).vector := by
    unfold PlainIndex.added
    dsimp only
    cases hv : request.vector with
    | some values =>
      rw [hadded.placed values hv, VectorIndex.prepare, h]
      rfl
    | none =>
      rw [hadded.same hv]
      unfold vectorOf
      rw [added_slot, slotAt, plain_lookup]
      cases m.records.lookup id <;> rfl
  unfold item
  rw [hrecord, hvector]

/-- The run of one operation on the index, and on the map. -/
abbrev Mirrors {α : Type} (cap : Nat) (program : Run Memory α) (spec : Run PlainIndex α) (e : Env)
    (m : Memory) (w : World) : Prop :=
  Act.Follows (Plainly cap) plain Exhausted program spec e m w

/-- **An addition** files the record the map files. -/
theorem add_follows (hcap : 0 < cap) (h : m.Plainly cap) (request : AddRequest) (maxRecords : Nat)
    (hfinite : ∀ values, request.vector = some values → AllFinite values) :
    Mirrors cap (add request cap maxRecords) (PlainIndex.add request maxRecords) e m w := by
  refine Act.sat_mono (Act.sat_and (add_files m request cap maxRecords) (Act.sat_and
    (add_documented hcap h.documented request maxRecords) (add_placed h.placed request maxRecords hfinite)))
    ?_ (fun _ hp => hp.2.2)
  rintro result m' w' ⟨⟨rfl, hresult⟩, hdoc, hplaced, hothers⟩
  have hid : m.plain.addedId request = m.addedId request := rfl
  have hnumbered : m.plain.numbered request = (m.numbered request).plain := by
    unfold PlainIndex.numbered numbered
    cases request.id <;> rfl
  unfold PlainIndex.add
  simp only [Act.sat_bind, sat_now, Act.sat_get, hid, plain_refusal h]
  rcases hresult with ⟨error, href, rfl, rfl⟩ | ⟨href, rfl, r, hadded⟩
  · rw [href]
    refine ⟨⟨hplaced, hdoc, ?_⟩, rfl, hnumbered, rfl⟩
    rw [numbered_eq]
    exact h.metric
  · rw [href]
    refine ⟨⟨hplaced, hdoc, ?_⟩, rfl, ?_, rfl⟩
    · rw [hadded.metric, hadded.config]
      exact h.metric
    · rw [plain_added h.metric hadded, ← plain_insert hadded.records hothers, hnumbered]
      unfold plain
      rw [hadded.config, hadded.nextId, numbered_eq]

/-! ## Removals -/

theorem del_plainly (hcap : 0 < cap) (h : m.Plainly cap) (id : Bytes) :
    (m.del id cap).2.Plainly cap ∧ OthersKept m (m.del id cap).2 id := by
  have hmetric : (m.del id cap).2.vectors.metric = m.vectors.metric ∧
      (m.del id cap).2.config = m.config := by
    unfold del
    cases m.records.lookup id with
    | none => exact ⟨rfl, rfl⟩
    | some r =>
      dsimp only
      cases r.slot with
      | none => exact ⟨rfl, rfl⟩
      | some slot => exact ⟨(VectorIndex.remove_get m.vectors slot).metric, rfl⟩
  have hdoc := del_documented hcap h.documented id
  have hsame : (m.del id cap).2.vectors.metric = (m.del id cap).2.config.metric := by
    rw [hmetric.1, hmetric.2]
    exact h.metric
  rcases h.placed with hslotted | hbare
  · obtain ⟨hslotted', hkept⟩ := del_slotted cap hslotted id
    exact ⟨⟨.inl hslotted', hdoc, hsame⟩, .of_records hkept⟩
  · exact ⟨⟨.inr ((keptBy_bare (stillEnv 0) cap).del id hbare), hdoc, hsame⟩, hbare.othersKept _ id⟩

theorem del_plain (hcap : 0 < cap) (h : m.Plainly cap) (id : Bytes) :
    (m.del id cap).2.plain = { m.plain with items := m.plain.items.erase id } ∧
      (m.del id cap).1 = (m.plain.items.lookup id).isSome := by
  have hothers := (del_plainly hcap h id).2
  rw [plain_lookup, Option.isSome_map]
  cases hr : m.records.lookup id with
  | none =>
    have hdel : m.del id cap = (false, m) := by
      unfold del
      rw [hr]
    rw [hdel]
    have hnone : m.plain.items.lookup id = none := by rw [plain_lookup, hr, Option.map_none]
    rw [Assoc.erase_of_none hnone]
    exact ⟨rfl, rfl⟩
  | some r =>
    have hrecords : (m.del id cap).2.records = m.records.erase id := by
      unfold del
      rw [hr]
    have hrest : (m.del id cap).2.config = m.config ∧ (m.del id cap).2.nextId = m.nextId ∧
        (m.del id cap).1 = true := by
      unfold del
      rw [hr]
      exact ⟨rfl, rfl, rfl⟩
    rw [← plain_erase hrecords hothers]
    unfold plain
    rw [hrest.1, hrest.2.1]
    exact ⟨rfl, hrest.2.2⟩

theorem delAll_plain (hcap : 0 < cap) : ∀ (ids : List Bytes) {m : Memory}, m.Plainly cap →
    (delAll cap ids m).2.Plainly cap ∧ (delAll cap ids m).2.plain =
      { m.plain with items := ids.foldl (fun items id => items.erase id) m.plain.items }
  | [], _, h => ⟨h, rfl⟩
  | id :: ids, m, h => by
    obtain ⟨hrest, hplain⟩ := delAll_plain hcap ids (del_plainly hcap h id).1
    refine ⟨hrest, hplain.trans ?_⟩
    rw [(del_plain hcap h id).1]
    rfl

theorem del_follows (hcap : 0 < cap) (h : m.Plainly cap) (id : Bytes) :
    Mirrors cap (Act.state fun m => (.flag (m.del id cap).1, (m.del id cap).2))
      (IndexReply.flag <$> PlainIndex.del id) e m w := by
  obtain ⟨hplain, hfound⟩ := del_plain hcap h id
  refine ⟨(del_plainly hcap h id).1, ?_⟩
  unfold PlainIndex.del
  rw [Act.sat_map]
  exact ⟨congrArg IndexReply.flag hfound.symm, hplain.symm, rfl⟩

/-- **The sweep** takes out what has expired. -/
theorem sweep_follows (hcap : 0 < cap) (h : m.Plainly cap) :
    Mirrors cap (sweepExpired cap) PlainIndex.sweep e m w := by
  have hdead : ((m.plain.items.pairs.filter fun q => !q.2.record.isLive (e.clock w.ticks)).map
      fun q => q.2.record.id) = (m.records.pairs.filter fun p => !p.2.isLive (e.clock w.ticks)).map
        fun p => p.2.id := by
    rw [plain_pairs, List.filter_map, List.map_map]
    rfl
  unfold Mirrors Act.Follows sweepExpired PlainIndex.sweep
  simp only [Act.sat_bind, sat_now, Act.sat_get, Act.sat_set, Act.sat_pure, hdead]
  obtain ⟨hrest, hplain⟩ := delAll_plain hcap ((m.records.pairs.filter fun p =>
    !p.2.isLive (e.clock w.ticks)).map fun p => p.2.id) h
  exact ⟨hrest, trivial, hplain.symm, trivial⟩

/-! ## Changes of one record -/

/-- **A change of one live record** is the change of its item. -/
theorem onLive_follows {α : Type} (h : m.Plainly cap)
    {f : SystemTime → MemoryRecord → Run Memory (α × MemoryRecord)}
    {g : SystemTime → MemoryRecord → α × MemoryRecord}
    (hf : ∀ t r w, Act.Sat (f t r) e m w (fun p m' w' => m' = m ∧ w' = w ∧ Retouched r p.2 ∧
      g t (unslotted r) = (p.1, unslotted p.2)) Exhausted) :
    Mirrors cap (onLive id f) (PlainIndex.onLive id g) e m w := by
  have hdoc : Act.Sat (onLive id f) e m w (fun _ m' _ => m'.Documented cap) (fun _ => True) :=
    onLive_documented h.documented fun t r w =>
      Act.sat_mono (hf t r w) (fun _ _ _ hp => ⟨hp.1, hp.2.2.1.id, hp.2.2.1.text⟩) (fun _ _ => trivial)
  have hplaced : Act.Sat (onLive id f) e m w (fun _ m' _ => m'.Placed ∧ OthersKept m m' id)
      (fun _ => True) := by
    rcases h.placed with hslotted | hbare
    · refine Act.sat_mono (onLive_slotted hslotted fun t r w => Act.sat_mono (hf t r w)
        (fun _ _ _ hp => ⟨hp.1, hp.2.2.1.id, hp.2.2.1.slot⟩) (fun _ hp => hp)) ?_ (fun _ _ => trivial)
      rintro _ m' _ ⟨hslotted', hkept⟩
      exact ⟨.inl hslotted', .of_records hkept⟩
    · refine Act.sat_mono ((keptBy_bare e cap).onLive hbare fun t r w => Act.sat_mono (hf t r w)
        (fun _ _ _ hp => ⟨hp.1, hp.2.2.1⟩) (fun _ _ => trivial)) ?_ (fun _ _ => trivial)
      intro _ m' _ hbare'
      exact ⟨.inr hbare', hbare.othersKept m' id⟩
  have hspec : Act.Sat (onLive id f) e m w (fun result m' w' => m'.Plainly cap → OthersKept m m' id →
      Act.Sat (PlainIndex.onLive id g) e m.plain w
        (fun result' p w'' => result' = result ∧ p = m'.plain ∧ w'' = w') (fun _ => False)) Exhausted := by
    refine sat_onLive (fun hnone _ _ => ?_) fun r hr => ?_
    · unfold PlainIndex.onLive
      simp only [Act.sat_bind, sat_now, Act.sat_get]
      rw [plain_live, hnone]
      exact ⟨rfl, rfl, rfl⟩
    · refine Act.sat_mono (hf _ r _) ?_ (fun _ hp => hp)
      rintro p m' _ ⟨rfl, rfl, hretouched, hg⟩ - hothers
      unfold PlainIndex.onLive
      simp only [Act.sat_bind, sat_now, Act.sat_get]
      rw [plain_live, hr]
      have hitem : (m'.withRecord id p.2).item p.2 =
          { record := unslotted p.2, vector := m'.vectorOf r } := by
        unfold item Memory.vectorOf
        rw [hretouched.slot]
        rfl
      refine ⟨congrArg (fun a => Except.ok a.1) hg, ?_, rfl⟩
      have hitems : (m'.withRecord id p.2).plain.items = _ := plain_insert rfl hothers
      show PlainIndex.mk m'.config (m'.plain.items.insert id _) m'.nextId = _
      rw [show (g (e.clock w.ticks) (m'.item r).record).2 = unslotted p.2 from congrArg Prod.snd hg]
      rw [hitem] at hitems
      show _ = PlainIndex.mk m'.config (m'.withRecord id p.2).plain.items m'.nextId
      rw [hitems]
      rfl
  have hmetric : Act.Sat (onLive id f) e m w
      (fun _ m' _ => m'.vectors.metric = m'.config.metric) (fun _ => True) := by
    refine sat_onLive (fun _ => h.metric) fun r hr => Act.sat_mono (hf _ r _) ?_ (fun _ _ => trivial)
    rintro p m' _ ⟨rfl, -, -, -⟩
    exact h.metric
  refine Act.sat_mono (Act.sat_and hspec (Act.sat_and hdoc (Act.sat_and hplaced hmetric))) ?_
    (fun _ hp => hp.1)
  rintro result m' w' ⟨hspec, hdoc', ⟨hplaced', hothers⟩, hmetric'⟩
  have hplainly : m'.Plainly cap := ⟨hplaced', hdoc', hmetric'⟩
  exact ⟨hplainly, hspec hplainly hothers⟩

theorem setTtl_follows (h : m.Plainly cap) (id : Bytes) (ttl : Option Duration) :
    Mirrors cap (setRecordTtl id ttl) (PlainIndex.onLive id fun t r =>
      ((), { r with expireAt := ttl.map fun d => t + (d : Int) })) e m w := by
  refine onLive_follows h fun t r w => ?_
  cases ttl with
  | none => exact ⟨rfl, rfl, .expireAt r none, rfl⟩
  | some d =>
    simp only [addDuration, Act.sat_bind, Act.sat_ite, Act.sat_pure, Act.sat_panic]
    exact ⟨fun _ => ⟨trivial, trivial, .expireAt r _, rfl⟩, fun _ => .inl rfl⟩

/-! ## Searches -/

/-- **A vector search** compares the vectors of the records. -/
theorem searchVector_follows (h : m.Plainly cap) (query : List F32) (limit : Nat) (filter : Filter)
    (maxScan : Nat) :
    Mirrors cap (searchVector query limit filter maxScan)
      (PlainIndex.searchVector query limit filter maxScan) e m w := by
  have hcost : m.plain.vectorCount = m.vectors.scanCost := plain_vectorCount h.placed
  have hscored : ((m.plain.items.pairs.filter fun q =>
      filter.accepts q.2.record (e.clock w.ticks)).filterMap fun q =>
        q.2.vector.map fun v => (q.2.record.id, m.plain.score v query)) =
      (m.records.pairs.filter fun p => filter.accepts p.2 (e.clock w.ticks)).filterMap fun p =>
        (p.2.slot.bind fun slot => m.vectors.similarity slot query).map fun score => (p.2.id, score) := by
    have hkeep : ((fun q : Bytes × Item => filter.accepts q.2.record (e.clock w.ticks)) ∘
        fun p : Bytes × MemoryRecord => (p.1, m.item p.2)) =
        fun p => filter.accepts p.2 (e.clock w.ticks) :=
      funext fun p => accepts_unslotted filter p.2 (e.clock w.ticks)
    rw [plain_pairs, List.filter_map, List.filterMap_map, hkeep]
    refine List.filterMap_congr fun p _ => ?_
    show ((p.2.slot.bind m.vectors.get).map fun v => (p.2.id, m.plain.score v query)) = _
    cases p.2.slot with
    | none => rfl
    | some slot =>
      rw [Option.bind_some, Option.bind_some, VectorIndex.similarity, Option.map_map, h.metric]
      rfl
  unfold Mirrors Act.Follows searchVector PlainIndex.searchVector
  simp only [Act.sat_bind, Act.sat_get, hcost, show m.plain.config = m.config from rfl]
  by_cases hstores : m.config.mode.storesVectors = true
  · by_cases hdim : query.length = m.config.dim
    · by_cases hscan : maxScan < m.vectors.scanCost
      · simp only [hstores, hdim, hscan, ne_eq, not_true_eq_false, Bool.not_true, Bool.false_eq_true,
          if_false, if_true, Act.sat_pure]
        exact ⟨h, trivial, trivial, trivial⟩
      · simp only [hstores, hdim, hscan, ne_eq, not_true_eq_false, Bool.not_true, Bool.false_eq_true,
          if_false, Act.sat_bind, sat_now, Act.sat_pure, hscored]
        exact ⟨h, trivial, trivial, trivial⟩
    · simp only [hstores, hdim, ne_eq, not_false_eq_true, Bool.not_true, Bool.false_eq_true, if_false,
        if_true, Act.sat_pure]
      exact ⟨h, trivial, trivial, trivial⟩
  · rw [Bool.not_eq_true] at hstores
    simp only [hstores, Bool.not_false, if_true, Act.sat_pure]
    exact ⟨h, trivial, trivial, trivial⟩

/-- **A keyword search** compares the texts of the records. -/
theorem searchText_follows (hcap : 0 < cap) (h : m.Plainly cap) (hln : Grows e.ln)
    (hcount : m.Countable cap) (query : Bytes) (limit : Nat) (filter : Filter) :
    Mirrors cap (searchText query limit filter cap) (PlainIndex.searchText query limit filter cap)
      e m w := by
  unfold Mirrors Act.Follows searchText PlainIndex.searchText
  simp only [Act.sat_bind, Act.sat_get, show m.plain.config = m.config from rfl]
  by_cases hmode : m.config.mode.indexesText = true
  · simp only [hmode, Bool.not_true, Bool.false_eq_true, if_false, Act.sat_bind, sat_now, sat_env,
      Act.sat_pure]
    refine ⟨h, congrArg Except.ok ?_, trivial, trivial⟩
    rw [plain_corpus, plain_admits, tokenize_eq_firstTerms hcap]
    exact (h.documented.search_bm25 hcount hln hmode _ limit _).symm
  · rw [Bool.not_eq_true] at hmode
    simp only [hmode, Bool.not_false, if_true, Act.sat_pure]
    exact ⟨h, trivial, trivial, trivial⟩

/-- Fusing reads of a record what the map has of it. -/
theorem fuse_follows (h : m.Plainly cap) (keyword vector : List (Bytes × F32)) (weights : Weights)
    (fusion : Fusion) :
    Mirrors cap
      (do
        let t ← now
        let e ← env
        let m ← Act.get
        pure (Except.ok (fuse e.powf keyword vector (fun id => m.records.lookup id) weights fusion
          m.config.halfLife t)) : Run Memory (Except MemoryError (List Hit)))
      (do
        let t ← now
        let e ← env
        let p ← Act.get
        pure (.ok (fuse e.powf keyword vector (fun id => (p.items.lookup id).map Item.record) weights
          fusion p.config.halfLife t))) e m w := by
  have hlookup : (fun id => (m.plain.items.lookup id).map Item.record) =
      fun id => (m.records.lookup id).map unslotted := by
    funext id
    rw [plain_lookup, Option.map_map]
    rfl
  have hfuse : fuse e.powf keyword vector (fun id => (m.records.lookup id).map unslotted) weights fusion
      m.config.halfLife (e.clock w.ticks) = fuse e.powf keyword vector (fun id => m.records.lookup id)
        weights fusion m.config.halfLife (e.clock w.ticks) := by
    refine fuse_congr (fun id => ?_) weights fusion _ _
    rw [Option.map_map]
    rfl
  unfold Mirrors Act.Follows
  simp only [Act.sat_bind, sat_now, sat_env, Act.sat_get, Act.sat_pure, hlookup]
  exact ⟨h, congrArg Except.ok hfuse, trivial, trivial⟩

theorem queryRest_follows (h : m.Plainly cap) (keyword : List (Bytes × F32))
    (vectorQuery : Option (List F32)) (limit : Nat) (filter : Filter) (weights : Weights)
    (fusion : Fusion) (maxScan : Nat) :
    Mirrors cap (queryRest keyword vectorQuery limit filter weights fusion maxScan)
      (PlainIndex.queryRest keyword vectorQuery limit filter weights fusion maxScan) e m w := by
  unfold queryRest PlainIndex.queryRest
  cases vectorQuery with
  | none =>
    refine Act.follows_bind (Act.follows_pure h _) fun vector m' w' h' => ?_
    cases vector with
    | error error => exact Act.follows_pure h' _
    | ok vector => exact fuse_follows h' keyword vector weights fusion
  | some query =>
    refine Act.follows_bind (searchVector_follows h query limit filter maxScan) fun vector m' w' h' => ?_
    cases vector with
    | error error => exact Act.follows_pure h' _
    | ok vector => exact fuse_follows h' keyword vector weights fusion

/-- **A query** fuses what the map would. -/
theorem query_follows (hcap : 0 < cap) (h : m.Plainly cap) (hln : Grows e.ln) (textQuery : Option Bytes)
    (hcount : textQuery ≠ none → m.Countable cap) (vectorQuery : Option (List F32)) (limit : Nat)
    (filter : Filter) (weights : Weights) (fusion : Fusion) (maxScan : Nat) :
    Mirrors cap (query textQuery vectorQuery limit filter weights fusion cap maxScan)
      (PlainIndex.query textQuery vectorQuery limit filter weights fusion cap maxScan) e m w := by
  unfold query PlainIndex.query
  cases textQuery with
  | none =>
    refine Act.follows_bind (Act.follows_pure h _) fun keyword m' w' h' => ?_
    cases keyword with
    | error error => exact Act.follows_pure h' _
    | ok keyword => exact queryRest_follows h' keyword vectorQuery limit filter weights fusion maxScan
  | some text =>
    refine Act.follows_bind (searchText_follows hcap h hln (hcount (Option.some_ne_none text)) text limit
      filter) fun keyword m' w' h' => ?_
    cases keyword with
    | error error => exact Act.follows_pure h' _
    | ok keyword => exact queryRest_follows h' keyword vectorQuery limit filter weights fusion maxScan

end Memory

/-! ## Runs -/

variable {e : Env} {m : Memory} {w : World} {cap : Nat}

/-- **One call** answers as on the map. -/
theorem call_follows (hcap : 0 < cap) (h : m.Plainly cap) (hln : Grows e.ln) (call : IndexCall)
    (hparsed : call.Parsed) (hcount : call.Compares → m.Countable cap) :
    Memory.Mirrors cap (call.exec cap) (call.plain cap) e m w := by
  cases call with
  | add request maxRecords =>
    refine Act.follows_map _ (Memory.add_follows hcap h request maxRecords fun values hv => ?_)
    obtain ⟨bs, hbs⟩ := hparsed values hv
    exact Memory.parseLeF32_finite hbs
  | del id => exact Memory.del_follows hcap h id
  | sweep => exact Act.follows_map _ (Memory.sweep_follows hcap h)
  | setMeta id pairs =>
    refine Act.follows_map _ (Memory.onLive_follows h fun t r w => ?_)
    exact ⟨rfl, rfl, .setMeta t r pairs, by rw [Memory.setMetaAll_slot]; rfl⟩
  | removeMeta id fields =>
    refine Act.follows_map _ (Memory.onLive_follows h fun t r w => ?_)
    exact ⟨rfl, rfl, .removeMeta t r fields, by rw [Memory.removeMetaAll_slot]; rfl⟩
  | setTtl id ttl => exact Act.follows_map _ (Memory.setTtl_follows h id ttl)
  | get id =>
    refine ⟨h, ?_⟩
    unfold IndexCall.plain PlainIndex.get
    simp only [Act.sat_map, Act.sat_bind, sat_now, Act.sat_get, Act.sat_pure, Memory.plain_live]
    exact ⟨trivial, trivial, trivial⟩
  | list =>
    refine ⟨h, congrArg IndexReply.ids ?_, rfl, rfl⟩
    unfold PlainIndex.liveIds Memory.liveIds
    rw [Memory.plain_pairs, List.filter_map, List.map_map]
    rfl
  | sizes =>
    refine ⟨h, ?_, rfl, rfl⟩
    rw [Memory.plain_vectorCount h.placed]
    exact congrArg (fun n => IndexReply.sizes n _ _) (Assoc.size_mapValues _ _)
  | searchVector values limit filter maxScan =>
    exact Act.follows_map _ (Memory.searchVector_follows h values limit filter maxScan)
  | searchText text limit filter =>
    exact Act.follows_map _ (Memory.searchText_follows hcap h hln (hcount trivial) text limit filter)
  | query textQuery vectorQuery limit filter weights fusion maxScan =>
    refine Act.follows_map _ (Memory.query_follows hcap h hln textQuery (fun hne => hcount ?_) vectorQuery
      limit filter weights fusion maxScan)
    cases textQuery with
    | none => exact absurd rfl hne
    | some text => trivial

/-- Every call of a run is answered as on the map the index stands for, and leaves the map that is left
there; a call that compares texts finds counters that hold what there is to count. -/
def RunsAlike (e : Env) (cap : Nat) : List IndexCall → Memory → World → Prop
  | [], _, _ => True
  | call :: calls, m, w => (call.Compares → m.Countable cap) →
    Act.Sat (call.exec cap) e m w (fun reply m' w' =>
      Act.Sat (call.plain cap) e m.plain w
        (fun reply' p w'' => reply' = reply ∧ p = m'.plain ∧ w'' = w') (fun _ => False) ∧
      RunsAlike e cap calls m' w') Memory.Exhausted

theorem run_alike (hcap : 0 < cap) (hln : Grows e.ln) : ∀ {calls : List IndexCall} {m : Memory}
    {w : World}, m.Plainly cap → (∀ call ∈ calls, call.Parsed) → RunsAlike e cap calls m w
  | [], _, _, _, _ => trivial
  | call :: calls, m, w, h, hparsed => fun hcount => by
    refine Act.sat_mono (call_follows hcap h hln call (hparsed call List.mem_cons_self) hcount) ?_
      (fun _ hp => hp)
    rintro reply m' w' ⟨h', hplain⟩
    exact ⟨hplain, run_alike hcap hln h' fun call' hin => hparsed call' (List.mem_cons_of_mem _ hin)⟩

/-- **A memory index is a map of records with their vectors**: from its creation on, every run of calls is
answered as by the map. -/
theorem runsAlike (e : Env) (w : World) (mode : Mode) (dim : Nat) (metric : Metric) (weights : Weights)
    (halfLife : Duration) (hdim : mode.storesVectors = true → 1 ≤ dim) (hln : Grows e.ln) (cap : Nat)
    (hcap : 1 ≤ cap) (calls : List IndexCall) (hparsed : ∀ call ∈ calls, call.Parsed) :
    RunsAlike e cap calls (Memory.new
      { MemoryConfig.new mode dim metric with weights := weights, halfLife := halfLife }) w := by
  refine run_alike hcap hln ⟨Memory.placed_new ?_, Memory.documented_new _ cap, rfl⟩ hparsed
  intro hstores
  have hstores : mode.storesVectors = true := hstores
  unfold MemoryConfig.new
  rw [if_pos hstores]
  exact hdim hstores

/-- The vector `(1, 0)`. -/
def unitVector : List F32 := [f32FromLeBytes 0 0 128 63, f32FromLeBytes 0 0 0 0]

/-- A record with a text and a vector is added, found both ways and removed. -/
theorem runsAlike_one : RunsAlike thirdsEnv 2
    [.add { id := some [1], text := Text.bytes "aa bb", vector := some unitVector } 0,
      .query (some (Text.bytes "aa")) (some unitVector) 1 [] Weights.default .linear 9, .del [1]]
    (Memory.new { MemoryConfig.new .hybrid 2 .cosine with weights := Weights.default, halfLife := 0 })
    {} := by
  refine runsAlike thirdsEnv {} .hybrid 2 .cosine Weights.default 0 (by decide) (fun _ _ _ => signal_thirds)
    2 (by decide) _ ?_
  have hunit : ∀ values, some unitVector = some values → ∃ bs, parseLeF32 bs = .ok values := by
    intro values hv
    rw [← Option.some.inj hv]
    exact ⟨[0, 0, 128, 63, 0, 0, 0, 0], by decide⟩
  refine List.forall_mem_cons.mpr ⟨hunit, List.forall_mem_cons.mpr ⟨trivial, ?_⟩⟩
  exact List.forall_mem_cons.mpr ⟨trivial, List.forall_mem_nil _⟩

end Klyro
