import Klyro.Types.Memory.Metadata
import Klyro.Types.Memory.Steps

/-!
# What an addition leaves (`Memory::add`)

* `addChecked_files` — the record an addition files is `Memory.added`, up to its slot.
* `TakesEffect` — what the caller of `add` may expect to find under the id.
* `Overridden` — nothing of an expired record shows through the request that replaces it.
* `add_takesEffect_iff` — `add` merges into whatever record is filed under the id, so an expired one
  that has not been swept yet must be overridden whole.
* `add_refused_iff` — when a refused request leaves the index as it was.
-/

set_option autoImplicit false

namespace Klyro

namespace Memory

variable {e : Env} {w : World} {m m' : Memory} {request : AddRequest} {id : Bytes} {t : SystemTime}

/-- What a record that is made by a request carries. -/
structure Requested (m : Memory) (request : AddRequest) (t : SystemTime) (r : MemoryRecord) : Prop where
  metadata : ∀ field, r.getMeta field = MemoryRecord.lastValue request.metadata field
  importance : r.importance = (request.importance.map clampUnit).getD (lit "0.5")
  createdAt : r.createdAt = t
  expireAt : r.expireAt = request.ttl.map fun ttl : Duration => t + (ttl : Int)
  vector : m.vectorOf r = request.vector.map m.vectors.prepare

/-- What the caller of `add` may expect of `id` at `t`, when `m` has become `m'`. -/
structure TakesEffect (m m' : Memory) (request : AddRequest) (id : Bytes) (t : SystemTime) : Prop where
  text : ∃ r, m'.liveRecord id t = some r ∧ r.text = request.text
  fresh : m.liveRecord id t = none → ∃ r, m'.liveRecord id t = some r ∧ m'.Requested request t r

/-- Nothing of the record `r` shows through the request. -/
structure Overridden (m : Memory) (request : AddRequest) (t : SystemTime) (r : MemoryRecord) : Prop where
  ttl : request.ttl ≠ none
  metadata : ∀ p ∈ r.metadata, p.1 ∈ request.metadata.map Prod.fst
  importance : request.importance = none → r.importance = lit "0.5"
  createdAt : r.createdAt = t
  vector : request.vector = none → m.vectorOf r = none

/-- A request that takes effect: it does not expire at once, and whatever expired record is still
filed under its id is overridden. -/
structure Effective (m : Memory) (request : AddRequest) (id : Bytes) (t : SystemTime) : Prop where
  ttl : request.ttl ≠ some 0
  remains : ∀ r, m.records.lookup id = some r → r.isLive t = false → m.Overridden request t r

/-! ## The record that is filed -/

/-- Placing a vector changes the slot of the record only, and the vector can be read back. -/
theorem placeVector_vector (r : MemoryRecord) (vector : Option (List F32)) :
    Act.Sat (placeVector r vector) e m w (fun r' m' _ => r' = { r with slot := r'.slot } ∧
      m' = { m with vectors := m'.vectors } ∧ m'.vectors.metric = m.vectors.metric ∧
        (vector = none → r' = r ∧ m' = m) ∧
        ∀ values, vector = some values → m'.vectorOf r' = some (m.vectors.prepare values))
      (fun _ => True) := by
  have hwrite : ∀ (slot : Nat) (values : List F32) (v : VectorIndex) (w : World),
      v.metric = m.vectors.metric → Act.Sat (VectorIndex.write slot values) e v w
        (fun _ v' _ => v'.metric = m.vectors.metric ∧ v'.get slot = some (m.vectors.prepare values))
        (fun _ => True) := by
    intro slot values v w hmetric
    refine Act.sat_mono (VectorIndex.write_get slot values) ?_ (fun _ _ => trivial)
    rintro _ v' w' ⟨-, honly, -, -, hget⟩
    refine ⟨honly.metric.trans hmetric, ?_⟩
    rw [hget]
    unfold VectorIndex.prepare
    rw [hmetric]
  unfold placeVector
  cases vector with
  | none => exact ⟨rfl, rfl, rfl, fun _ => ⟨rfl, rfl⟩, fun _ h => by cases h⟩
  | some values =>
    dsimp only
    cases hslot : r.slot with
    | some slot =>
      dsimp only
      rw [Act.sat_bind]
      unfold onVectors VectorIndex.overwrite
      rw [Act.sat_zoom]
      refine Act.sat_mono (hwrite slot values m.vectors w rfl) ?_ (fun _ h => h)
      rintro _ v' w' ⟨hmetric, hget⟩
      refine ⟨rfl, rfl, hmetric, fun h => (by cases h), fun values' h => ?_⟩
      cases h
      exact hget
    | none =>
      dsimp only
      rw [Act.sat_bind]
      unfold onVectors VectorIndex.insert
      rw [Act.sat_zoom, Act.sat_bind]
      have htake : Act.Sat VectorIndex.takeSlot e m.vectors w
          (fun _ v' _ => v'.metric = m.vectors.metric) (fun _ => True) := by
        unfold VectorIndex.takeSlot
        rw [Act.sat_bind, Act.sat_get]
        cases m.vectors.free.getLast? with
        | some slot => exact rfl
        | none =>
          simp only [Act.sat_ite, Act.sat_bind, Act.sat_set, Act.sat_panic, Act.sat_pure]
          exact ⟨fun _ => trivial, fun _ => ⟨fun _ => trivial, fun _ => trivial⟩⟩
      refine Act.sat_mono htake ?_ (fun _ h => h)
      intro slot v' w' hmetric
      rw [Act.sat_bind, Act.sat_modify, Act.sat_bind]
      refine Act.sat_mono (hwrite slot values { v' with live := v'.live + 1 } w' hmetric) ?_ (fun _ h => h)
      rintro _ v'' w'' ⟨hmetric', hget⟩
      refine ⟨rfl, rfl, hmetric', fun h => (by cases h), fun values' h => ?_⟩
      cases h
      exact hget

/-- **What `add` files** once it has passed its checks. -/
theorem addChecked_files (m : Memory) (request : AddRequest) (id : Bytes) (t : SystemTime)
    (maxTerms : Nat) :
    Act.Sat (addChecked request id t maxTerms) e m w (fun _ m' _ => ∃ r,
      m'.records.lookup id = some r ∧ r = { m.added request id t with slot := r.slot } ∧
        m'.vectors.metric = m.vectors.metric ∧
        (request.vector = none → m'.vectorOf r = m.vectorOf (m.added request id t)) ∧
        ∀ values, request.vector = some values → m'.vectorOf r = some (m.vectors.prepare values))
      (fun _ => True) := by
  refine sat_addChecked (fun _ _ _ => trivial) ?_
  refine Act.sat_mono (placeVector_vector (m.added request id t) request.vector) ?_ (fun _ h => h)
  rintro r' m' w' ⟨hr, -, hmetric, hnone, hsome⟩
  refine ⟨r', AList.lookup_insert _, hr, hmetric, fun h => ?_, hsome⟩
  obtain ⟨rfl, rfl⟩ := hnone h
  rfl

/-- What a request makes of a record. -/
def applied (request : AddRequest) (t : SystemTime) (base : MemoryRecord) : MemoryRecord :=
  { base with
    metadata := (MemoryRecord.setMetaAll request.metadata base).2.metadata
    importance := (request.importance.map clampUnit).getD base.importance
    expireAt := (request.ttl.map fun ttl : Duration => t + (ttl : Int)).or base.expireAt }

/-- The record an addition starts from. -/
def addBase (m : Memory) (request : AddRequest) (id : Bytes) (t : SystemTime) : MemoryRecord :=
  match m.records.lookup id with
  | some record => { record with text := request.text, updatedAt := t }
  | none => MemoryRecord.new id request.text t

theorem added_eq (m : Memory) (request : AddRequest) (id : Bytes) (t : SystemTime) :
    m.added request id t = applied request t (m.addBase request id t) := by
  have hmeta := MemoryRecord.setMetaAll_eq request.metadata (m.addBase request id t)
  have hrecord : m.addedRecord request id t =
      { (MemoryRecord.setMetaAll request.metadata (m.addBase request id t)).2 with
        importance := (request.importance.map clampUnit).getD
          (MemoryRecord.setMetaAll request.metadata (m.addBase request id t)).2.importance } := by
    unfold addedRecord addBase
    cases request.importance <;> rfl
  unfold added applied
  rw [hrecord, hmeta]
  cases request.ttl <;> rfl

/-! ## When it takes effect -/

variable {base r : MemoryRecord}

theorem applied_isLive : (applied request t base).isLive t =
    match request.ttl with
    | some ttl => decide (ttl ≠ 0)
    | none => base.isLive t := by
  unfold applied MemoryRecord.isLive
  cases request.ttl with
  | none => rfl
  | some ttl =>
    simp only [Option.map_some, Option.some_or]
    congr 1
    rw [eq_iff_iff]
    constructor
    · rintro hlt rfl
      simp at hlt
    · intro hne
      have hpos : 0 < ttl := Nat.pos_of_ne_zero hne
      have : (0 : Int) < (ttl : Int) := by exact_mod_cast hpos
      exact lt_add_of_pos_right t this

theorem applied_getMeta (h : InOrder base.metadata) (hr : r.metadata = (applied request t base).metadata)
    (field : Bytes) : r.getMeta field =
      (MemoryRecord.lastValue request.metadata field).or (valueOf base.metadata field) := by
  obtain ⟨horder, hvalue⟩ := MemoryRecord.setMetaAll_spec request.metadata h
  rw [MemoryRecord.getMeta_eq (by rw [hr]; exact horder), hr]
  exact hvalue field

/-- The expected metadata is there exactly when every older field is overridden. -/
theorem applied_metadata_iff (h : InOrder base.metadata)
    (hr : r.metadata = (applied request t base).metadata) :
    (∀ field, r.getMeta field = MemoryRecord.lastValue request.metadata field) ↔
      ∀ p ∈ base.metadata, p.1 ∈ request.metadata.map Prod.fst := by
  constructor
  · intro hall p hp
    by_contra hnot
    have hfield := hall p.1
    rw [applied_getMeta h hr, MemoryRecord.lastValue_eq_none.mpr hnot, Option.none_or,
      MemoryRecord.valueOf_eq_none] at hfield
    exact hfield p hp rfl
  · intro hall field
    rw [applied_getMeta h hr]
    cases hlast : MemoryRecord.lastValue request.metadata field with
    | some v => rfl
    | none =>
      rw [Option.none_or, MemoryRecord.valueOf_eq_none]
      rintro p hp rfl
      exact absurd (hall p hp) (MemoryRecord.lastValue_eq_none.mp hlast)

/-- What `addChecked` leaves under its id. -/
structure Filed (m m' : Memory) (request : AddRequest) (id : Bytes) (t : SystemTime)
    (r : MemoryRecord) : Prop where
  lookup : m'.records.lookup id = some r
  shape : r = { applied request t (m.addBase request id t) with slot := r.slot }
  metric : m'.vectors.metric = m.vectors.metric
  kept : request.vector = none → m'.vectorOf r = (m.addBase request id t).slot.bind m.vectors.get
  placed : ∀ values, request.vector = some values → m'.vectorOf r = some (m.vectors.prepare values)

theorem Filed.isLive (h : Filed m m' request id t r) :
    r.isLive t = (applied request t (m.addBase request id t)).isLive t := by
  rw [h.shape]
  rfl

theorem Filed.liveRecord (h : Filed m m' request id t r) :
    m'.liveRecord id t = if r.isLive t = true then some r else none := by
  unfold Memory.liveRecord
  rw [h.lookup]
  rfl

theorem Filed.text (h : Filed m m' request id t r) : r.text = request.text := by
  rw [h.shape]
  show (m.addBase request id t).text = request.text
  unfold addBase
  cases m.records.lookup id <;> rfl

/-- The record is as the request says exactly when nothing of its base shows through. -/
theorem Filed.requested_iff (h : Filed m m' request id t r)
    (hmeta : InOrder (m.addBase request id t).metadata) :
    m'.Requested request t r ↔
      (∀ p ∈ (m.addBase request id t).metadata, p.1 ∈ request.metadata.map Prod.fst) ∧
      (request.importance = none → (m.addBase request id t).importance = lit "0.5") ∧
      (m.addBase request id t).createdAt = t ∧
      (request.ttl = none → (m.addBase request id t).expireAt = none) ∧
      (request.vector = none → (m.addBase request id t).slot.bind m.vectors.get = none) := by
  have hmetadata : r.metadata = (applied request t (m.addBase request id t)).metadata := by
    rw [h.shape]
  have himportance : r.importance =
      (request.importance.map clampUnit).getD (m.addBase request id t).importance := by
    rw [h.shape]
    rfl
  have hcreated : r.createdAt = (m.addBase request id t).createdAt := by
    rw [h.shape]
    rfl
  have hexpire : r.expireAt = (request.ttl.map fun ttl : Duration => t + (ttl : Int)).or
      (m.addBase request id t).expireAt := by
    rw [h.shape]
    rfl
  have hvector : m'.vectorOf r = request.vector.map m'.vectors.prepare ↔
      (request.vector = none → (m.addBase request id t).slot.bind m.vectors.get = none) := by
    cases hv : request.vector with
    | none =>
      rw [h.kept hv, Option.map_none]
      exact ⟨fun h _ => h, fun h => h rfl⟩
    | some values =>
      rw [h.placed values hv, Option.map_some]
      refine ⟨fun _ h => (by cases h), fun _ => ?_⟩
      unfold VectorIndex.prepare
      rw [h.metric]
  have hmeta' := applied_metadata_iff hmeta hmetadata
  constructor
  · rintro ⟨h₁, h₂, h₃, h₄, h₅⟩
    refine ⟨hmeta'.mp h₁, fun hnone => ?_, hcreated.symm.trans h₃, fun hnone => ?_, hvector.mp h₅⟩
    · rw [himportance, hnone] at h₂
      exact h₂
    · rw [hexpire, hnone] at h₄
      simpa using h₄
  · rintro ⟨h₁, h₂, h₃, h₄, h₅⟩
    refine ⟨hmeta'.mpr h₁, ?_, hcreated.trans h₃, ?_, hvector.mpr h₅⟩
    · rw [himportance]
      cases hi : request.importance with
      | none => exact h₂ hi
      | some _ => rfl
    · rw [hexpire]
      cases httl : request.ttl with
      | none =>
        rw [h₄ httl]
        rfl
      | some _ => rfl

theorem Filed.takesEffect_iff (h : Filed m m' request id t r)
    (hmeta : ∀ r, m.records.lookup id = some r → InOrder r.metadata) :
    TakesEffect m m' request id t ↔ Effective m request id t := by
  have hlive := h.isLive
  rw [applied_isLive] at hlive
  have hfound := h.liveRecord
  -- what is found under the id, when something is
  have hsome : ∀ r', m'.liveRecord id t = some r' → r' = r ∧ r.isLive t = true := by
    intro r' hr'
    rw [hfound] at hr'
    split at hr'
    · cases hr'
      exact ⟨rfl, ‹_›⟩
    · cases hr'
  cases hold : m.records.lookup id with
  | none =>
    have hbase : m.addBase request id t = MemoryRecord.new id request.text t := by
      unfold addBase
      rw [hold]
    have hnone : m.liveRecord id t = none := by
      unfold Memory.liveRecord
      rw [hold]
      rfl
    have hrequested : m'.Requested request t r := by
      rw [h.requested_iff (by rw [hbase]; exact List.Pairwise.nil), hbase]
      exact ⟨fun p hp => (by cases hp), fun _ => rfl, rfl, fun _ => rfl, fun _ => rfl⟩
    have hlive' : r.isLive t = true ↔ request.ttl ≠ some 0 := by
      rw [hlive, hbase]
      cases request.ttl with
      | none => exact ⟨fun _ => by simp, fun _ => rfl⟩
      | some ttl => simp
    constructor
    · intro heffect
      obtain ⟨r', hr', -⟩ := heffect.text
      exact ⟨hlive'.mp (hsome r' hr').2, fun r hr => by cases hold.symm.trans hr⟩
    · intro heffective
      have hthere : m'.liveRecord id t = some r := by
        rw [hfound, if_pos (hlive'.mpr heffective.ttl)]
      exact ⟨⟨r, hthere, h.text⟩, fun _ => ⟨r, hthere, hrequested⟩⟩
  | some old =>
    have hbase : m.addBase request id t = { old with text := request.text, updatedAt := t } := by
      unfold addBase
      rw [hold]
    have hbaseLive : (m.addBase request id t).isLive t = old.isLive t := by
      rw [hbase]
      rfl
    rw [hbaseLive] at hlive
    cases holdLive : old.isLive t with
    | true =>
      have hlive' : r.isLive t = true ↔ request.ttl ≠ some 0 := by
        rw [hlive, holdLive]
        cases request.ttl with
        | none => exact ⟨fun _ => by simp, fun _ => rfl⟩
        | some ttl => simp
      have hthere : m.liveRecord id t = some old := by
        unfold Memory.liveRecord
        rw [hold]
        exact if_pos holdLive
      constructor
      · intro heffect
        obtain ⟨r', hr', -⟩ := heffect.text
        refine ⟨hlive'.mp (hsome r' hr').2, fun r hr hdead => ?_⟩
        cases hold.symm.trans hr
        rw [holdLive] at hdead
        cases hdead
      · intro heffective
        have hfiled : m'.liveRecord id t = some r := by
          rw [hfound, if_pos (hlive'.mpr heffective.ttl)]
        exact ⟨⟨r, hfiled, h.text⟩, fun hnone => by cases hthere.symm.trans hnone⟩
    | false =>
      have hlive' : r.isLive t = true ↔ request.ttl ≠ none ∧ request.ttl ≠ some 0 := by
        rw [hlive, holdLive]
        cases request.ttl with
        | none => simp
        | some ttl => simp
      have hnone : m.liveRecord id t = none := by
        unfold Memory.liveRecord
        rw [hold]
        exact if_neg fun hlive => by cases holdLive.symm.trans hlive
      have hrequested := h.requested_iff (by rw [hbase]; exact hmeta old hold)
      rw [hbase] at hrequested
      constructor
      · intro heffect
        obtain ⟨r', hr', hreq⟩ := heffect.fresh hnone
        obtain ⟨rfl, hr⟩ := hsome r' hr'
        obtain ⟨h₁, h₂, h₃, -, h₅⟩ := hrequested.mp hreq
        obtain ⟨httl, hzero⟩ := hlive'.mp hr
        refine ⟨hzero, fun r₀ hr₀ _ => ?_⟩
        cases hold.symm.trans hr₀
        exact ⟨httl, h₁, h₂, h₃, h₅⟩
      · intro heffective
        obtain ⟨h₀, h₁, h₂, h₃, h₅⟩ := heffective.remains old hold holdLive
        have hthere : m'.liveRecord id t = some r := by
          rw [hfound, if_pos (hlive'.mpr ⟨h₀, heffective.ttl⟩)]
        refine ⟨⟨r, hthere, h.text⟩, fun _ => ⟨r, hthere, hrequested.mpr ?_⟩⟩
        exact ⟨h₁, h₂, h₃, fun hnone => absurd hnone h₀, h₅⟩

/-- **When an addition takes effect.**  Whenever `add` returns the id it was given, the record found
under it at that instant is what the request asks for exactly when the request does not expire at
once and overrides whatever expired record is still filed under the id. -/
theorem add_takesEffect_iff (e : Env) (m : Memory)
    (hmeta : ∀ id r, m.records.lookup id = some r → InOrder r.metadata) (request : AddRequest)
    (id : Bytes) (hid : request.id = some id) (maxTerms maxRecords : Nat) (w : World) :
    Act.Sat (add request maxTerms maxRecords) e m w (fun r m' _ => r = .ok id →
      (TakesEffect m m' request id (e.clock w.ticks) ↔ Effective m request id (e.clock w.ticks)))
      (fun _ => True) := by
  have hadded : m.addedId request = id := by
    unfold addedId
    rw [hid, Option.getD_some]
  have hsame : m.numbered request = m := by
    unfold numbered
    rw [hid]
  refine sat_add (fun error _ h => by cases h) fun _ => ?_
  rw [hadded, hsame]
  refine Act.sat_mono (addChecked_files m request id (e.clock w.ticks) maxTerms) ?_ (fun _ h => h)
  rintro _ m' w' ⟨r, hlookup, hr, hmetric, hkept, hplaced⟩ -
  rw [added_eq] at hr hkept
  have hfiled : Filed m m' request id (e.clock w.ticks) r := ⟨hlookup, hr, hmetric, hkept, hplaced⟩
  exact hfiled.takesEffect_iff fun r => hmeta id r

/-- An index with one record, `d`, which has been due since 1 and is not swept yet. -/
def dueIndex : Memory :=
  { new (MemoryConfig.new .search 0 .cosine) with
    records := (∅ : Assoc Bytes MemoryRecord).insert [100]
      { MemoryRecord.new [100] [] 0 with expireAt := some 1 } }

theorem dueIndex_inOrder : ∀ id r, dueIndex.records.lookup id = some r → InOrder r.metadata := by
  intro id r hr
  have hmem : (id, r) ∈ dueIndex.records.pairs := Assoc.mem_pairs.mpr hr
  rw [show dueIndex.records.pairs =
    [([100], { MemoryRecord.new [100] [] 0 with expireAt := some 1 })] from rfl,
    List.mem_singleton] at hmem
  cases hmem
  exact List.Pairwise.nil

/-- At 5 `d` is added again: the record stays due and is found by nobody. -/
theorem dueIndex_lost : Act.Sat (add { id := some [100] } 10 0) (stillEnv 5) dueIndex {}
    (fun r m' _ => r = .ok [100] ∧ m'.liveRecord [100] 5 = none) (fun _ => False) := by
  decide +kernel

section instances

attribute [local irreducible] add

/-- An addition that succeeds may be lost. -/
theorem not_add_takesEffect : ¬ ∀ (e : Env) (m : Memory),
    (∀ id r, m.records.lookup id = some r → InOrder r.metadata) → ∀ (request : AddRequest) (id : Bytes),
    request.id = some id → ∀ (maxTerms maxRecords : Nat) (w : World),
    Act.Sat (add request maxTerms maxRecords) e m w (fun r m' _ => r = .ok id →
      TakesEffect m m' request id (e.clock w.ticks)) (fun _ => True) := by
  intro h
  have hboth := Act.sat_and (h (stillEnv 5) dueIndex dueIndex_inOrder { id := some [100] } [100] rfl 10 0 {})
    dueIndex_lost
  refine Act.not_sat_false _ (Act.sat_mono hboth ?_ (fun _ h => h.2))
  rintro r m' _ ⟨heffect, hr, hnone⟩
  obtain ⟨r', hr', -⟩ := (heffect hr).text
  cases hnone.symm.trans hr'

theorem add_takesEffect_iff_due :
    Act.Sat (add { id := some [100] } 10 0) (stillEnv 5) dueIndex {} (fun r m' _ => r = .ok [100] →
      (TakesEffect dueIndex m' { id := some [100] } [100] 5 ↔
        Effective dueIndex { id := some [100] } [100] 5)) (fun _ => True) :=
  add_takesEffect_iff (stillEnv 5) dueIndex dueIndex_inOrder { id := some [100] } [100] rfl 10 0 {}

end instances

/-! ## Refused additions -/

/-- The counter does not move exactly when the request brings its own id. -/
theorem numbered_eq_self_iff (m : Memory) (request : AddRequest) :
    m.numbered request = m ↔ request.id.isSome = true := by
  unfold numbered
  cases request.id with
  | some id => exact ⟨fun _ => rfl, fun _ => rfl⟩
  | none =>
    refine ⟨fun h => ?_, fun h => (by cases h)⟩
    have hcounter : (m.nextId + 1) % (u64Max + 1) = m.nextId := congrArg Memory.nextId h
    unfold u64Max at hcounter
    omega

/-- **When a refused addition leaves the index alone.**  The id is drawn before the checks, so it does
exactly when the request brings its own. -/
theorem add_refused_iff (e : Env) (m : Memory) (request : AddRequest) (maxTerms maxRecords : Nat)
    (w : World) : Act.Sat (add request maxTerms maxRecords) e m w (fun r m' _ => ∀ error,
      r = .error error → (m' = m ↔ request.id.isSome = true)) (fun _ => True) := by
  refine sat_add (fun _ _ _ _ => numbered_eq_self_iff m request) fun _ => ?_
  exact Act.sat_mono (Act.sat_true _) (fun _ _ _ _ _ h => by cases h) (fun _ h => h)

section refusals

attribute [local irreducible] add

/-- The second id of an index that is empty: the first was drawn by an addition with the condition
that its record exists. -/
theorem not_add_refused : ¬ ∀ (e : Env) (m : Memory) (request : AddRequest) (maxTerms maxRecords : Nat)
    (w : World), Act.Sat (add request maxTerms maxRecords) e m w (fun r m' _ => ∀ error,
      r = .error error → m' = m) (fun _ => True) := by
  intro h
  have hdrawn : Act.Sat (add { requireExisting := true } 10 0) (stillEnv 5)
      (new (MemoryConfig.new .search 0 .cosine)) {}
      (fun r m' _ => r = .error .existenceUnmet ∧ m'.nextId = 2) (fun _ => False) := by
    decide +kernel
  have hboth := Act.sat_and (h (stillEnv 5) (new (MemoryConfig.new .search 0 .cosine))
    { requireExisting := true } 10 0 {}) hdrawn
  refine Act.not_sat_false _ (Act.sat_mono hboth ?_ (fun _ h => h.2))
  rintro r m' _ ⟨hsame, hr, hnext⟩
  rw [hsame .existenceUnmet hr] at hnext
  cases hnext

end refusals

end Memory

end Klyro
