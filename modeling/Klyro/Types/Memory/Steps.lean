import Klyro.Types.Memory.Searchable
import Klyro.Types.Memory.Slots

/-!
# The operations of an index, step by step

`add` gives its record an id, checks the request, gives the record its deadline, places its vector
and files it.  Each rule here says what is left to show of the next of these steps.

* `sat_add` — the id and the checks; `sat_addChecked` — the deadline and the filing.
* `Memory.added` — the record an addition files, up to its slot.
* `sat_onLive` — a change of one live record.
-/

set_option autoImplicit false

namespace Klyro

namespace Memory

variable {e : Env} {w : World} {m m' : Memory} {request : AddRequest} {id : Bytes} {t : SystemTime}
  {R : Panic → Prop}

/-- The index after the id of a request has been settled. -/
def numbered (m : Memory) (request : AddRequest) : Memory :=
  match request.id with
  | some _ => m
  | none => { m with nextId := (m.nextId + 1) % (u64Max + 1) }

theorem numbered_eq (m : Memory) (request : AddRequest) :
    m.numbered request = { m with nextId := (m.numbered request).nextId } := by
  unfold numbered
  cases request.id <;> rfl

theorem addId_numbered (request : AddRequest) (e : Env) (m : Memory) (w : World) :
    Act.Sat (addId request.id) e m w
      (fun id m' w' => id = m.addedId request ∧ m' = m.numbered request ∧ w' = w) (fun _ => False) := by
  unfold addedId numbered
  cases request.id with
  | some id => exact ⟨rfl, rfl, rfl⟩
  | none => exact ⟨rfl, rfl, rfl⟩

/-- **The rule of `add`**: it is refused, or the checked part runs. -/
theorem sat_add {maxTerms maxRecords : Nat} {Q : Except MemoryError Bytes → Memory → World → Prop}
    (hrefused : ∀ error, m.addRefusal request (m.addedId request) (e.clock w.ticks) maxRecords = some error →
      Q (.error error) (m.numbered request) { w with ticks := w.ticks + 1 })
    (hadded : m.addRefusal request (m.addedId request) (e.clock w.ticks) maxRecords = none →
      Act.Sat (addChecked request (m.addedId request) (e.clock w.ticks) maxTerms) e (m.numbered request)
        { w with ticks := w.ticks + 1 } (fun _ m' w' => Q (.ok (m.addedId request)) m' w') R) :
    Act.Sat (add request maxTerms maxRecords) e m w Q R := by
  have hsame : (m.numbered request).addRefusal request (m.addedId request) (e.clock w.ticks) maxRecords =
      m.addRefusal request (m.addedId request) (e.clock w.ticks) maxRecords := by
    rw [numbered_eq]
    rfl
  unfold add
  rw [Act.sat_bind, sat_now, Act.sat_bind]
  refine Act.sat_mono (addId_numbered request e m _) ?_ (fun p h => h.elim)
  rintro _ _ _ ⟨rfl, rfl, rfl⟩
  rw [Act.sat_bind, Act.sat_get, hsame]
  cases href : m.addRefusal request (m.addedId request) (e.clock w.ticks) maxRecords with
  | some error => exact hrefused error href
  | none =>
    dsimp only
    rw [Act.sat_bind]
    exact hadded href

/-- The record filed by an addition, before its vector is placed. -/
def added (m : Memory) (request : AddRequest) (id : Bytes) (t : SystemTime) : MemoryRecord :=
  match request.ttl with
  | some ttl => { m.addedRecord request id t with expireAt := some (t + (ttl : Int)) }
  | none => m.addedRecord request id t

/-- The index with a record filed in it. -/
def filed (m : Memory) (id : Bytes) (previous : Option Bytes) (r : MemoryRecord) (maxTerms : Nat) :
    Memory :=
  { m with
    text := if m.config.mode.indexesText then m.text.index id previous r.text maxTerms else m.text
    records := m.records.insert id r }

/-- **The rule of the checked part**: the deadline is in range, and the vector is placed. -/
theorem sat_addChecked {maxTerms : Nat} {Q : Unit → Memory → World → Prop}
    (hover : ∀ ttl : Duration, request.ttl = some ttl → inTimeRange (t + (ttl : Int)) = false → R .overflow)
    (hplaced : Act.Sat (placeVector (m.added request id t) request.vector) e m w
      (fun r m' w' => Q () (m'.filed id ((m.records.lookup id).map MemoryRecord.text) r maxTerms) w') R) :
    Act.Sat (addChecked request id t maxTerms) e m w Q R := by
  unfold addChecked
  unfold added at hplaced
  rw [Act.sat_bind, Act.sat_get]
  cases httl : request.ttl with
  | none =>
    rw [httl] at hplaced
    rw [Act.sat_bind, Act.sat_pure, Act.sat_bind]
    exact hplaced
  | some ttl =>
    rw [httl] at hplaced
    simp only [addDuration, Act.sat_bind, Act.sat_ite, Act.sat_pure, Act.sat_panic]
    refine ⟨fun _ => hplaced, fun hrange => hover ttl httl ?_⟩
    rwa [Bool.not_eq_true] at hrange

/-- No deadline is computed where a vector is placed. -/
theorem placeVector_panics (r : MemoryRecord) (vector : Option (List F32)) :
    Act.Sat (placeVector r vector) e m w (fun _ _ _ => True) (· ≠ .overflow) := by
  have hwrite : ∀ (slot : Nat) (values : List F32) (v : VectorIndex) (w : World),
      Act.Sat (VectorIndex.write slot values) e v w (fun _ _ _ => True) (· ≠ .overflow) := by
    intro slot values v w
    unfold VectorIndex.write
    simp [Act.sat_ite]
  unfold placeVector
  cases vector with
  | none => trivial
  | some values =>
    dsimp only
    cases r.slot with
    | some slot =>
      dsimp only
      unfold onVectors VectorIndex.overwrite
      rw [Act.sat_bind, Act.sat_zoom]
      exact Act.sat_mono (hwrite slot values m.vectors w) (fun _ _ _ _ => trivial) (fun _ h => h)
    | none =>
      dsimp only
      unfold onVectors VectorIndex.insert VectorIndex.takeSlot
      rw [Act.sat_bind, Act.sat_zoom, Act.sat_bind, Act.sat_bind, Act.sat_get]
      cases m.vectors.free.getLast? with
      | some slot =>
        simp only [Act.sat_bind, Act.sat_set, Act.sat_pure, Act.sat_modify]
        exact Act.sat_mono (hwrite slot values _ w) (fun _ _ _ _ => trivial) (fun _ h => h)
      | none =>
        simp only [Act.sat_ite, Act.sat_bind, Act.sat_set, Act.sat_panic, Act.sat_pure, Act.sat_modify]
        refine ⟨fun _ => by simp, fun _ => ⟨fun _ => by simp, fun _ => ?_⟩⟩
        exact Act.sat_mono (hwrite _ values _ w) (fun _ _ _ _ => trivial) (fun _ h => h)

/-- The index with a live record replaced. -/
def withRecord (m : Memory) (id : Bytes) (r : MemoryRecord) : Memory :=
  { m with records := m.records.insert id r }

/-- **The rule of a change of one record**: nobody is there, or the record is changed. -/
theorem sat_onLive {α : Type} {f : SystemTime → MemoryRecord → Run Memory (α × MemoryRecord)}
    {Q : Except MemoryError α → Memory → World → Prop}
    (hnone : m.liveRecord id (e.clock w.ticks) = none →
      Q (.error .noSuchRecord) m { w with ticks := w.ticks + 1 })
    (hsome : ∀ r, m.liveRecord id (e.clock w.ticks) = some r →
      Act.Sat (f (e.clock w.ticks) r) e m { w with ticks := w.ticks + 1 }
        (fun p m' w' => Q (.ok p.1) (m'.withRecord id p.2) w') R) :
    Act.Sat (onLive id f) e m w Q R := by
  unfold onLive
  simp only [Act.sat_bind, sat_now, Act.sat_get]
  cases hl : m.liveRecord id (e.clock w.ticks) with
  | none => exact hnone hl
  | some r =>
    rw [Act.sat_bind]
    exact hsome r hl

theorem liveRecord_some {r : MemoryRecord} (h : m.liveRecord id t = some r) :
    m.records.lookup id = some r ∧ r.isLive t = true :=
  Option.filter_eq_some_iff.mp h

end Memory

end Klyro
