import Klyro.Effects.Memories
import Klyro.Trends.Generic

/-!
# Which way the memory index commands move the keyspace

* `del_lighter`, `onLive_lighter` — records leave an index, or lose metadata.
* `index_marks` — a handler that edits an index in place counts the change afterwards, unless the
  edit was refused.
* `Memories.trend` — every memory command.
-/

set_option autoImplicit false

namespace Klyro

open Store

/-! ## What an index holds -/

namespace VectorIndex

theorem slotBytes_congr {v v' : VectorIndex} (hdim : v'.dim = v.dim)
    (hlength : v'.data.length = v.data.length) (slot : Option Nat) :
    v'.slotBytes slot = v.slotBytes slot := by
  cases slot with
  | none => rfl
  | some slot =>
    unfold slotBytes
    simp only [Option.bind_some, get, hdim, hlength]
    by_cases h : slot * v.dim + v.dim ≤ v.data.length
    · simp only [if_pos h, List.length_take, List.length_drop, hlength]
    · simp only [if_neg h]

theorem remove_slotBytes (v : VectorIndex) (slot : Nat) (other : Option Nat) :
    (v.remove slot).slotBytes other = v.slotBytes other := by
  unfold remove
  dsimp only
  split
  · rfl
  · apply slotBytes_congr
    · rfl
    · simp only [List.length_append, List.length_take, List.length_replicate, List.length_drop]
      omega

end VectorIndex

namespace MemoryRecord

theorem removeMeta_lighter (r : MemoryRecord) (field : Bytes) :
    (r.removeMeta field).2.metadata.Sublist r.metadata ∧ (r.removeMeta field).2.text = r.text ∧
      (r.removeMeta field).2.slot = r.slot := by
  unfold removeMeta
  split
  · exact ⟨List.eraseIdx_sublist _ _, rfl, rfl⟩
  · exact ⟨List.Sublist.refl _, rfl, rfl⟩

theorem removeMetaAll_lighter (fields : List Bytes) : ∀ r : MemoryRecord,
    (removeMetaAll fields r).2.metadata.Sublist r.metadata ∧
      (removeMetaAll fields r).2.text = r.text ∧ (removeMetaAll fields r).2.slot = r.slot := by
  induction fields with
  | nil => exact fun r => ⟨List.Sublist.refl _, rfl, rfl⟩
  | cons field fields ih =>
    intro r
    obtain ⟨hmeta, htext, hslot⟩ := removeMeta_lighter r field
    obtain ⟨hmetas, htexts, hslots⟩ := ih (r.removeMeta field).2
    exact ⟨hmetas.trans hmeta, htexts.trans htext, hslots.trans hslot⟩

end MemoryRecord

namespace Memory

theorem del_lighter (m : Memory) (id : Bytes) (maxTerms : Nat) :
    Lighter .memory m (m.del id maxTerms).2 := by
  unfold del
  cases m.records.lookup id with
  | none => exact le_rfl
  | some record =>
    have hbytes : ∀ v : VectorIndex, (∀ slot, v.slotBytes slot = m.vectors.slotBytes slot) →
        Assoc.total (recordBytes v) (m.records.erase id) ≤
          Assoc.total (recordBytes m.vectors) m.records := by
      intro v hv
      have hsame : recordBytes v = recordBytes m.vectors := by
        funext p
        exact congrArg (_ + ·) (hv p.2.slot)
      rw [hsame]
      exact Assoc.total_erase_le id
    cases hslot : record.slot with
    | none =>
      dsimp only
      rw [hslot]
      exact hbytes m.vectors fun _ => rfl
    | some slot =>
      dsimp only
      rw [hslot]
      exact hbytes (m.vectors.remove slot) (VectorIndex.remove_slotBytes _ slot)

theorem delAll_lighter (maxTerms : Nat) (ids : List Bytes) :
    ∀ m : Memory, Lighter .memory m (delAll maxTerms ids m).2 := by
  induction ids with
  | nil => exact fun m => refl_of (Lighter .memory) m
  | cons id ids ih =>
    exact fun m => trans_of (Lighter .memory) (del_lighter m id maxTerms) (ih _)

/-- A record may be replaced by one that weighs no more. -/
theorem insert_lighter {m : Memory} {id : Bytes} {record record' : MemoryRecord}
    (hrecord : m.records.lookup id = some record)
    (hless : recordBytes m.vectors (id, record') ≤ recordBytes m.vectors (id, record)) :
    Lighter .memory m { m with records := m.records.insert id record' } := by
  show Assoc.total (recordBytes m.vectors) (m.records.insert id record') ≤
    Assoc.total (recordBytes m.vectors) m.records
  rw [Assoc.total_insert, ← Assoc.total_erase_add hrecord]
  exact Nat.add_le_add_right hless _

/-- A live record that is changed to one that weighs no more. -/
theorem onLive_lighter {α : Type} {id : Bytes}
    {f : SystemTime → MemoryRecord → Run Memory (α × MemoryRecord)}
    (hf : ∀ t record e m w, Act.Sat (f t record) e m w (fun r m' _ => m' = m ∧
      r.2.metadata.Sublist record.metadata ∧ r.2.text = record.text ∧ r.2.slot = record.slot)
      (fun _ => True)) : Act.Within (Lighter .memory) (onLive id f) := by
  refine Act.within_bind (Act.within_of_same fun _ _ _ => rfl) fun t => ?_
  intro e m w
  rw [Act.sat_bind, Act.sat_get]
  cases hlive : m.liveRecord id t with
  | none => exact refl_of (Lighter .memory) m
  | some record =>
    obtain ⟨hrecord, -⟩ := Option.filter_eq_some_iff.mp hlive
    dsimp only
    rw [Act.sat_bind]
    refine Act.sat_mono (hf t record e m w) ?_ (fun _ h => h)
    rintro r m' w' ⟨rfl, hmeta, htext, hslot⟩
    refine insert_lighter hrecord ?_
    have hbytes : metaBytes r.2.metadata ≤ metaBytes record.metadata :=
      (hmeta.map fun p : Bytes × Bytes => p.1.length + p.2.length).sum_le_sum fun _ _ => Nat.zero_le _
    show id.length + r.2.text.length + metaBytes r.2.metadata + m'.vectors.slotBytes r.2.slot ≤
      id.length + record.text.length + metaBytes record.metadata + m'.vectors.slotBytes record.slot
    rw [htext, hslot]
    omega

theorem removeMeta_lighter (id : Bytes) (fields : List Bytes) :
    Act.Within (Lighter .memory) (removeMeta id fields) :=
  onLive_lighter fun _ record _ _ _ => ⟨rfl, MemoryRecord.removeMetaAll_lighter fields record⟩

section durations

attribute [local irreducible] addDuration

theorem setRecordTtl_lighter (id : Bytes) (ttl : Option Duration) :
    Act.Within (Lighter .memory) (setRecordTtl id ttl) := by
  refine onLive_lighter fun t record e m w => ?_
  cases ttl with
  | none => exact ⟨rfl, List.Sublist.refl _, rfl, rfl⟩
  | some d =>
    have hsame : Act.Sat (addDuration t d) e m w (fun _ m' _ => m' = m) (fun _ => True) := by
      unfold addDuration
      split
      · rfl
      · trivial
    dsimp only
    rw [Act.sat_bind]
    refine Act.sat_mono hsame ?_ (fun _ h => h)
    rintro _ m' _ rfl
    exact ⟨rfl, List.Sublist.refl _, rfl, rfl⟩

end durations

/-! ## What a refusal leaves -/

/-- The records, the configuration and the indexes: all but the counter. -/
def Untouched (m m' : Memory) : Prop := (Value.memory m').stored = (Value.memory m).stored

/-- The rest of `add`, once the id is known. -/
theorem addRest_refused {m m₁ : Memory} (hm : m.Untouched m₁) (request : AddRequest)
    (maxTerms maxRecords : Nat) (id : Bytes) (t : SystemTime) (e : Env) (w : World) :
    Act.Sat (do
      let m ← Act.get
      match m.addRefusal request id t maxRecords with
      | some error => pure (.error error)
      | none => do
        addChecked request id t maxTerms
        pure (.ok id) : Run Memory (Except MemoryError Bytes)) e m₁ w
      (fun added m' _ => (∃ error, added = .error error) → m.Untouched m') (fun _ => True) := by
  rw [Act.sat_bind, Act.sat_get]
  cases m₁.addRefusal request id t maxRecords with
  | some error => exact fun _ => hm
  | none =>
    rw [Act.sat_bind]
    refine Act.sat_mono (Act.sat_true _) ?_ (fun _ h => h)
    rintro _ _ _ - ⟨error, h⟩
    cases h

theorem add_refused (request : AddRequest) (maxTerms maxRecords : Nat) (e : Env) (m : Memory)
    (w : World) : Act.Sat (add request maxTerms maxRecords) e m w
      (fun added m' _ => (∃ error, added = .error error) → m.Untouched m') (fun _ => True) := by
  have hid : ∀ w, Act.Sat (addId request.id) e m w (fun _ m' _ => m.Untouched m') (fun _ => True) := by
    intro w
    cases request.id with
    | none => rfl
    | some id => rfl
  unfold add
  rw [Act.sat_bind]
  refine Act.sat_bind.mpr (Act.sat_mono (hid _) ?_ (fun _ h => h))
  exact fun id m₁ w₁ hm => addRest_refused hm request maxTerms maxRecords id _ e w₁

theorem onLive_refused {α : Type} (id : Bytes)
    (f : SystemTime → MemoryRecord → Run Memory (α × MemoryRecord)) (e : Env) (m : Memory) (w : World) :
    Act.Sat (onLive id f) e m w
      (fun done m' _ => (∃ error, done = .error error) → m.Untouched m') (fun _ => True) := by
  unfold onLive
  rw [Act.sat_bind]
  show Act.Sat (Act.get >>= _) e m _ _ _
  rw [Act.sat_bind, Act.sat_get]
  cases m.liveRecord id (e.clock w.ticks) with
  | none => exact fun _ => rfl
  | some record =>
    dsimp only
    rw [Act.sat_bind]
    refine Act.sat_mono (Act.sat_true _) ?_ (fun _ h => h)
    rintro _ _ _ - ⟨error, h⟩
    cases h

end Memory

/-! ## The lookup -/

namespace Memories

variable {α β : Type} {key : Bytes} {argv : List Bytes} {use : Run Memory α}

theorem index_glances (huse : Peeks use) : Act.WithinE Glances (index key use) := by
  unfold index
  refine Act.withinE_bind (withinE_look (peekType_glances key)) fun found => ?_
  split
  · refine Act.withinE_bind (withinE_look (existingMemory_glances fun e m w => ?_)) fun _ =>
      withinE_expect _ _
    exact Act.sat_mono (huse e m w) (fun _ _ _ h => h.1) (fun _ _ => trivial)
  · exact Act.withinE_throw _
  · exact Act.withinE_throw _

theorem index_shrinks (huse : Act.Within (Lighter .memory) use) :
    Act.WithinE Shrinks (index key use) := by
  unfold index
  refine Act.withinE_bind (withinE_look (peekType_glances key)) fun found => ?_
  split
  · exact Act.withinE_bind (Act.withinE_lift (existingMemory_shrinks huse key)) fun _ =>
      withinE_expect _ _
  · exact Act.withinE_throw _
  · exact Act.withinE_throw _

/-- A change is counted. -/
def Grows (s s' : Store) : Prop := s.dirty < s'.dirty

theorem counted_grows (reply : Reply) : Act.WithinE Grows (do
    Store.markDirty
    return reply : Cmd Reply) := fun _ s _ => Nat.lt_succ_self s.dirty

/-- An edit of an index that is counted afterwards, unless it was refused and left the index as it
was. -/
theorem index_marks {P : α → Prop} {rest : α → Cmd β}
    (huse : ∀ e m w, Act.Sat use e m w (fun a m' _ => P a → m.Untouched m') (fun _ => True))
    (hrefused : ∀ a, P a → Act.WithinE Marked (rest a))
    (hcounts : ∀ a, ¬P a → Act.WithinE Grows (rest a)) :
    Act.WithinE Marked (index key use >>= rest) := by
  unfold index
  rw [bind_assoc]
  refine Act.withinE_bind (withinE_look (peekType_glances key)) fun found => ?_
  split
  · rw [Act.withinE_iff]
    intro e s w
    simp only [Act.satE_bind, Act.satE_lift]
    refine Act.sat_mono (existingMemory_edits huse) ?_ (fun _ h => h)
    rintro found s' w' ⟨hrises, hmarks⟩
    cases found with
    | none => exact Act.satE_lift.mpr trivial
    | some a =>
      show Act.SatE (rest a) e s' w' _ _ _
      by_cases ha : P a
      · have hmarked : Marked s s' := hmarks fun _ h => by
          cases h
          exact ha
        exact Act.satE_mono (Act.withinE_iff.mp (hrefused a ha) e s' w')
          (fun _ _ _ h => trans_of Marked hmarked h) (fun _ _ _ h => trans_of Marked hmarked h)
          (fun _ h => h)
      · have hless : s.dirty ≤ s'.dirty := hrises
        exact Act.satE_mono (Act.withinE_iff.mp (hcounts a ha) e s' w')
          (fun _ _ _ h => .of_lt (Nat.lt_of_le_of_lt hless h))
          (fun _ _ _ h => .of_lt (Nat.lt_of_le_of_lt hless h)) (fun _ h => h)
  · exact fun _ s _ => refl_of Marked s
  · exact fun _ s _ => refl_of Marked s

/-- A change that is counted in any case. -/
theorem index_counted {rest : α → Cmd β} (hcounts : ∀ a, Act.WithinE Grows (rest a)) :
    Act.WithinE Marked (index key use >>= rest) :=
  index_marks (P := fun _ => False) (fun _ _ _ => Act.sat_mono (Act.sat_true _) (fun _ _ _ _ => False.elim)
    (fun _ h => h)) (fun _ => False.elim) fun a _ => hcounts a

/-- An edit that may be refused. -/
theorem index_described {use : Run Memory (Except MemoryError α)} {reply : α → Reply}
    (huse : ∀ e m w, Act.Sat use e m w
      (fun done m' _ => (∃ error, done = .error error) → m.Untouched m') (fun _ => True)) :
    Act.WithinE Marked (do
      let done ← index key use
      let done ← orDescribe done
      Store.markDirty
      return reply done : Cmd Reply) := by
  refine index_marks huse ?_ ?_
  · rintro _ ⟨error, rfl⟩
    exact fun _ s _ => refl_of Marked s
  · intro done hdone
    cases done with
    | error error => exact absurd ⟨error, rfl⟩ hdone
    | ok a => exact counted_grows _

/-! ## The commands -/

theorem counted_shrinks (reply : Reply) : Act.WithinE Shrinks (do
    Store.markDirty
    return reply : Cmd Reply) :=
  Act.withinE_bind (Act.withinE_lift markDirty_shrinks) fun _ => Act.withinE_pure _

theorem create_marks (config : Config) : Act.WithinE Marked (create config argv) := by
  unfold create
  refine Act.withinE_bind (withinE_minArgs _ _) fun _ => ?_
  refine Act.withinE_bind (withinE_fixed (createOptions_fixed _ _ _ _)) fun o => ?_
  refine Act.withinE_bind (withinE_fixed (createConfig_fixed o)) fun memoryConfig => ?_
  refine Act.withinE_bind (withinE_look (peekType_glances _)) fun taken => ?_
  have hstore : Act.WithinE Marked (do
      let _ ← Store.createMemory (arg argv 1) (Memory.new memoryConfig)
      return Reply.ok : Cmd Reply) :=
    Act.withinE_bind (Act.withinE_lift (createMemory_marks _ _)) fun _ => Act.withinE_pure _
  refine Act.withinE_ite ?_ hstore
  refine Act.withinE_bind (withinE_look (peekType_glances _)) fun found => ?_
  split
  · exact Act.withinE_bind (Act.withinE_throw _) fun _ => hstore
  · exact Act.withinE_bind (Act.withinE_throw _) fun _ => hstore

theorem config_marks : Act.WithinE Marked (config argv) :=
  Act.withinE_bind (withinE_minArgs _ _) fun _ =>
    Act.withinE_bind (withinE_fixed (configOptions_fixed _ _ _)) fun _ =>
    index_counted fun _ => counted_grows _

theorem config_shrinks : Act.WithinE Shrinks (config argv) := by
  refine Act.withinE_bind (withinE_minArgs _ _) fun _ => ?_
  refine Act.withinE_bind (withinE_fixed (configOptions_fixed _ _ _)) fun o => ?_
  exact Act.withinE_bind (index_shrinks (Act.within_modify fun _ => Nat.le_refl _)) fun _ =>
    counted_shrinks _

theorem add_marks (serverConfig : Config) : Act.WithinE Marked (add serverConfig argv) := by
  refine Act.withinE_bind (withinE_minArgs _ _) fun _ => ?_
  refine Act.withinE_bind (withinE_fixed (addOptions_fixed _ _ _ _)) fun o => ?_
  exact withinE_guard (withinE_guard (index_described (Memory.add_refused _ _ _)))

theorem del_marks (serverConfig : Config) : Act.WithinE Marked (del serverConfig argv) :=
  Act.withinE_bind (withinE_minArgs _ _) fun _ => index_counted fun _ => counted_grows _

theorem del_shrinks (serverConfig : Config) : Act.WithinE Shrinks (del serverConfig argv) := by
  refine Act.withinE_bind (withinE_minArgs _ _) fun _ => ?_
  refine Act.withinE_bind (index_shrinks (within_state (V := .memory) fun m => ?_)) fun _ =>
    counted_shrinks _
  exact Memory.delAll_lighter _ _ m

theorem setMeta_marks : Act.WithinE Marked (setMeta argv) :=
  Act.withinE_bind (withinE_minArgs _ _) fun _ => withinE_guard <|
    index_described (Memory.onLive_refused _ _)

theorem delMeta_marks : Act.WithinE Marked (delMeta argv) :=
  Act.withinE_bind (withinE_minArgs _ _) fun _ => index_described (Memory.onLive_refused _ _)

theorem delMeta_shrinks : Act.WithinE Shrinks (delMeta argv) :=
  Act.withinE_bind (withinE_minArgs _ _) fun _ =>
    Act.withinE_bind (index_shrinks (Memory.removeMeta_lighter _ _)) fun removed =>
    Act.withinE_bind (withinE_fixed (orDescribe_fixed removed)) fun _ => counted_shrinks _

theorem expire_marks : Act.WithinE Marked (expire argv) := by
  unfold expire
  refine Act.withinE_bind (withinE_exactArgs _ _) fun _ => ?_
  refine Act.withinE_bind (withinE_intArg _) fun seconds => withinE_guard ?_
  refine index_marks (Memory.onLive_refused _ _) ?_ ?_
  · rintro _ ⟨error, rfl⟩
    cases error <;> exact fun _ s _ => refl_of Marked s
  · intro done hdone
    cases done with
    | error error => exact absurd ⟨error, rfl⟩ hdone
    | ok a => exact counted_grows _

theorem expire_shrinks : Act.WithinE Shrinks (expire argv) := by
  unfold expire
  refine Act.withinE_bind (withinE_exactArgs _ _) fun _ => ?_
  refine Act.withinE_bind (withinE_intArg _) fun seconds => withinE_guard ?_
  refine Act.withinE_bind (index_shrinks (Memory.setRecordTtl_lighter _ _)) fun done => ?_
  split
  · exact Act.withinE_pure _
  · exact Act.withinE_bind (withinE_fixed (orDescribe_fixed done)) fun _ => counted_shrinks _

/-- **Memory commands.** -/
theorem trend {serverConfig : Config} {name : String} {handler : Handler}
    (h : (name, handler) ∈ arms serverConfig) (argv : List Bytes) : Trend name (handler argv) := by
  have hdescribe : ∀ r : Except MemoryError Reply, Act.WithinE Glances (orDescribe r) := fun r =>
    withinE_fixed (orDescribe_fixed r)
  simp only [arms, List.mem_cons, Prod.mk.injEq, List.not_mem_nil, or_false] at h
  rcases h with ⟨rfl, rfl⟩ | ⟨rfl, rfl⟩ | ⟨rfl, rfl⟩ | ⟨rfl, rfl⟩ | ⟨rfl, rfl⟩ | ⟨rfl, rfl⟩ |
    ⟨rfl, rfl⟩ | ⟨rfl, rfl⟩ | ⟨rfl, rfl⟩ | ⟨rfl, rfl⟩ | ⟨rfl, rfl⟩ | ⟨rfl, rfl⟩ | ⟨rfl, rfl⟩ |
    ⟨rfl, rfl⟩ | ⟨rfl, rfl⟩
  · exact .fills rfl rfl (create_marks _)
  · exact .reads (Act.withinE_bind (withinE_exactArgs _ _) fun _ => index_glances <|
      peeks_bind peeks_get fun _ => peeks_bind peeks_heapBytes fun _ => peeks_pure _)
  · exact .drains rfl config_shrinks config_marks
  · exact .reads (Act.withinE_bind (withinE_exactArgs _ _) fun _ => index_glances <|
      peeks_bind peeks_get fun _ => peeks_pure _)
  · exact .fills rfl rfl (add_marks _)
  · exact .reads (Act.withinE_bind (withinE_minArgs _ _) fun _ =>
      Act.withinE_bind (withinE_fixed (getFlags_fixed _ _)) fun _ =>
      Act.withinE_bind (index_glances (peeks_mapList (getOne_peeks _) _)) fun _ => Act.withinE_pure _)
  · exact .reads (Act.withinE_bind (withinE_minArgs _ _) fun _ =>
      Act.withinE_bind (index_glances (peeks_mapList (getOne_peeks _) _)) fun _ => Act.withinE_pure _)
  · exact .drains rfl (del_shrinks _) (del_marks _)
  · exact .fills rfl rfl setMeta_marks
  · exact .drains rfl delMeta_shrinks delMeta_marks
  · exact .drains rfl expire_shrinks expire_marks
  · exact .reads (Act.withinE_bind (withinE_minArgs _ _) fun _ =>
      Act.withinE_bind (withinE_intArg _) fun _ => withinE_guard <|
      Act.withinE_bind (withinE_fixed (scanOptions_fixed _ _ _)) fun _ =>
      Act.withinE_bind (index_glances (memoryScan_peeks _ _ _)) fun _ => Act.withinE_pure _)
  · exact .reads (Act.withinE_bind (withinE_minArgs _ _) fun _ =>
      Act.withinE_bind (withinE_fixed (searchOptions_fixed _ _ _ _)) fun _ =>
      Act.withinE_bind (index_glances (peeks_bind (searchText_peeks _ _ _ _) fun _ =>
        answerHits_peeks _ _)) hdescribe)
  · exact .reads (Act.withinE_bind (withinE_minArgs _ _) fun _ =>
      Act.withinE_bind (withinE_fixed (vsearchOptions_fixed _ _ _ _)) fun _ =>
      Act.withinE_bind (withinE_orThrow _ _) fun _ =>
      Act.withinE_bind (index_glances (peeks_bind peeks_get fun _ =>
        peeks_bind (searchVector_peeks _ _ _ _) fun _ => answerHits_peeks _ _)) hdescribe)
  · exact .reads (Act.withinE_bind (withinE_minArgs _ _) fun _ =>
      Act.withinE_bind (withinE_fixed (queryOptions_fixed _ _ _ _)) fun _ => withinE_guard <|
      Act.withinE_bind (index_glances (peeks_bind peeks_get fun _ =>
        peeks_bind (memoryQuery_peeks _ _ _ _ _ _ _ _) fun _ => answerHits_peeks _ _)) hdescribe)

end Memories

end Klyro
