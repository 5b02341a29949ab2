import Klyro.Lib.Settled
import Klyro.Types.Memory.Index

/-!
# Operations on an index at one instant

At a clock that stands, how an operation on an index ends is settled by the index.

* `settled_now` — a reading of such a clock.
* `Memory.steady_add` and its companions — the operations, one by one.
-/

set_option autoImplicit false

namespace Klyro

open Act

section surroundings

variable {σ τ : Type} {I : σ → Prop} {f : σ → τ} {e : Env} {t : SystemTime}

theorem settled_now (ht : e.StandsAt t) : Act.Settled I f e (now : Run σ SystemTime) :=
  settled_of (fun _ => t) id fun _ w hs => ⟨hs, ht w.ticks, rfl⟩

theorem settled_env : Act.Settled I f e (env : Run σ Env) := settled_of (fun _ => e) id fun _ _ hs => ⟨hs, rfl, rfl⟩

theorem settled_addDuration (t : SystemTime) (d : Duration) : Act.Settled I f e (addDuration t d) :=
  settled_ite (settled_pure _) (settled_panic _)

end surroundings

namespace VectorIndex

variable {e : Env}

theorem steady_write (slot : Nat) (values : List F32) : Steady e (write slot values) := by
  unfold write
  exact settled_bind steady_get fun v => settled_ite (steady_set _) (settled_panic _)

theorem steady_takeSlot : Steady e takeSlot := by
  unfold takeSlot
  refine settled_bind steady_get fun v => ?_
  split
  · exact settled_bind (steady_set _) fun _ => settled_pure _
  · refine settled_ite (settled_panic _) (settled_bind (steady_set _) fun _ => ?_)
    exact settled_ite (settled_panic _) (settled_pure _)

theorem steady_insert (values : List F32) : Steady e (insert values) :=
  settled_bind steady_takeSlot fun slot => settled_bind (steady_modify _) fun _ =>
    settled_bind (steady_write slot values) fun _ => settled_pure slot

end VectorIndex

namespace Memory

variable {α : Type} {e : Env} {t : SystemTime}

theorem steady_loadRecord (record : MemoryRecord) (vector : Option (List F32)) (maxTerms : Nat) :
    Steady e (loadRecord record vector maxTerms) := by
  unfold loadRecord
  refine settled_bind (steady_modify _) fun _ => settled_bind steady_get fun m => ?_
  cases vector with
  | none => exact settled_bind (settled_pure none) fun _ => steady_modify _
  | some values =>
    refine settled_ite ?_ (settled_bind (settled_pure none) fun _ => steady_modify _)
    refine settled_bind (steady_zoom (VectorIndex.steady_insert values)) fun slot => ?_
    exact settled_bind (settled_pure (some slot)) fun _ => steady_modify _

theorem steady_placeVector (record : MemoryRecord) (vector : Option (List F32)) :
    Steady e (placeVector record vector) := by
  cases vector with
  | none => exact settled_pure _
  | some values =>
    unfold placeVector
    cases record.slot with
    | some slot =>
      exact settled_bind (steady_zoom (VectorIndex.steady_write slot values)) fun _ => settled_pure _
    | none =>
      exact settled_bind (steady_zoom (VectorIndex.steady_insert values)) fun _ => settled_pure _

theorem steady_addChecked (request : AddRequest) (id : Bytes) (t : SystemTime) (maxTerms : Nat) :
    Steady e (addChecked request id t maxTerms) := by
  unfold addChecked
  refine settled_bind steady_get fun m => ?_
  cases request.ttl with
  | some ttl =>
    refine settled_bind (settled_addDuration t ttl) fun _ => settled_bind (settled_pure _) fun _ => ?_
    exact settled_bind (steady_placeVector _ _) fun _ => steady_modify _
  | none =>
    refine settled_bind (settled_pure _) fun _ => ?_
    exact settled_bind (steady_placeVector _ _) fun _ => steady_modify _

theorem steady_addId (id : Option Bytes) : Steady e (addId id) := by
  cases id with
  | some id => exact settled_pure id
  | none => exact steady_state _

section standing

variable (ht : e.StandsAt t)

include ht

theorem steady_add (request : AddRequest) (maxTerms maxRecords : Nat) :
    Steady e (add request maxTerms maxRecords) := by
  unfold add
  refine settled_bind (settled_now ht) fun t => settled_bind (steady_addId request.id) fun id => ?_
  refine settled_bind steady_get fun m => ?_
  split
  · exact settled_pure _
  · exact settled_bind (steady_addChecked request id t maxTerms) fun _ => settled_pure _

theorem steady_onLive {id : Bytes} {f : SystemTime → MemoryRecord → Run Memory (α × MemoryRecord)}
    (hf : ∀ t record, Steady e (f t record)) : Steady e (onLive id f) := by
  unfold onLive
  refine settled_bind (settled_now ht) fun t => settled_bind steady_get fun m => ?_
  split
  · exact settled_pure _
  · exact settled_bind (hf t _) fun _ => settled_bind (steady_modify _) fun _ => settled_pure _

theorem steady_setMeta (id : Bytes) (pairs : List (Bytes × Bytes)) : Steady e (setMeta id pairs) :=
  steady_onLive ht fun _ _ => settled_pure _

theorem steady_removeMeta (id : Bytes) (fields : List Bytes) : Steady e (removeMeta id fields) :=
  steady_onLive ht fun _ _ => settled_pure _

theorem steady_setRecordTtl (id : Bytes) (ttl : Option Duration) : Steady e (setRecordTtl id ttl) := by
  refine steady_onLive ht fun t record => ?_
  cases ttl with
  | some d => exact settled_bind (settled_addDuration t d) fun _ => settled_pure _
  | none => exact settled_pure _

theorem steady_lookup (id : Bytes) : Steady e (get id) :=
  settled_bind (settled_now ht) fun _ => settled_bind steady_get fun _ => settled_pure _

theorem steady_recordPttl (id : Bytes) : Steady e (recordPttl id) :=
  settled_bind (settled_now ht) fun _ => settled_bind steady_get fun _ => settled_pure _

theorem steady_sortedIds : Steady e sortedIds :=
  settled_bind (settled_now ht) fun _ => settled_bind steady_get fun _ => settled_pure _

theorem steady_scan (cursor count : Nat) (filter : Filter) : Steady e (scan cursor count filter) := by
  unfold scan
  refine settled_bind (settled_now ht) fun t => settled_bind (steady_sortedIds ht) fun ids => ?_
  refine settled_bind steady_get fun m => settled_ite (settled_pure _) ?_
  exact settled_ite (settled_panic _) (settled_pure _)

theorem steady_searchVector (query : List F32) (limit : Nat) (filter : Filter) (maxScan : Nat) :
    Steady e (searchVector query limit filter maxScan) := by
  unfold searchVector
  refine settled_bind steady_get fun m => settled_ite (settled_pure _) ?_
  refine settled_ite (settled_pure _) (settled_ite (settled_pure _) ?_)
  exact settled_bind (settled_now ht) fun _ => settled_pure _

theorem steady_searchText (query : Bytes) (limit : Nat) (filter : Filter) (maxTerms : Nat) :
    Steady e (searchText query limit filter maxTerms) := by
  unfold searchText
  refine settled_bind steady_get fun m => settled_ite (settled_pure _) ?_
  exact settled_bind (settled_now ht) fun _ => settled_bind settled_env fun _ => settled_pure _

theorem steady_queryRest (keyword : List (Bytes × F32)) (vectorQuery : Option (List F32)) (limit : Nat)
    (filter : Filter) (weights : Weights) (fusion : Fusion) (maxScan : Nat) :
    Steady e (queryRest keyword vectorQuery limit filter weights fusion maxScan) := by
  have hfused : ∀ vector : List (Bytes × F32), Steady e (do
      let t ← now
      let e ← env
      let m ← Act.get
      pure (.ok (fuse e.powf keyword vector (fun id => m.records.lookup id) weights fusion
        m.config.halfLife t)) : Run Memory (Except MemoryError (List Hit))) := fun vector =>
    settled_bind (settled_now ht) fun _ => settled_bind settled_env fun _ =>
      settled_bind steady_get fun _ => settled_pure _
  unfold queryRest
  cases vectorQuery with
  | some query =>
    refine settled_bind (steady_searchVector ht query limit filter maxScan) fun vector => ?_
    cases vector with
    | error _ => exact settled_pure _
    | ok vector => exact hfused vector
  | none => exact hfused []

theorem steady_query (textQuery : Option Bytes) (vectorQuery : Option (List F32)) (limit : Nat)
    (filter : Filter) (weights : Weights) (fusion : Fusion) (maxTerms maxScan : Nat) :
    Steady e (query textQuery vectorQuery limit filter weights fusion maxTerms maxScan) := by
  unfold query
  have hrest := fun keyword => steady_queryRest ht keyword vectorQuery limit filter weights fusion maxScan
  cases textQuery with
  | some query =>
    refine settled_bind (steady_searchText ht query limit filter maxTerms) fun keyword => ?_
    cases keyword with
    | error _ => exact settled_pure _
    | ok keyword => exact hrest keyword
  | none => exact hrest []

theorem steady_clone : Steady e clone := by
  unfold clone recordsForDump
  refine settled_bind ?_ fun records => settled_bind steady_get fun m => settled_beside _ ?_
  · exact settled_bind (settled_now ht) fun _ => settled_bind (steady_sortedIds ht) fun _ =>
      settled_bind steady_get fun _ => settled_pure _
  · refine settled_bind (settled_forList (fun p => steady_loadRecord p.1 p.2 u64Max) records) fun _ => ?_
    exact settled_bind steady_get fun _ => settled_pure _

end standing

end Memory

end Klyro
