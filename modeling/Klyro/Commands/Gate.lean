import Klyro.Commands.Execute

/-!
# The memory gate and the signals

What the steps around a handler leave alone: evictions take keys away and signal them, signals
touch the versions of watched keys and fill the list of ready keys.

* `App.rest` — the parts of the shared state that neither of them changes.
* `signalWrites_rest`, `memoryGate_rest` — the two lemmas that say so.
-/

set_option autoImplicit false

namespace Klyro

open Keyspace

/-! ## Watchers -/

/-- How many watchers each key has in the registry. -/
def Watch.counts (w : Watch) (key : Bytes) : Option Nat := (w.keys.lookup key).map Watched.watchers

theorem Watch.counts_touch (w : Watch) (key : Bytes) : (w.touch key).counts = w.counts := by
  funext k
  unfold Watch.counts Watch.touch
  rw [Assoc.lookup_adjust]
  split
  · rename_i hk
    rw [hk, Option.map_map]
    rfl
  · rfl

theorem Watch.counts_touchAll (w : Watch) : w.touchAll.counts = w.counts := by
  have hfold : ∀ (keys : List Bytes) (m : Assoc Bytes Watched) (k : Bytes),
      ((keys.foldl (fun m key => m.adjust key Watch.Watched.touched) m).lookup k).map Watched.watchers =
        (m.lookup k).map Watched.watchers := by
    intro keys
    induction keys with
    | nil => exact fun _ _ => rfl
    | cons key keys ih =>
      intro m k
      rw [List.foldl_cons, ih, Assoc.lookup_adjust]
      split
      · rename_i hk
        rw [hk, Option.map_map]
        rfl
      · rfl
  funext k
  exact hfold _ _ k

/-! ## What stays -/

/-- The parts of the shared state that evictions and signals leave alone. -/
structure App.Rest where
  persist : Persist
  config : Config
  running : Bool
  pubsub : PubSub
  counts : Bytes → Option Nat
  blocked : List Blocked
  outbox : List (Nat × Reply)
  nextClientId : Nat
  lastSweep : Option Instant

/-- Those parts. -/
def App.rest (a : App) : App.Rest where
  persist := a.persist
  config := a.config
  running := a.running
  pubsub := a.pubsub
  counts := a.watch.counts
  blocked := a.blocked
  outbox := a.outbox
  nextClientId := a.nextClientId
  lastSweep := a.lastSweep

section rest

variable {α : Type} {name : String} {argv : List Bytes}

theorem onStore_rest (m : Run Store α) : Act.Preserves App.rest (App.onStore m) :=
  Act.preserves_zoom fun _ _ => rfl

theorem signalModified_rest (key : Bytes) : Act.Preserves App.rest (App.signalModified key) := by
  refine Act.preserves_bind (Act.preserves_modify fun a => ?_) fun _ =>
    Act.preserves_bind Act.preserves_get fun a => ?_
  · unfold App.rest
    simp only [Watch.counts_touch]
  · refine Act.preserves_ite (Act.preserves_pure _) (Act.preserves_bind (onStore_rest _) fun _ => ?_)
    exact Act.preserves_ite (Act.preserves_modify fun _ => rfl) (Act.preserves_pure _)

theorem signalWrites_rest (r : Response) : Act.Preserves App.rest (signalWrites name argv r) := by
  unfold signalWrites
  refine Act.preserves_ite (Act.preserves_pure _) ?_
  split
  · exact Act.preserves_pure _
  · refine Act.preserves_modify fun a => ?_
    unfold App.rest
    simp only [Watch.counts_touchAll]
  · exact Act.preserves_forList signalModified_rest _

theorem withinLimit_rest : Act.Preserves App.rest App.withinLimit :=
  Act.preserves_bind Act.preserves_get fun _ => Act.preserves_ite (Act.preserves_pure _) <|
    Act.preserves_bind (fun _ _ _ => rfl) fun _ => Act.preserves_pure _

theorem evictLoop_rest (policy : Policy) (n : Nat) : Act.Preserves App.rest (App.evictLoop policy n) := by
  induction n with
  | zero => exact Act.preserves_pure _
  | succ n ih =>
    refine Act.preserves_bind Act.preserves_get fun a => Act.preserves_ite (Act.preserves_pure _) ?_
    refine Act.preserves_bind (onStore_rest _) fun candidates => ?_
    cases App.choose policy candidates with
    | none => exact Act.preserves_pure _
    | some victim =>
      refine Act.preserves_bind (onStore_rest _) fun gone => Act.preserves_ite ?_ ih
      refine Act.preserves_bind (Act.preserves_modify fun _ => rfl) fun _ => ?_
      refine Act.preserves_bind (signalModified_rest _) fun _ => ?_
      exact Act.preserves_bind withinLimit_rest fun _ => Act.preserves_ite (Act.preserves_pure _) ih

theorem memoryGate_rest : Act.Preserves App.rest (memoryGate name) := by
  refine Act.preserves_bind Act.preserves_get fun a => Act.preserves_ite (Act.preserves_pure _) ?_
  refine Act.preserves_bind ?_ fun _ => Act.preserves_pure _
  refine Act.preserves_bind withinLimit_rest fun _ => Act.preserves_ite (Act.preserves_pure _) ?_
  refine Act.preserves_bind Act.preserves_get fun a => ?_
  exact Act.preserves_ite (Act.preserves_pure _) (evictLoop_rest _ _)

/-- A command that the memory limit does not refuse passes the gate. -/
theorem memoryGate_none {e : Env} {a : App} {w : World} (h : deniesOom name = false) :
    Act.Sat (memoryGate name) e a w (fun r a' w' => r = none ∧ memoryGate name e a w = .done r a' w')
      (fun p => memoryGate name e a w = .panicked p) := by
  have hnone : Act.Sat (memoryGate name) e a w (fun r _ _ => r = none) (fun _ => True) := by
    unfold memoryGate
    rw [Act.sat_bind, Act.sat_get, Act.sat_ite]
    refine ⟨fun _ => rfl, fun _ => ?_⟩
    rw [Act.sat_bind]
    refine Act.sat_mono (Act.sat_true _) ?_ (fun _ h => h)
    intro fits a' w' _
    rw [h, Bool.not_false, Bool.or_true]
    rfl
  unfold Act.Sat at hnone ⊢
  split at hnone
  · rename_i r a' w' hrun
    rw [hrun]
    exact ⟨hnone, rfl⟩
  · rename_i p hrun
    rw [hrun]

end rest

end Klyro
