import Mathlib.Logic.Relation
import Klyro.Commands.Dispatch
import Klyro.Commands.Gate

/-!
# What a request changes outside the keyspace

* `Change` — one change of the registries or of the client being served.
* `Changes` — a row of them.
* `dispatch_changes`, `retry_changes` — a whole request is such a row, so a relation that every
  single change keeps is kept by every request.
-/

set_option autoImplicit false

namespace Klyro

open Served

/-! ## Changes -/

/-- The registry of watched keys with one more watcher of a key. -/
def Watch.entered (w : Watch) (key : Bytes) : Watch :=
  { keys := w.keys.insert key ⟨(w.version key).getD 0, (w.counts key).getD 0 + 1⟩ }

/-- The registry of watched keys once one watcher of a key has left. -/
def Watch.released (w : Watch) (key : Bytes) : Watch :=
  match w.keys.lookup key with
  | none => w
  | some entry =>
    if entry.watchers ≤ 1 then { keys := w.keys.erase key }
    else { keys := w.keys.insert key { entry with watchers := entry.watchers - 1 } }

/-- The registry once a client has left all its watched keys. -/
def Watch.releasedAll (w : Watch) (watched : List (Bytes × Nat)) : Watch :=
  watched.foldl (fun w p => w.released p.1) w

/-- What no registry holds, nor a client of the registries, is all that differs. -/
structure Aside (s s' : Served) : Prop where
  pubsub : s'.app.pubsub = s.app.pubsub
  watch : s'.app.watch = s.app.watch
  history : s'.app.history = s.app.history
  blocked : s'.app.blocked = s.app.blocked
  readyKeys : s'.app.readyKeys = s.app.readyKeys
  outbox : s'.app.outbox = s.app.outbox
  nextClientId : s'.app.nextClientId = s.app.nextClientId
  id : s'.client.id = s.client.id
  protocol : s'.client.protocol = s.client.protocol
  watched : s'.client.watched = s.client.watched
  channels : s'.client.channels = s.client.channels
  patterns : s'.client.patterns = s.client.patterns
  parked : s'.client.blocked = s.client.blocked

/-- One change a request makes. -/
inductive Change (s : Served) : Served → Prop where
  /-- The keyspace, the configuration, the counters, a transaction. -/
  | aside {s' : Served} (h : Aside s s') : Change s s'
  /-- A key is signalled as modified. -/
  | signalled (key : Bytes) : Change s { s with app := { s.app with
      watch := s.app.watch.touch key, history := .signalled key :: s.app.history } }
  /-- A key joins the wake-up scan. -/
  | readied (key : Bytes) : Change s { s with app := { s.app with
      readyKeys := s.app.readyKeys ++ [key] } }
  /-- Every key is signalled. -/
  | flushed : Change s { s with app := { s.app with
      watch := s.app.watch.touchAll
      readyKeys := s.app.readyKeys ++ s.app.blocked.flatMap Blocked.keys
      history := .flushed :: s.app.history } }
  /-- The client watches one more key. -/
  | watched (key : Bytes) (h : ∀ p ∈ s.client.watched, p.1 ≠ key) : Change s
      { app := { s.app with
          watch := s.app.watch.entered key
          history := .watched s.client.id key :: s.app.history }
        client := { s.client with
          watched := s.client.watched ++ [(key, (s.app.watch.version key).getD 0)] } }
  /-- The client's watch list is dropped. -/
  | dropped : Change s
      { app := { s.app with
          watch := s.app.watch.releasedAll s.client.watched
          history := .dropped s.client.id :: s.app.history }
        client := { s.client with watched := [] } }
  /-- A subscription. -/
  | joined (patterns : Bool) (name : Bytes) : Change s (PubSubs.subscribed patterns name s)
  /-- The end of one. -/
  | parted (patterns : Bool) (name : Bytes) : Change s (PubSubs.unsubscribed patterns name s)
  /-- The end of all. -/
  | left : Change s
      { app := { s.app with
          pubsub := s.client.patterns.foldl (fun p name => p.punsubscribe name s.client.id)
            (s.client.channels.foldl (fun p name => p.unsubscribe name s.client.id) s.app.pubsub) }
        client := { s.client with channels := [], patterns := [] } }
  /-- A publication leaves frames for other connections. -/
  | published (channel payload : Bytes) : Change s { s with app := { s.app with
      outbox := s.app.outbox ++
        PubSubs.otherFrames s.client.id (s.app.pubsub.publish channel payload) } }

/-- A row of changes. -/
def Changes : Served → Served → Prop := Relation.ReflTransGen Change

instance : IsPreorder Served Changes where
  refl _ := Relation.ReflTransGen.refl
  trans _ _ _ := Relation.ReflTransGen.trans

theorem Change.changes {s s' : Served} (h : Change s s') : Changes s s' := .single h

/-- **What every change keeps, a row of them keeps.** -/
theorem Changes.keep {I : Served → Prop} (step : ∀ {s s'}, Change s s' → I s → I s')
    {s s' : Served} (h : Changes s s') (hs : I s) : I s' := by
  induction h with
  | refl => exact hs
  | tail _ hc ih => exact step hc ih

/-- Changes of the server while a client, whichever it is, waits. -/
def AppChanges (a a' : App) : Prop := ∀ c, Changes ⟨a, c⟩ ⟨a', c⟩

instance : IsPreorder App AppChanges where
  refl _ _ := refl_of Changes _
  trans _ _ _ h h' c := trans_of Changes (h c) (h' c)

/-- The server apart from its registries. -/
structure AsideApp (a a' : App) : Prop where
  pubsub : a'.pubsub = a.pubsub
  watch : a'.watch = a.watch
  history : a'.history = a.history
  blocked : a'.blocked = a.blocked
  readyKeys : a'.readyKeys = a.readyKeys
  outbox : a'.outbox = a.outbox
  nextClientId : a'.nextClientId = a.nextClientId

theorem AsideApp.changes {a a' : App} (h : AsideApp a a') : AppChanges a a' := by
  intro c
  apply Change.changes
  exact .aside ⟨h.pubsub, h.watch, h.history, h.blocked, h.readyKeys, h.outbox, h.nextClientId,
    rfl, rfl, rfl, rfl, rfl, rfl⟩

instance : IsPreorder App AsideApp where
  refl _ := ⟨rfl, rfl, rfl, rfl, rfl, rfl, rfl⟩
  trans _ _ _ h h' := ⟨h'.pubsub.trans h.pubsub, h'.watch.trans h.watch, h'.history.trans h.history,
    h'.blocked.trans h.blocked, h'.readyKeys.trans h.readyKeys, h'.outbox.trans h.outbox,
    h'.nextClientId.trans h.nextClientId⟩

section walk

variable {α : Type} {name : String} {argv : List Bytes}

/-! ## The parts of the state -/

theorem onStore_changes (m : Run Store α) : Act.Within AppChanges (App.onStore m) :=
  Act.within_zoom (R := fun _ _ => True) (fun _ _ _ => Act.sat_true _) fun _ _ _ =>
    AsideApp.changes ⟨rfl, rfl, rfl, rfl, rfl, rfl, rfl⟩

theorem onApp_changes {m : Run App α} (h : Act.Within AppChanges m) : Act.Within Changes (onApp m) :=
  Act.within_zoom h fun s _ hc => hc s.client

theorem aside_changes {f : App → App} (h : ∀ a, AsideApp a (f a)) :
    Act.Within AppChanges (Act.modify f : Run App Unit) :=
  Act.within_modify fun a => (h a).changes

theorem change_changes {f : App → App} (h : ∀ a c, Change ⟨a, c⟩ ⟨f a, c⟩) :
    Act.Within AppChanges (Act.modify f : Run App Unit) :=
  Act.within_modify fun a c => (h a c).changes

theorem same_changes {m : Run App α}
    (h : ∀ e a w, Act.Sat m e a w (fun _ a' _ => a' = a) (fun _ => True)) :
    Act.Within AppChanges m := Act.within_of_same h

/-- A change of what a client holds of no registry. -/
theorem client_changes {m : Run Client α} (h : ∀ e c w, Act.Sat m e c w (fun _ c' _ =>
      c'.id = c.id ∧ c'.protocol = c.protocol ∧ c'.watched = c.watched ∧ c'.channels = c.channels ∧
        c'.patterns = c.patterns ∧ c'.blocked = c.blocked) (fun _ => True)) :
    Act.Within Changes (onClient m) := by
  refine Act.within_zoom h fun s c hc => ?_
  obtain ⟨hid, hprotocol, hwatched, hchannels, hpatterns, hblocked⟩ := hc
  apply Change.changes
  exact .aside ⟨rfl, rfl, rfl, rfl, rfl, rfl, rfl, hid, hprotocol, hwatched, hchannels, hpatterns,
    hblocked⟩

theorem clientSet_changes {f : Client → Client} (h : ∀ c, (f c).id = c.id ∧
      (f c).protocol = c.protocol ∧ (f c).watched = c.watched ∧ (f c).channels = c.channels ∧
        (f c).patterns = c.patterns ∧ (f c).blocked = c.blocked) :
    Act.Within Changes (onClient (Act.modify f)) :=
  client_changes fun _ c _ => h c

/-! ## Signals and eviction -/

theorem signalModified_changes (key : Bytes) : Act.Within AppChanges (App.signalModified key) := by
  refine Act.within_bind (change_changes fun _ _ => .signalled key) fun _ => ?_
  refine Act.within_bind Act.within_get fun a => Act.within_ite (Act.within_pure _) ?_
  refine Act.within_bind (onStore_changes _) fun type => ?_
  exact Act.within_ite (change_changes fun _ _ => .readied key) (Act.within_pure _)

theorem signalWrites_changes (response : Response) :
    Act.Within AppChanges (signalWrites name argv response) := by
  unfold signalWrites
  refine Act.within_ite (Act.within_pure _) ?_
  split
  · exact Act.within_pure _
  · exact change_changes fun _ _ => .flushed
  · exact Act.within_forList signalModified_changes _

theorem countLookups_changes (before : Nat × Nat) :
    Act.Within AppChanges (countLookups name before) := by
  refine aside_changes fun a => ?_
  split <;> exact ⟨rfl, rfl, rfl, rfl, rfl, rfl, rfl⟩

theorem withinLimit_changes : Act.Within AppChanges App.withinLimit :=
  Act.within_bind Act.within_get fun _ => Act.within_ite (Act.within_pure _) <|
    Act.within_bind (same_changes fun _ _ _ => rfl) fun _ => Act.within_pure _

theorem evictLoop_changes (policy : Policy) (n : Nat) :
    Act.Within AppChanges (App.evictLoop policy n) := by
  induction n with
  | zero => exact Act.within_pure _
  | succ n ih =>
    refine Act.within_bind Act.within_get fun a => Act.within_ite (Act.within_pure _) ?_
    refine Act.within_bind (onStore_changes _) fun candidates => ?_
    cases App.choose policy candidates with
    | none => exact Act.within_pure _
    | some victim =>
      refine Act.within_bind (onStore_changes _) fun gone => Act.within_ite ?_ ih
      refine Act.within_bind (aside_changes fun _ => ⟨rfl, rfl, rfl, rfl, rfl, rfl, rfl⟩) fun _ => ?_
      refine Act.within_bind (signalModified_changes _) fun _ => ?_
      exact Act.within_bind withinLimit_changes fun _ => Act.within_ite (Act.within_pure _) ih

theorem makeRoom_changes : Act.Within AppChanges App.makeRoom :=
  Act.within_bind withinLimit_changes fun _ => Act.within_ite (Act.within_pure _) <|
    Act.within_bind Act.within_get fun _ => Act.within_ite (Act.within_pure _) (evictLoop_changes _ _)

theorem memoryGate_changes : Act.Within AppChanges (memoryGate name) :=
  Act.within_bind Act.within_get fun _ => Act.within_ite (Act.within_pure _) <|
    Act.within_bind makeRoom_changes fun _ => Act.within_pure _

theorem save_changes : Act.Within AppChanges App.save :=
  Act.within_bind Act.within_get fun _ => Act.within_bind (onStore_changes _) fun _ =>
    Act.within_bind (same_changes fun _ _ _ => rfl) fun _ =>
      Act.within_bind (aside_changes fun _ => ⟨rfl, rfl, rfl, rfl, rfl, rfl, rfl⟩) fun _ =>
        Act.within_pure _

/-! ## Server commands -/

namespace Server

theorem sectionBody_changes (name : String) : Act.Within AppChanges (sectionBody name) := by
  refine Act.within_bind Act.within_get fun a => ?_
  split
  · exact Act.within_bind (same_changes fun _ _ _ => rfl) fun _ =>
      Act.within_bind (same_changes fun _ _ _ => rfl) fun _ => Act.within_pure _
  · exact Act.within_pure _
  · exact Act.within_bind (same_changes fun _ _ _ => rfl) fun _ =>
      Act.within_bind (same_changes fun _ _ _ => rfl) fun _ => Act.within_pure _
  · exact Act.within_pure _
  · exact Act.within_pure _
  · exact Act.within_bind (onStore_changes _) fun _ =>
      Act.within_bind (onStore_changes _) fun _ => Act.within_pure _
  · exact Act.within_bind (onStore_changes _) fun _ => Act.within_bind (onStore_changes _) fun _ =>
      Act.within_bind (onStore_changes _) fun _ => Act.within_pure _
  · exact Act.within_pure _

theorem appendSections_changes (names : List String) :
    ∀ out, Act.Within AppChanges (appendSections names out) := by
  induction names with
  | nil => exact fun _ => Act.within_pure _
  | cons name names ih => exact fun _ => Act.within_bind (sectionBody_changes name) fun _ => ih _

theorem config_changes : Act.Within AppChanges (config argv) := by
  unfold config
  refine Act.within_ite (Act.within_pure _) ?_
  split
  · refine Act.within_ite (Act.within_pure _) ?_
    exact Act.within_bind Act.within_get fun _ => Act.within_pure _
  · refine Act.within_ite (Act.within_pure _) (Act.within_bind Act.within_get fun a => ?_)
    refine Act.within_bind (aside_changes fun _ => ⟨rfl, rfl, rfl, rfl, rfl, rfl, rfl⟩) fun _ => ?_
    split <;> exact Act.within_pure _
  · exact Act.within_bind (aside_changes fun _ => ⟨rfl, rfl, rfl, rfl, rfl, rfl, rfl⟩) fun _ =>
      Act.within_pure _
  · exact Act.within_pure _

theorem clientCommand_changes : Act.Within Changes (onClient (clientCommand argv)) := by
  refine client_changes fun e c w => ?_
  unfold clientCommand
  split
  · exact ⟨rfl, rfl, rfl, rfl, rfl, rfl⟩
  · rw [Act.sat_bind, Act.sat_get]
    split
    · exact ⟨rfl, rfl, rfl, rfl, rfl, rfl⟩
    · exact ⟨rfl, rfl, rfl, rfl, rfl, rfl⟩
    · split
      · exact ⟨rfl, rfl, rfl, rfl, rfl, rfl⟩
      · split
        · exact ⟨rfl, rfl, rfl, rfl, rfl, rfl⟩
        · exact ⟨rfl, rfl, rfl, rfl, rfl, rfl⟩
    · exact ⟨rfl, rfl, rfl, rfl, rfl, rfl⟩
    · exact ⟨rfl, rfl, rfl, rfl, rfl, rfl⟩
    · exact ⟨rfl, rfl, rfl, rfl, rfl, rfl⟩

theorem dispatch_changes : Act.Within Changes (dispatch name argv) := by
  unfold dispatch
  have hend : ∀ reply : Reply, Act.Within Changes (pure
      { replies := [reply], close := name = "QUIT" || name = "SHUTDOWN",
        protocol := switchedProtocol name argv reply } : Run Served Response) :=
    fun _ => Act.within_pure _
  cases harm : arms.lookup name with
  | none => exact hend _
  | some handler =>
    refine Act.within_bind ?_ hend
    have hmem := mem_of_lookup harm
    simp only [arms, List.mem_cons, Prod.mk.injEq, List.not_mem_nil, or_false] at hmem
    rcases hmem with ⟨-, rfl⟩ | ⟨-, rfl⟩ | ⟨-, rfl⟩ | ⟨-, rfl⟩ | ⟨-, rfl⟩ | ⟨-, rfl⟩ | ⟨-, rfl⟩ |
      ⟨-, rfl⟩ | ⟨-, rfl⟩ | ⟨-, rfl⟩
    · exact Act.within_pure _
    · exact Act.within_pure _
    · exact Act.within_bind Act.within_get fun _ => Act.within_pure _
    · exact clientCommand_changes
    · exact Act.within_pure _
    · refine onApp_changes (Act.within_ite (Act.within_pure _) ?_)
      exact Act.within_bind (appendSections_changes _ _) fun _ => Act.within_pure _
    · exact onApp_changes config_changes
    · exact Act.within_bind (onApp_changes save_changes) fun _ => Act.within_pure _
    · exact Act.within_pure _
    · refine Act.within_bind (onApp_changes (aside_changes fun _ => ?_)) fun _ => Act.within_pure _
      exact ⟨rfl, rfl, rfl, rfl, rfl, rfl, rfl⟩

end Server

/-! ## Pub/sub commands -/

namespace PubSubs

theorem confirmed_changes {kind : String} {change : Bytes → Served → Served}
    (h : ∀ name s, Change s (change name s)) (name : Bytes) :
    Act.Within Changes (confirmed kind change name) :=
  Act.within_bind (Act.within_modify fun s => (h name s).changes) fun _ =>
    Act.within_bind Act.within_get fun _ => Act.within_pure _

theorem subscribe_changes (patterns : Bool) (names : List Bytes) :
    Act.Within Changes (subscribe patterns names) :=
  Act.within_mapList (confirmed_changes fun _ _ => .joined patterns _) _

theorem unsubscribe_changes (patterns : Bool) (names : List Bytes) :
    Act.Within Changes (unsubscribe patterns names) := by
  refine Act.within_bind Act.within_get fun s => Act.within_ite (Act.within_pure _) ?_
  exact Act.within_mapList (confirmed_changes fun _ _ => .parted patterns _) _

/-- Publishing counts the message and addresses its frames in one go. -/
theorem publish_changes (channel payload : Bytes) :
    Act.Within Changes (publish channel payload) := by
  intro e s w
  show Changes s _
  refine trans_of Changes (Change.published channel payload).changes ?_
  apply Change.changes
  exact .aside ⟨rfl, rfl, rfl, rfl, rfl, rfl, rfl, rfl, rfl, rfl, rfl, rfl, rfl⟩

theorem dispatch_changes : Act.Within Changes (dispatch name argv) := by
  unfold dispatch
  cases harm : arms.lookup name with
  | none => exact Act.within_pure _
  | some arm =>
    have hmem := mem_of_lookup harm
    simp only [arms, List.mem_cons, Prod.mk.injEq, List.not_mem_nil, or_false] at hmem
    rcases hmem with ⟨-, rfl⟩ | ⟨-, rfl⟩ | ⟨-, rfl⟩ | ⟨-, rfl⟩ | ⟨-, rfl⟩ | ⟨-, rfl⟩
    · exact Act.within_ite (Act.within_pure _) (Act.within_map (subscribe_changes _ _))
    · exact Act.within_ite (Act.within_pure _) (Act.within_map (subscribe_changes _ _))
    · exact Act.within_map (unsubscribe_changes _ _)
    · exact Act.within_map (unsubscribe_changes _ _)
    · exact Act.within_ite (Act.within_pure _) (publish_changes _ _)
    · exact Act.within_ite (Act.within_pure _)
        (Act.within_bind Act.within_get fun _ => Act.within_pure _)

end PubSubs

/-! ## Transactions -/

theorem Watch.unwatch_released (key : Bytes) (e : Env) (w : Watch) (c : World) :
    Act.Sat (Watch.unwatch key) e w c (fun _ w' c' => w' = w.released key ∧ c' = c)
      (fun _ => True) := by
  unfold Watch.unwatch Watch.released
  rw [Act.sat_bind, Act.sat_get]
  cases hentry : w.keys.lookup key with
  | none => exact ⟨rfl, rfl⟩
  | some entry =>
    obtain ⟨version, watchers⟩ := entry
    cases watchers with
    | zero => trivial
    | succ n =>
      cases n with
      | zero => exact ⟨rfl, rfl⟩
      | succ n =>
        refine ⟨?_, rfl⟩
        simp

theorem App.unwatchAll_releasedAll (client : Client) (e : Env) (a : App) (w : World) :
    Act.Sat (App.unwatchAll client) e a w (fun client' a' _ =>
      client' = { client with watched := [] } ∧
        a' = { a with
          watch := a.watch.releasedAll client.watched
          history := .dropped client.id :: a.history }) (fun _ => True) := by
  have hloop : ∀ (watched : List (Bytes × Nat)) (a : App) (w : World),
      Act.Sat (Act.forList (fun p => App.onWatch (Watch.unwatch p.1)) watched) e a w
        (fun _ a' _ => a' = { a with watch := a.watch.releasedAll watched }) (fun _ => True) := by
    intro watched
    induction watched with
    | nil => exact fun _ _ => rfl
    | cons p watched ih =>
      intro a w
      unfold Act.forList App.onWatch
      rw [Act.sat_bind, Act.sat_zoom]
      refine Act.sat_mono (Watch.unwatch_released p.1 e a.watch w) ?_ (fun _ h => h)
      rintro _ w' c' ⟨rfl, rfl⟩
      exact ih _ _
  unfold App.unwatchAll
  rw [Act.sat_bind]
  refine Act.sat_mono (hloop client.watched a w) ?_ (fun _ h => h)
  rintro _ a' w' rfl
  exact ⟨rfl, rfl⟩

namespace Transactions

theorem unwatchAll_changes : Act.Within Changes unwatchAll := by
  intro e s w
  unfold unwatchAll
  rw [Act.sat_bind, Act.sat_get, Act.sat_bind]
  unfold onApp
  rw [Act.sat_zoom]
  refine Act.sat_mono (App.unwatchAll_releasedAll s.client e s.app w) ?_ (fun _ h => h)
  rintro client a w' ⟨rfl, rfl⟩
  exact Change.dropped.changes

theorem watchOne_changes (key : Bytes) : Act.Within Changes (watchOne key) := by
  intro e s w
  unfold watchOne
  rw [Act.sat_bind, Act.sat_get]
  split
  · exact refl_of Changes s
  · rename_i hfresh
    simp only [List.any_eq_true, decide_eq_true_eq, not_exists, not_and] at hfresh
    show Changes s _
    have hentry : ((s.app.watch.keys.lookup key).getD ⟨0, 0⟩) =
        ⟨(s.app.watch.version key).getD 0, (s.app.watch.counts key).getD 0⟩ := by
      unfold Watch.version Watch.counts
      cases s.app.watch.keys.lookup key <;> rfl
    have h := (Change.watched key hfresh).changes
    unfold Watch.entered at h
    simpa [hentry] using h

theorem discard_changes : Act.Within Changes discard :=
  Act.within_bind (clientSet_changes fun _ => ⟨rfl, rfl, rfl, rfl, rfl, rfl⟩) fun _ =>
    unwatchAll_changes

theorem answered_changes {reply : Reply} {m : Run Served Unit} (h : Act.Within Changes m) :
    Act.Within Changes (answered reply m) :=
  Act.within_bind h fun _ => Act.within_pure _

theorem exec_changes {runQueued : List (List Bytes) → Run Served (List Response)}
    (h : ∀ queued, Act.Within Changes (runQueued queued)) : Act.Within Changes (exec runQueued) := by
  refine Act.within_bind Act.within_get fun s => ?_
  cases s.client.transaction with
  | none => exact Act.within_pure _
  | some transaction =>
    refine Act.within_bind (clientSet_changes fun _ => ⟨rfl, rfl, rfl, rfl, rfl, rfl⟩) fun _ => ?_
    refine Act.within_bind unwatchAll_changes fun _ => ?_
    refine Act.within_ite (Act.within_pure _) (Act.within_ite (Act.within_pure _) ?_)
    refine Act.within_bind (onApp_changes (aside_changes fun _ => ?_)) fun _ => ?_
    · exact ⟨rfl, rfl, rfl, rfl, rfl, rfl, rfl⟩
    refine Act.within_bind (clientSet_changes fun _ => ⟨rfl, rfl, rfl, rfl, rfl, rfl⟩) fun _ => ?_
    refine Act.within_bind (h _) fun _ => ?_
    exact Act.within_bind (clientSet_changes fun _ => ⟨rfl, rfl, rfl, rfl, rfl, rfl⟩) fun _ =>
      Act.within_pure _

theorem dispatch_changes {exec : Run Served Response} (hexec : Act.Within Changes exec) :
    Act.Within Changes (dispatch exec name argv) := by
  unfold dispatch
  cases harm : (arms exec).lookup name with
  | none => exact Act.within_pure _
  | some arm =>
    have hmem := mem_of_lookup harm
    simp only [arms, List.mem_cons, Prod.mk.injEq, List.not_mem_nil, or_false] at hmem
    rcases hmem with ⟨-, rfl⟩ | ⟨-, rfl⟩ | ⟨-, rfl⟩ | ⟨-, rfl⟩ | ⟨-, rfl⟩ | ⟨-, rfl⟩
    · refine Act.within_bind Act.within_get fun _ => Act.within_ite (Act.within_pure _) ?_
      refine Act.within_ite (Act.within_pure _) (answered_changes (clientSet_changes fun _ => ?_))
      exact ⟨rfl, rfl, rfl, rfl, rfl, rfl⟩
    · exact Act.within_bind Act.within_get fun _ => Act.within_ite (Act.within_pure _)
        (Act.within_ite (Act.within_pure _) (answered_changes discard_changes))
    · exact Act.within_bind Act.within_get fun _ => Act.within_ite (Act.within_pure _)
        (Act.within_ite (Act.within_pure _)
          (answered_changes (Act.within_forList watchOne_changes _)))
    · exact Act.within_ite (Act.within_pure _) (answered_changes unwatchAll_changes)
    · exact Act.within_ite (Act.within_pure _) hexec
    · exact answered_changes (Act.within_bind discard_changes fun _ =>
        Act.within_modify fun _ => Change.left.changes)

end Transactions

/-! ## A request -/

theorem onArms_changes (arms : Config → Arms) : Act.Within Changes (onArms arms name argv) :=
  Act.within_bind Act.within_get fun _ =>
    Act.within_bind (onApp_changes (onStore_changes _)) fun _ => Act.within_pure _

theorem runWith_changes {exec : Run Served Response} (hexec : Act.Within Changes exec) :
    Act.Within Changes (runWith exec name argv) := by
  unfold runWith
  split
  · exact Server.dispatch_changes
  · exact Transactions.dispatch_changes hexec
  · exact PubSubs.dispatch_changes
  · exact Act.within_bind Act.within_get fun s => onApp_changes (onStore_changes _)
  · exact onArms_changes _
  · exact onArms_changes _
  · exact onArms_changes _
  · exact onArms_changes _
  · exact onArms_changes _
  · exact onArms_changes _
  · exact onArms_changes _
  · exact Act.within_pure _

theorem executeWith_changes {exec : Run Served Response} (hexec : Act.Within Changes exec) :
    Act.Within Changes (executeWith exec name argv) := by
  refine Act.within_bind (onApp_changes (aside_changes fun _ => ?_)) fun _ => ?_
  · exact ⟨rfl, rfl, rfl, rfl, rfl, rfl, rfl⟩
  refine Act.within_bind Act.within_get fun s => Act.within_ite (Act.within_pure _) ?_
  refine Act.within_bind (onApp_changes memoryGate_changes) fun refusal => ?_
  cases refusal with
  | some refusal => exact Act.within_pure _
  | none =>
    refine Act.within_bind Act.within_get fun s => ?_
    refine Act.within_bind (runWith_changes hexec) fun response => ?_
    refine Act.within_bind (onApp_changes (countLookups_changes _)) fun _ => ?_
    exact Act.within_bind (onApp_changes (signalWrites_changes _)) fun _ => Act.within_pure _

theorem runQueuedOne_changes (argv : List Bytes) : Act.Within Changes (runQueuedOne argv) :=
  executeWith_changes (Transactions.exec_changes fun _ => Act.within_pure _)

theorem exec_changes : Act.Within Changes exec :=
  Transactions.exec_changes fun queued => Act.within_mapList runQueuedOne_changes queued

theorem execute_changes (name : String) (argv : List Bytes) :
    Act.Within Changes (execute name argv) := executeWith_changes exec_changes

/-- **A request of a client is a row of changes.** -/
theorem dispatch_changes (argv : List Bytes) : Act.Within Changes (dispatch argv) := by
  refine Act.within_ite (Act.within_pure _) ?_
  refine Act.within_bind Act.within_get fun s => Act.within_ite ?_ ?_
  · refine Act.within_bind (client_changes fun e c w => ?_) fun _ => Act.within_pure _
    unfold Transactions.queue
    rw [Act.sat_bind, Act.sat_get, Act.sat_bind]
    cases c.transaction with
    | none => trivial
    | some transaction =>
      rw [Act.sat_expect_some]
      split <;> exact ⟨rfl, rfl, rfl, rfl, rfl, rfl⟩
  · exact Act.within_bind (execute_changes _ _) fun _ => Act.within_pure _

/-- **So is a parked command run again.** -/
theorem retry_changes (argv : List Bytes) : Act.Within Changes (retry argv) := by
  refine Act.within_bind (execute_changes _ _) fun response => ?_
  refine Act.within_bind (onApp_changes (aside_changes fun _ => ?_)) fun _ => Act.within_pure _
  exact ⟨rfl, rfl, rfl, rfl, rfl, rfl, rfl⟩

end walk

end Klyro
