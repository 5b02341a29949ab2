import Mathlib.Logic.Function.Basic
import Klyro.Commands.Changes

/-!
# The server and its clients

* `Hub` — the shared state with every connected client.
* `Hub.Event`, `Hub.run` — connections, requests, wake-ups, timeouts, deliveries, housekeeping and
  disconnects, one after the other in any order.
* `Hub.Step` — what any of them can do to the registries; `run_steps` says that a run does nothing
  else, and `Hub.Steps.keep` turns what every step keeps into what every run keeps.
-/

set_option autoImplicit false

namespace Klyro

open Served

/-- The shared state and the connected clients. -/
structure Hub where
  app : App
  clients : Nat → Option Client

namespace Hub

/-- `App::new` over a loaded keyspace, before anybody connects. -/
def start (store : Store) (persist : Persist) (config : Config) (stats : Stats) : Hub where
  app := { store := store, persist := persist, config := config, stats := stats }
  clients := fun _ => none

/-- A client in place of the one with its id. -/
def put (h : Hub) (id : Nat) (app : App) (client : Client) : Hub :=
  { app := app, clients := Function.update h.clients id (some client) }

/-- Run on the shared state. -/
def onApp {α : Type} (m : Run App α) : Run Hub α :=
  Act.zoom Hub.app (fun a h => { h with app := a }) m

/-- Run for a client. -/
def serve {α : Type} (id : Nat) (client : Client) (m : Run Served α) : Run Hub α :=
  Act.zoom (fun h => ⟨h.app, client⟩) (fun s h => h.put id s.app s.client) m

end Hub

/-- What the event loop does with a response before it writes the replies. -/
def Response.settle (response : Response) : Run Served Unit := Act.modify fun s =>
  let client := { s.client with protocol := response.protocol.getD s.client.protocol }
  match response.block with
  | none => { s with client := client }
  | some block =>
    { app := { s.app with blocked := s.app.blocked ++ [block] }
      client := { client with blocked := true } }

/-- One request of a client, up to the replies. -/
def served (argv : List Bytes) : Run Served (Option Response) := do
  match ← dispatch argv with
  | none => pure none
  | some response => do
    response.settle
    pure (some response)

namespace Hub

/-- What can happen to the server. -/
inductive Event where
  /-- A client connects. -/
  | connect (addr : String)
  /-- A request of a client. -/
  | request (id : Nat) (argv : List Bytes)
  /-- The parked command at a place in the registry is run again. -/
  | retry (index : Nat)
  /-- The parked commands whose deadline has passed are answered. -/
  | timeouts
  /-- The outbox is handed out. -/
  | deliver
  /-- Housekeeping. -/
  | tick
  /-- A client is gone. -/
  | disconnect (id : Nat)

/-- A client stops waiting. -/
def unpark (waiter : Blocked) : Run Hub Unit := Act.modify fun h =>
  match h.clients waiter.id with
  | none => h
  | some client => h.put waiter.id h.app { client with blocked := false }

/-- One event. -/
def Event.step : Event → Run Hub Unit
  | .connect addr => do
    let id ← Hub.onApp App.takeClientId
    let created ← instantNow
    Act.modify fun h => h.put id h.app { id := id, addr := addr, created := created }
  | .request id argv => do
    let h ← Act.get
    match h.clients id with
    | none => pure ()
    | some client =>
      if client.blocked then pure ()
      else do
        let _ ← serve id client (served argv)
        pure ()
  | .retry index => do
    let h ← Act.get
    match h.app.blocked[index]? with
    | none => pure ()
    | some waiter => do
      Hub.onApp (Act.modify fun a => { a with blocked := a.blocked.eraseIdx index })
      match h.clients waiter.id with
      | none => pure ()
      | some client => do
        match ← serve waiter.id client (Klyro.retry waiter.argv) with
        | some _ => unpark waiter
        | none => Hub.onApp (Act.modify fun a =>
            { a with blocked := a.blocked.insertIdx index waiter })
  | .timeouts => do
    let late ← Hub.onApp App.takeTimedOut
    Act.forList unpark late
  | .deliver => Hub.onApp (Act.modify fun a => { a with outbox := [] })
  | .tick => Hub.onApp App.tick
  | .disconnect id => do
    let h ← Act.get
    match h.clients id with
    | none => pure ()
    | some client => do
      let _ ← Hub.onApp (App.forgetClient client)
      Act.modify fun h => { h with clients := Function.update h.clients id none }

/-- Events one after the other. -/
def run (events : List Event) : Run Hub Unit := Act.forList Event.step events

/-! ## Steps -/

/-- The registries of subscriptions and watched keys, and the ids given away. -/
structure Kept (a a' : App) : Prop where
  pubsub : a'.pubsub = a.pubsub
  watch : a'.watch = a.watch
  history : a'.history = a.history
  nextClientId : a'.nextClientId = a.nextClientId

/-- What a client holds of the registries. -/
structure Same (c c' : Client) : Prop where
  id : c'.id = c.id
  watched : c'.watched = c.watched
  channels : c'.channels = c.channels
  patterns : c'.patterns = c.patterns

/-- One step of the server. -/
inductive Step (h : Hub) : Hub → Prop where
  /-- A client is served. -/
  | served {id : Nat} {c : Client} {s : Served} (hc : h.clients id = some c)
      (hs : Changes ⟨h.app, c⟩ s) : Step h (h.put id s.app s.client)
  /-- Nothing happens to the registries. -/
  | aside {a : App} (ha : Kept h.app a) : Step h { h with app := a }
  /-- A client is parked, answered or switched to another protocol. -/
  | settled {id : Nat} {c c' : Client} (hc : h.clients id = some c) (hsame : Same c c') :
      Step h (h.put id h.app c')
  /-- A client connects. -/
  | connected (addr : String) (created : Instant) : Step h
      (h.put (h.app.nextClientId + 1) { h.app with nextClientId := h.app.nextClientId + 1 }
        { id := h.app.nextClientId + 1, addr := addr, created := created })
  /-- A client is gone. -/
  | left {id : Nat} {c : Client} (hc : h.clients id = some c) : Step h
      { app := { h.app with
          pubsub := h.app.pubsub.dropClient c.id
          blocked := h.app.blocked.filter fun waiter => waiter.id ≠ c.id
          watch := h.app.watch.releasedAll c.watched
          history := .dropped c.id :: h.app.history }
        clients := Function.update h.clients id none }

/-- A row of steps. -/
def Steps : Hub → Hub → Prop := Relation.ReflTransGen Step

instance : IsPreorder Hub Steps where
  refl _ := Relation.ReflTransGen.refl
  trans _ _ _ := Relation.ReflTransGen.trans

theorem Step.steps {h h' : Hub} (hs : Step h h') : Steps h h' := .single hs

/-- **What every step keeps, a row of them keeps.** -/
theorem Steps.keep {I : Hub → Prop} (step : ∀ {h h'}, Step h h' → I h → I h') {h h' : Hub}
    (hs : Steps h h') (hI : I h) : I h' := by
  induction hs with
  | refl => exact hI
  | tail _ hstep ih => exact step hstep ih

/-! ## Every event is a row of steps -/

section steps

variable {α : Type}

instance : IsPreorder App Kept where
  refl _ := ⟨rfl, rfl, rfl, rfl⟩
  trans _ _ _ h h' := ⟨h'.pubsub.trans h.pubsub, h'.watch.trans h.watch, h'.history.trans h.history,
    h'.nextClientId.trans h.nextClientId⟩

theorem Kept.of_aside {a a' : App} (h : AsideApp a a') : Kept a a' :=
  ⟨h.pubsub, h.watch, h.history, h.nextClientId⟩

theorem onStore_aside (m : Run Store α) : Act.Within AsideApp (App.onStore m) :=
  Act.within_zoom (R := fun _ _ => True) (fun _ _ _ => Act.sat_true _) fun _ _ _ =>
    ⟨rfl, rfl, rfl, rfl, rfl, rfl, rfl⟩

theorem modify_kept {f : App → App} (h : ∀ a, Kept a (f a)) :
    Act.Within Kept (Act.modify f : Run App Unit) := Act.within_modify h

theorem modify_aside {f : App → App} (h : ∀ a, AsideApp a (f a)) :
    Act.Within AsideApp (Act.modify f : Run App Unit) := Act.within_modify h

theorem same_aside {m : Run App α}
    (h : ∀ e a w, Act.Sat m e a w (fun _ a' _ => a' = a) (fun _ => True)) : Act.Within AsideApp m :=
  Act.within_of_same h

theorem save_aside : Act.Within AsideApp App.save :=
  Act.within_bind Act.within_get fun _ => Act.within_bind (onStore_aside _) fun _ =>
    Act.within_bind (same_aside fun _ _ _ => rfl) fun _ =>
      Act.within_bind (modify_aside fun _ => ⟨rfl, rfl, rfl, rfl, rfl, rfl, rfl⟩) fun _ =>
        Act.within_pure _

theorem sweepMemoryRecords_aside : Act.Within AsideApp App.sweepMemoryRecords := by
  refine Act.within_bind (onStore_aside _) fun keys => Act.within_forList (fun key => ?_) keys
  refine Act.within_bind Act.within_get fun _ => Act.within_bind (onStore_aside _) fun dropped => ?_
  cases dropped with
  | none => exact Act.within_pure _
  | some dropped =>
    refine Act.within_ite ?_ (Act.within_pure _)
    exact Act.within_bind (modify_aside fun _ => ⟨rfl, rfl, rfl, rfl, rfl, rfl, rfl⟩) fun _ =>
      onStore_aside _

/-- Housekeeping leaves the registries alone. -/
theorem tick_aside : Act.Within AsideApp App.tick := by
  have hrest : Act.Within AsideApp (do
      let a ← Act.get
      let autosave ← Act.zoom App.persist (fun p a => { a with persist := p })
        (Persist.autosaveDue a.config.saveInterval a.store)
      if autosave then do
        let _ ← App.save
        pure ()
      else pure () : Run App Unit) := by
    refine Act.within_bind Act.within_get fun a => Act.within_bind ?_ fun autosave => ?_
    · exact Act.within_zoom (R := fun _ _ => True) (fun _ _ _ => Act.sat_true _) fun _ _ _ =>
        ⟨rfl, rfl, rfl, rfl, rfl, rfl, rfl⟩
    · exact Act.within_ite (Act.within_bind save_aside fun _ => Act.within_pure _) (Act.within_pure _)
  refine Act.within_bind (same_aside fun _ _ _ => rfl) fun t => Act.within_bind Act.within_get fun a => ?_
  refine Act.within_ite ?_ hrest
  refine Act.within_bind (onStore_aside _) fun _ => Act.within_bind sweepMemoryRecords_aside fun _ => ?_
  exact Act.within_bind (modify_aside fun _ => ⟨rfl, rfl, rfl, rfl, rfl, rfl, rfl⟩) fun _ => hrest

theorem tick_kept : Act.Within Kept App.tick := tick_aside.mono fun _ _ => Kept.of_aside

theorem onApp_steps {m : Run App α} (h : Act.Within Kept m) : Act.Within Steps (Hub.onApp m) :=
  Act.within_zoom h fun _ _ ha => (Step.aside ha).steps

theorem put_put (h : Hub) (id : Nat) (a a' : App) (c c' : Client) :
    (h.put id a c).put id a' c' = h.put id a' c' := by
  unfold put
  rw [Function.update_idem]

theorem put_self {h : Hub} {id : Nat} {c : Client} (hc : h.clients id = some c) :
    h.put id h.app c = h := by
  unfold put
  rw [← hc, Function.update_eq_self]

theorem clients_put (h : Hub) (id : Nat) (a : App) (c : Client) : (h.put id a c).clients id = some c :=
  Function.update_self ..

theorem clients_put_of_ne {h : Hub} {i id : Nat} (hi : i ≠ id) (a : App) (c : Client) :
    (h.put id a c).clients i = h.clients i := Function.update_of_ne hi ..

/-- A client served and then parked, answered or switched. -/
theorem steps_served {h : Hub} {id : Nat} {c : Client} {m s : Served} (hc : h.clients id = some c)
    (hm : Changes ⟨h.app, c⟩ m) (happ : Kept m.app s.app) (hclient : Same m.client s.client) :
    Steps h (h.put id s.app s.client) := by
  refine .tail (.tail (Step.served hc hm).steps (Step.aside happ)) ?_
  have hstep := Step.settled (h := { h.put id m.app m.client with app := s.app })
    (clients_put h id m.app m.client) hclient
  have hput : put { h.put id m.app m.client with app := s.app } id s.app s.client =
      h.put id s.app s.client := put_put h id m.app s.app m.client s.client
  rw [← hput]
  exact hstep

theorem settle_same (r : Response) (e : Env) (s : Served) (w : World) :
    Act.Sat r.settle e s w (fun _ s' _ => Kept s.app s'.app ∧ Same s.client s'.client)
      (fun _ => True) := by
  unfold Response.settle
  rw [Act.sat_modify]
  split
  · exact ⟨⟨rfl, rfl, rfl, rfl⟩, ⟨rfl, rfl, rfl, rfl⟩⟩
  · exact ⟨⟨rfl, rfl, rfl, rfl⟩, ⟨rfl, rfl, rfl, rfl⟩⟩

/-- A request is a row of changes, and then at most a parked or switched client. -/
theorem served_changes (argv : List Bytes) (e : Env) (s : Served) (w : World) :
    Act.Sat (Klyro.served argv) e s w (fun _ s' _ => ∃ m, Changes s m ∧ Kept m.app s'.app ∧
      Same m.client s'.client) (fun _ => True) := by
  unfold Klyro.served
  rw [Act.sat_bind]
  refine Act.sat_mono (dispatch_changes argv e s w) ?_ (fun _ h => h)
  intro response m w' hm
  cases response with
  | none => exact ⟨m, hm, refl_of Kept m.app, ⟨rfl, rfl, rfl, rfl⟩⟩
  | some response =>
    dsimp only
    rw [Act.sat_bind]
    exact Act.sat_mono (settle_same response e m w') (fun _ _ _ h => ⟨m, hm, h⟩) (fun _ h => h)

theorem unpark_steps (waiter : Blocked) : Act.Within Steps (unpark waiter) := by
  refine Act.within_modify fun h => ?_
  cases hc : h.clients waiter.id with
  | none => exact refl_of Steps h
  | some client =>
    show Steps h (h.put waiter.id h.app { client with blocked := false })
    apply Step.steps
    exact .settled hc ⟨rfl, rfl, rfl, rfl⟩

theorem serve_request {h : Hub} {id : Nat} {c : Client} (hc : h.clients id = some c)
    (argv : List Bytes) (e : Env) (w : World) :
    Act.Sat (serve id c (Klyro.served argv)) e h w (fun _ h' _ => Steps h h') (fun _ => True) := by
  unfold serve
  rw [Act.sat_zoom]
  refine Act.sat_mono (served_changes argv e ⟨h.app, c⟩ w) ?_ (fun _ h => h)
  rintro _ s _ ⟨m, hm, happ, hclient⟩
  exact steps_served hc hm happ hclient

theorem serve_retry {h : Hub} {id : Nat} {c : Client} (hc : h.clients id = some c)
    (argv : List Bytes) (e : Env) (w : World) :
    Act.Sat (serve id c (Klyro.retry argv)) e h w (fun _ h' _ => Steps h h') (fun _ => True) := by
  unfold serve
  rw [Act.sat_zoom]
  exact Act.sat_mono (retry_changes argv e ⟨h.app, c⟩ w)
    (fun _ _ _ hs => (Step.served hc hs).steps) (fun _ h => h)

theorem takeTimedOut_kept : Act.Within Kept App.takeTimedOut :=
  Act.within_bind (Act.within_of_same fun _ _ _ => rfl) fun _ => fun _ _ _ => ⟨rfl, rfl, rfl, rfl⟩

/-- A client leaves. -/
theorem forgetClient_left {h : Hub} {id : Nat} {c : Client} (hc : h.clients id = some c) (e : Env)
    (w : World) : Act.Sat (do
      let _ ← Hub.onApp (App.forgetClient c)
      Act.modify fun h => { h with clients := Function.update h.clients id none } : Run Hub Unit)
      e h w (fun _ h' _ => Steps h h') (fun _ => True) := by
  unfold App.forgetClient Hub.onApp
  rw [Act.sat_bind, Act.sat_zoom, Act.sat_bind, Act.sat_modify]
  refine Act.sat_mono (App.unwatchAll_releasedAll c e _ w) ?_ (fun _ h => h)
  rintro _ a _ ⟨-, rfl⟩
  exact (Step.left hc).steps

theorem step_steps (event : Event) : Act.Within Steps event.step := by
  cases event with
  | connect addr =>
    intro e h w
    exact (Step.connected addr _).steps
  | request id argv =>
    intro e h w
    unfold Event.step
    rw [Act.sat_bind, Act.sat_get]
    cases hc : h.clients id with
    | none => exact refl_of Steps h
    | some client =>
      dsimp only
      split
      · exact refl_of Steps h
      · rw [Act.sat_bind]
        exact Act.sat_mono (serve_request hc argv e w) (fun _ _ _ h => h) (fun _ h => h)
  | retry index =>
    intro e h w
    unfold Event.step
    rw [Act.sat_bind, Act.sat_get]
    cases hwaiter : h.app.blocked[index]? with
    | none => exact refl_of Steps h
    | some waiter =>
      dsimp only
      rw [Act.sat_bind]
      show Act.Sat _ e { h with app := { h.app with blocked := h.app.blocked.eraseIdx index } } w _ _
      have hout : Steps h { h with app := { h.app with blocked := h.app.blocked.eraseIdx index } } := by
        apply Step.steps
        exact .aside ⟨rfl, rfl, rfl, rfl⟩
      cases hc : h.clients waiter.id with
      | none => exact hout
      | some client =>
        dsimp only
        rw [Act.sat_bind]
        refine Act.sat_mono (serve_retry (h := { h with app := { h.app with
          blocked := h.app.blocked.eraseIdx index } }) hc waiter.argv e w) ?_ (fun _ h => h)
        intro reply h' w' hsteps
        have hso := trans_of Steps hout hsteps
        cases reply with
        | none =>
          show Steps h { h' with app := { h'.app with blocked := h'.app.blocked.insertIdx index waiter } }
          refine trans_of Steps hso (Step.steps ?_)
          exact .aside ⟨rfl, rfl, rfl, rfl⟩
        | some _ =>
          exact Act.sat_mono (unpark_steps waiter e h' w') (fun _ _ _ h => trans_of Steps hso h)
            (fun _ h => h)
  | timeouts =>
    exact Act.within_bind (onApp_steps takeTimedOut_kept) fun late =>
      Act.within_forList unpark_steps late
  | deliver => exact onApp_steps (modify_kept fun _ => ⟨rfl, rfl, rfl, rfl⟩)
  | tick => exact onApp_steps tick_kept
  | disconnect id =>
    intro e h w
    unfold Event.step
    rw [Act.sat_bind, Act.sat_get]
    cases hc : h.clients id with
    | none => exact refl_of Steps h
    | some client => exact forgetClient_left hc e w

/-- **A run is a row of steps.** -/
theorem run_steps (events : List Event) : Act.Within Steps (run events) :=
  Act.within_forList step_steps events

end steps

end Hub

end Klyro
