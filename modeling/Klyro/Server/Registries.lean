import Klyro.Hub.Subscriptions
import Klyro.Hub.Watching
import Klyro.Server.Parked

/-!
# The event loop and the registries

The registries of subscriptions and watched keys were followed through the requests, arrivals and
departures of clients without sockets.  The event loop is one way these come about.

* `EventLoop.hub` — the server as the registries know it: the shared state and the clients.
* `Serves`, `Follows` — serving a connection, and a part of a pass, is a row of steps of the hub.
* `registries_exact` — so the registries hold what the open connections hold.
-/

set_option autoImplicit false

namespace Klyro

open Attended

/-! ## Serving a connection -/

/-- Serving a connection is a row of steps, whoever the other clients are. -/
def Attended.Serves (t t' : Attended) : Prop := ∀ (h : Hub) (id : Nat), h.app = t.app →
  h.clients id = some t.conn.client → Hub.Steps h (h.put id t'.app t'.conn.client)

instance : IsPreorder Attended Attended.Serves where
  refl t h id happ hc := by
    rw [← happ, Hub.put_self hc]
    exact refl_of Hub.Steps h
  trans t t' t'' ht ht' h id happ hc := by
    have hsecond := ht' (h.put id t'.app t'.conn.client) id rfl (Hub.clients_put ..)
    rw [Hub.put_put] at hsecond
    exact trans_of Hub.Steps (ht h id happ hc) hsecond

/-- The client, as the registries know it, is the same. -/
theorem Attended.Serves.of_same {t : Attended} {c : Conn} (h : Hub.Same t.conn.client c.client) :
    t.Serves { t with conn := c } := by
  intro hub id happ hc
  rw [← happ]
  apply Hub.Step.steps
  exact .settled hc h

theorem onConn_serves {f : Conn → Conn} (h : ∀ c : Conn, (f c).client = c.client) :
    Act.Within Attended.Serves (onConn f) :=
  Act.within_modify fun t => .of_same (by rw [h]; exact ⟨rfl, rfl, rfl, rfl⟩)

theorem pushes_client (replies : List Reply) : ∀ c : Conn,
    (replies.foldl (fun c reply => c.push reply) c).client = c.client := by
  induction replies with
  | nil => exact fun _ => rfl
  | cons reply replies ih => exact fun c => ih (c.push reply)

theorem respond_client (response : Response) (c : Conn) : (c.respond response).client = c.client := by
  unfold Conn.respond
  dsimp only
  split
  · exact pushes_client response.replies c
  · exact pushes_client response.replies c

theorem handleWrite_client (results : List WriteResult) : ∀ c : Conn,
    (handleWrite results c).client = c.client := by
  induction results with
  | nil =>
    intro c
    unfold handleWrite
    split <;> rfl
  | cons result results ih =>
    intro c
    unfold handleWrite
    split
    · cases result with
      | taken n =>
        dsimp only
        split
        · rfl
        · exact ih _
      | _ => rfl
    · rfl

theorem run_serves (argv : List Bytes) : Act.Within Attended.Serves (Attended.run argv) := by
  intro e t w
  unfold Attended.run onServed
  rw [Act.sat_bind, Act.sat_zoom]
  refine Act.sat_mono (Hub.served_changes argv e _ w) ?_ (fun _ h => h)
  rintro response s' w' ⟨m, hm, happ, hclient⟩
  rw [Act.sat_bind, onConn, Act.sat_modify, Act.sat_pure]
  intro h id hh hc
  rw [← hh] at hm
  exact Hub.steps_served hc hm happ hclient

theorem roundEnds_serves (limit : Nat) : Act.Within Attended.Serves (roundEnds limit) :=
  Act.within_bind Act.within_get fun _ => Act.within_ite
    (Act.within_bind (onConn_serves fun _ => rfl) fun _ => Act.within_pure _) (Act.within_pure _)

theorem processLoop_serves (maxBulk limit n : Nat) :
    Act.Within Attended.Serves (processLoop maxBulk limit n) := by
  induction n with
  | zero => exact Act.within_pure _
  | succ n ih =>
    have hround : Act.Within Attended.Serves (do
        let ends ← roundEnds limit
        if ends then pure () else processLoop maxBulk limit n : Run Attended Unit) :=
      Act.within_bind (roundEnds_serves limit) fun _ => Act.within_ite (Act.within_pure _) ih
    refine Act.within_bind Act.within_get fun t => Act.within_ite (Act.within_pure _) ?_
    cases parseRequest t.conn.rbuf maxBulk with
    | none => exact Act.within_panic _
    | some parsed =>
      cases parsed with
      | incomplete => exact Act.within_pure _
      | error message => exact onConn_serves fun _ => rfl
      | request argv consumed =>
        refine Act.within_bind (onConn_serves fun _ => rfl) fun _ => ?_
        refine Act.within_bind (run_serves argv) fun response => ?_
        cases response with
        | none => exact hround
        | some response =>
          exact Act.within_ite (Act.within_pure _)
            (Act.within_bind (onConn_serves (respond_client response)) fun _ => hround)

theorem processRequests_serves : Act.Within Attended.Serves processRequests :=
  Act.within_bind Act.within_get fun _ => processLoop_serves _ _ _

theorem attendReady_serves (ready : Ready) :
    Act.Within Attended.Serves (EventLoop.attendReady ready) := by
  have hclose : Act.Within Attended.Serves (onConn Conn.requestClose) := onConn_serves fun _ => rfl
  have hread : ∀ result, Act.Within Attended.Serves (handleRead result) := by
    intro result
    cases result with
    | bytes chunk =>
      exact Act.within_ite hclose
        (Act.within_bind (onConn_serves fun _ => rfl) fun _ => processRequests_serves)
    | wouldBlock => exact Act.within_pure _
    | failed => exact hclose
  unfold EventLoop.attendReady
  refine Act.within_bind (onConn_serves fun c => ?_) fun _ => ?_
  · split <;> rfl
  · rcases ready.input with - | result
    on_goal 2 => refine Act.within_bind (hread result) fun _ => ?_
    all_goals
      cases ready.output with
      | none => exact Act.within_pure _
      | some results => exact onConn_serves (handleWrite_client results)

theorem retryWaiter_serves (waiter : Blocked) :
    Act.Within Attended.Serves (EventLoop.retryWaiter waiter) := by
  have hretry : Act.Within Attended.Serves (onServed (retry waiter.argv)) := by
    intro e t w
    unfold onServed
    rw [Act.sat_zoom]
    refine Act.sat_mono (retry_changes waiter.argv e _ w) ?_ (fun _ h => h)
    intro _ s' _ hchanges h id hh hc
    rw [← hh] at hchanges
    exact (Hub.Step.served hc hchanges).steps
  unfold EventLoop.retryWaiter
  refine Act.within_bind hretry fun reply => ?_
  cases reply with
  | none => exact Act.within_pure _
  | some reply =>
    refine Act.within_bind (Act.within_modify fun t => .of_same ?_) fun _ => Act.within_pure _
    exact ⟨rfl, rfl, rfl, rfl⟩

/-- A connection with messages handed to it. -/
def Conn.handed (frames : List Reply) (c : Conn) : Conn :=
  frames.foldl (fun c frame => (c.push frame).noted (.delivered frame)) c

/-! ## A pass -/

namespace EventLoop

variable {e : Env} {s : EventLoop} {w : World}

/-- The server as the registries know it. -/
def hub (s : EventLoop) : Hub where
  app := s.app
  clients id := (s.connections.lookup id).map Conn.client

/-- A part of a pass is a row of steps of the hub. -/
def Follows (s s' : EventLoop) : Prop := Hub.Steps s.hub s'.hub

instance : IsPreorder EventLoop Follows where
  refl s := refl_of Hub.Steps s.hub
  trans _ _ _ h h' := trans_of Hub.Steps h h'

theorem hub_clients {id : Nat} {c : Conn} (hc : s.connections.lookup id = some c) :
    s.hub.clients id = some c.client := by
  show (s.connections.lookup id).map Conn.client = _
  rw [hc]
  rfl

theorem hub_insert (s : EventLoop) (id : Nat) (app : App) (c : Conn) :
    hub { app := app, connections := s.connections.insert id c } = s.hub.put id app c.client := by
  unfold hub Hub.put
  congr 1
  funext i
  rw [Assoc.lookup_insert_eq, Function.update_apply]
  split <;> rfl

theorem hub_erase (s : EventLoop) (id : Nat) (app : App) :
    hub { app := app, connections := s.connections.erase id } =
      { app := app, clients := Function.update s.hub.clients id none } := by
  unfold hub
  congr 1
  funext i
  rw [Assoc.lookup_erase_eq, Function.update_apply]
  split <;> rfl

theorem onApp_follows {α : Type} {m : Run App α} (h : Act.Within Hub.Kept m) :
    Act.Within Follows (onApp m) :=
  Act.within_zoom h fun _ _ ha => (Hub.Step.aside ha).steps

theorem attend_follows {α : Type} {m : Run Attended α} {id : Nat} {conn : Conn}
    (hc : s.connections.lookup id = some conn) (hm : Act.Within Attended.Serves m) :
    Act.Sat (attend id conn m) e s w (fun _ s' _ => Follows s s') (fun _ => True) := by
  unfold attend
  rw [Act.sat_zoom]
  refine Act.sat_mono (hm e ⟨s.app, conn⟩ w) ?_ (fun _ h => h)
  intro _ t w' ht
  unfold Follows
  rw [hub_insert]
  exact ht s.hub id rfl (hub_clients hc)

theorem accept_follows (addr : String) : Act.Within Follows (accept addr) := by
  intro e s w
  have hjoin : ∀ {conn : Conn} {app : App},
      conn.client = { id := s.app.nextClientId + 1, addr := addr, created := e.instant w.instants } →
      Hub.Kept { s.app with nextClientId := s.app.nextClientId + 1 } app →
      Follows s { app := app, connections := s.connections.insert (s.app.nextClientId + 1) conn } := by
    intro conn app hclient happ
    unfold Follows
    rw [hub_insert, hclient]
    exact .tail (Hub.Step.connected (h := s.hub) addr _).steps (.aside happ)
  unfold accept onApp App.takeClientId
  simp only [Act.sat_bind, Act.sat_zoom, Act.sat_modify, Act.sat_state]
  show Act.Sat (if _ then _ else _) _ _ _ _ _
  rw [Act.sat_ite]
  refine ⟨fun _ => ?_, fun _ => ?_⟩
  · exact hjoin rfl ⟨rfl, rfl, rfl, rfl⟩
  · exact hjoin rfl ⟨rfl, rfl, rfl, rfl⟩

theorem turn_follows (p : Nat × Ready) : Act.Within Follows (turn p) := by
  intro e s w
  unfold turn
  rw [Act.sat_bind, Act.sat_get, Act.sat_bind]
  cases hc : s.connections.lookup p.1 with
  | none => trivial
  | some conn => exact attend_follows hc (attendReady_serves p.2)

theorem resume_follows (woken : List Nat) : Act.Within Follows (resume woken) := by
  refine Act.within_forList (fun id => ?_) woken
  intro e s w
  rw [Act.sat_bind, Act.sat_get]
  cases hc : s.connections.lookup id with
  | none => exact refl_of Follows s
  | some conn => exact attend_follows hc processRequests_serves

/-- The registry of parked commands is none the hub's steps look at. -/
theorem follows_blocked (s : EventLoop) (blocked : List Blocked) :
    Follows s { s with app := { s.app with blocked := blocked } } := by
  apply Hub.Step.steps
  exact .aside ⟨rfl, rfl, rfl, rfl⟩

theorem scan_follows (ready : List Bytes) (n : Nat) : ∀ index, Act.Within Follows (scan ready n index) := by
  induction n with
  | zero => exact fun _ => Act.within_pure _
  | succ n ih =>
    intro index e s w
    unfold scan
    rw [Act.sat_bind, Act.sat_get]
    have hnext : ∀ {s₁ : EventLoop} {w₁ : World} (i : Nat), Follows s s₁ →
        Act.Sat (scan ready n i) e s₁ w₁ (fun _ s' _ => Follows s s') (fun _ => True) :=
      fun i hs => Act.sat_mono (ih i e _ _) (fun _ _ _ h => trans_of Follows hs h) (fun _ h => h)
    cases s.app.blocked[index]? with
    | none => exact refl_of Follows s
    | some waiter =>
      dsimp only
      split
      · rw [Act.sat_bind]
        show Act.Sat _ e { s with app := { s.app with blocked := s.app.blocked.eraseIdx index } } w _ _
        have hout := follows_blocked s (s.app.blocked.eraseIdx index)
        cases hc : s.connections.lookup waiter.id with
        | none => exact hnext index hout
        | some conn =>
          dsimp only
          split
          · exact hnext index hout
          · rw [Act.sat_bind]
            refine Act.sat_mono (attend_follows (s := { s with app := { s.app with
              blocked := s.app.blocked.eraseIdx index } }) hc (retryWaiter_serves waiter)) ?_ (fun _ h => h)
            intro answered s₁ w₁ hs₁
            have hso : Follows s s₁ := trans_of Follows hout hs₁
            cases answered with
            | true =>
              rw [if_pos rfl, Act.sat_bind]
              exact Act.sat_mono (hnext index hso) (fun _ _ _ h => h) (fun _ h => h)
            | false =>
              rw [if_neg Bool.false_ne_true, Act.sat_bind]
              exact hnext (index + 1) (trans_of Follows hso (follows_blocked s₁ _))
      · exact hnext (index + 1) (refl_of Follows s)

theorem readyLoop_follows (n : Nat) : Act.Within Follows (readyLoop n) := by
  induction n with
  | zero => exact Act.within_pure _
  | succ n ih =>
    refine Act.within_bind Act.within_get fun s => Act.within_ite (Act.within_pure _) ?_
    refine Act.within_bind (onApp_follows (Hub.modify_kept fun _ => ⟨rfl, rfl, rfl, rfl⟩)) fun _ => ?_
    exact Act.within_bind (scan_follows _ _ _) fun woken => Act.within_bind (resume_follows woken) fun _ => ih

/-- A change of one connection that its client does not show to the registries. -/
theorem follows_insert {id : Nat} {c c' : Conn} (hc : s.connections.lookup id = some c)
    (h : Hub.Same c.client c'.client) :
    Follows s { s with connections := s.connections.insert id c' } := by
  unfold Follows
  rw [hub_insert]
  exact (Hub.Step.settled (hub_clients hc) h).steps

theorem answerLate_follows (late : List Blocked) : Act.Within Follows (answerLate late) := by
  induction late with
  | nil => exact Act.within_pure _
  | cons waiter late ih =>
    intro e s w
    unfold answerLate
    rw [Act.sat_bind, Act.sat_get]
    cases hc : s.connections.lookup waiter.id with
    | none => exact ih e s w
    | some conn =>
      dsimp only
      split
      · exact ih e s w
      · rw [Act.sat_bind, Act.sat_modify, Act.sat_bind]
        have hanswered : Hub.Same conn.client (expireWaiter waiter conn).client := ⟨rfl, rfl, rfl, rfl⟩
        exact Act.sat_mono (ih e _ w) (fun _ _ _ h => trans_of Follows (follows_insert hc hanswered) h)
          (fun _ h => h)

theorem serveTimeouts_follows : Act.Within Follows serveTimeouts :=
  Act.within_bind (onApp_follows Hub.takeTimedOut_kept) fun late =>
    Act.within_bind (answerLate_follows late) fun woken => resume_follows woken

theorem adjust_follows {id : Nat} {f : Conn → Conn} (h : ∀ c : Conn, (f c).client = c.client) :
    Act.Within Follows (Act.modify fun s => { s with connections := s.connections.adjust id f } :
      Run EventLoop Unit) := by
  refine Act.within_modify fun s => ?_
  unfold Assoc.adjust
  cases hc : s.connections.lookup id with
  | none => exact refl_of Follows s
  | some c => exact follows_insert hc (by rw [h]; exact ⟨rfl, rfl, rfl, rfl⟩)

theorem deliverOutbox_follows : Act.Within Follows deliverOutbox := by
  refine Act.within_bind Act.within_get fun _ => ?_
  refine Act.within_bind (onApp_follows (Hub.modify_kept fun _ => ⟨rfl, rfl, rfl, rfl⟩)) fun _ => ?_
  refine Act.within_forList (fun p => adjust_follows fun c => ?_) _
  rfl

theorem flush_follows (writes : Nat → List WriteResult) : Act.Within Follows (flush writes) := by
  refine Act.within_bind Act.within_get fun s => Act.within_forList (fun id => ?_) _
  refine adjust_follows fun c => ?_
  split
  · exact handleWrite_client _ c
  · rfl

theorem remove_follows (id : Nat) : Act.Within Follows (remove id) := by
  intro e s w
  unfold remove
  rw [Act.sat_bind, Act.sat_get]
  cases hc : s.connections.lookup id with
  | none => exact refl_of Follows s
  | some conn =>
    dsimp only
    rw [Act.sat_bind, Act.sat_modify, Act.sat_bind]
    unfold onApp App.forgetClient
    rw [Act.sat_zoom, Act.sat_bind, Act.sat_modify]
    refine Act.sat_mono (App.unwatchAll_releasedAll conn.client e _ w) ?_ (fun _ h => h)
    rintro _ a _ ⟨-, rfl⟩
    unfold Follows
    rw [Act.sat_pure, hub_erase]
    exact (Hub.Step.left (hub_clients hc)).steps

theorem close_follows : Act.Within Follows close :=
  Act.within_bind Act.within_get fun _ => Act.within_forList remove_follows _

theorem pollOnce_follows (pass : Pass) : Act.Within Follows (pollOnce pass) := by
  have hwaits : Act.Within Follows (onApp pollTimeout) := by
    refine onApp_follows fun e a w => ?_
    unfold pollTimeout
    rw [Act.sat_bind, Act.sat_get]
    dsimp only
    split
    · exact refl_of Hub.Kept a
    · exact refl_of Hub.Kept a
  cases pass with
  | interrupted => exact Act.within_bind hwaits fun _ => Act.within_pure _
  | ready accepted polled writes =>
    refine Act.within_bind Act.within_get fun s => Act.within_bind hwaits fun _ => ?_
    refine Act.within_bind (Act.within_forList accept_follows accepted) fun _ => ?_
    refine Act.within_bind (Act.within_forList turn_follows _) fun _ => ?_
    refine Act.within_bind (Act.within_bind Act.within_get fun _ => readyLoop_follows _) fun _ => ?_
    refine Act.within_bind serveTimeouts_follows fun _ => ?_
    refine Act.within_bind deliverOutbox_follows fun _ => ?_
    refine Act.within_bind (flush_follows writes) fun _ => Act.within_bind close_follows fun _ => ?_
    refine Act.within_bind (Act.within_modify fun s => ?_) fun _ => onApp_follows Hub.tick_kept
    apply Hub.Step.steps
    exact .aside ⟨rfl, rfl, rfl, rfl⟩

/-- **The event loop follows the hub**: every part of a pass is a row of its steps. -/
theorem step_follows (phase : Phase) : Act.Within Follows phase.step := by
  cases phase with
  | accept addr => exact accept_follows addr
  | turn id ready => exact turn_follows (id, ready)
  | serveReadyKeys => exact Act.within_bind Act.within_get fun _ => readyLoop_follows _
  | serveTimeouts => exact serveTimeouts_follows
  | deliverOutbox => exact deliverOutbox_follows
  | flush writes => exact flush_follows writes
  | close => exact close_follows
  | pass p => exact pollOnce_follows p

/-! ## The registries -/

/-- The event loop over a loaded keyspace, before anybody connects. -/
def start (store : Store) (persist : Persist) (config : Config) (stats : Stats) : EventLoop where
  app := (Hub.start store persist config stats).app

theorem run_follows (store : Store) (persist : Persist) (config : Config) (stats : Stats)
    (phases : List Phase) (e : Env) (w : World) :
    Act.Sat (Act.forList Phase.step phases) e (start store persist config stats) w
      (fun _ s _ => s.hub.Registered ∧ s.hub.Watching) (fun _ => True) := by
  refine Act.sat_mono (Act.within_forList step_follows phases e _ w) ?_ (fun _ h => h)
  intro _ s _ hs
  exact ⟨Hub.Steps.keep Hub.step_registered hs (Hub.start_registered store persist config stats),
    Hub.Steps.keep Hub.step_watching hs (Hub.start_watching store persist config stats)⟩

theorem mem_channels {name : Bytes} {id : Nat} : name ∈ s.hub.channels id ↔
    ∃ c, s.connections.lookup id = some c ∧ name ∈ c.client.channels := by
  unfold Hub.channels hub
  cases hc : s.connections.lookup id <;> simp [hc]

theorem mem_patterns {name : Bytes} {id : Nat} : name ∈ s.hub.patterns id ↔
    ∃ c, s.connections.lookup id = some c ∧ name ∈ c.client.patterns := by
  unfold Hub.patterns hub
  cases hc : s.connections.lookup id <;> simp [hc]

theorem mem_watchedKeys {key : Bytes} {id : Nat} : key ∈ s.hub.watchedKeys id ↔
    ∃ c, s.connections.lookup id = some c ∧ ∃ version, (key, version) ∈ c.client.watched := by
  unfold Hub.watchedKeys hub
  cases hc : s.connections.lookup id <;> simp [hc]

/-- A table of subscribers that nobody is in has no name. -/
theorem lookup_of_unheld {table : Table} {held : Nat → List Bytes} (h : table.Agrees held)
    (hnone : ∀ id, held id = []) (name : Bytes) : table.lookup name = none := by
  cases hl : table.lookup name with
  | none => rfl
  | some ids =>
    cases ids with
    | nil => exact absurd hl (h.nonempty name)
    | cons id ids =>
      have hmem : name ∈ held id := by
        refine (h.mem name id).mp ?_
        unfold Table.under
        rw [hl]
        exact List.mem_cons_self
      rw [hnone id] at hmem
      cases hmem

/-- **The registries hold what the open connections hold.**  From the start, whatever passes and
parts of passes follow: an id is under a channel or a pattern exactly when the connection with that
id is open and its client holds the name; each key is counted once for each open connection that
watches it; and when no connection is left, no name and no key is. -/
theorem registries_exact (store : Store) (persist : Persist) (config : Config) (stats : Stats)
    (phases : List Phase) (e : Env) (w : World) :
    Act.Sat (Act.forList Phase.step phases) e (start store persist config stats) w (fun _ s _ =>
      (∀ name id, id ∈ s.app.pubsub.channels.under name ↔
        ∃ c, s.connections.lookup id = some c ∧ name ∈ c.client.channels) ∧
      (∀ name id, id ∈ s.app.pubsub.patterns.under name ↔
        ∃ c, s.connections.lookup id = some c ∧ name ∈ c.client.patterns) ∧
      (∀ key, Exactly ((s.app.watch.counts key).getD 0) fun id =>
        ∃ c, s.connections.lookup id = some c ∧ ∃ version, (key, version) ∈ c.client.watched) ∧
      (s.connections = ∅ → ∀ name, s.app.pubsub.channels.lookup name = none ∧
        s.app.pubsub.patterns.lookup name = none ∧ s.app.watch.counts name = none)) (fun _ => True) := by
  refine Act.sat_mono (run_follows store persist config stats phases e w) ?_ (fun _ h => h)
  rintro _ s _ ⟨hr, hw⟩
  refine ⟨fun name id => (hr.channels.mem name id).trans mem_channels,
    fun name id => (hr.patterns.mem name id).trans mem_patterns,
    fun key => (hw.agrees.counted key).congr fun id => mem_watchedKeys, fun hempty name => ?_⟩
  have hgone : ∀ id, s.hub.clients id = none := by
    intro id
    unfold hub
    rw [hempty]
    rfl
  refine ⟨lookup_of_unheld hr.channels (fun id => ?_) name,
    lookup_of_unheld hr.patterns (fun id => ?_) name, ?_⟩
  · unfold Hub.channels
    rw [hgone id]
    rfl
  · unfold Hub.patterns
    rw [hgone id]
    rfl
  · cases hcount : s.app.watch.counts name with
    | none => rfl
    | some n =>
      have hexactly : Exactly ((s.app.watch.counts name).getD 0) fun id => name ∈ s.hub.watchedKeys id :=
        hw.agrees.counted name
      rw [hcount] at hexactly
      obtain ⟨ids, -, hlen, hids⟩ := hexactly
      cases ids with
      | nil =>
        have hzero : 0 = n := hlen
        rw [← hzero] at hcount
        exact absurd hcount (hw.agrees.used name)
      | cons id ids =>
        have hmem : name ∈ s.hub.watchedKeys id := (hids id).mp List.mem_cons_self
        unfold Hub.watchedKeys at hmem
        rw [hgone id] at hmem
        cases hmem

/-! ## Messages -/

/-- The frames of an outbox for one connection, in order. -/
def framesFor (outbox : List (Nat × Reply)) (id : Nat) : List Reply :=
  (outbox.filter fun p => p.1 = id).map Prod.snd

/-- What `deliver_outbox` does: every connection is handed its frames, in order. -/
theorem deliverOutbox_spec : Act.Sat deliverOutbox e s w (fun _ s' _ =>
    s'.app = { s.app with outbox := [] } ∧
      ∀ id, s'.connections.lookup id = (s.connections.lookup id).map (Conn.handed (framesFor s.app.outbox id)))
    (fun _ => True) := by
  have hloop : ∀ (outbox : List (Nat × Reply)) {s : EventLoop} {w : World},
      Act.Sat (Act.forList (fun (p : Nat × Reply) => Act.modify fun (s : EventLoop) => { s with
        connections := s.connections.adjust p.1 fun c => (c.push p.2).noted (.delivered p.2) }) outbox)
        e s w (fun _ s' _ => s'.app = s.app ∧ ∀ id, s'.connections.lookup id =
          (s.connections.lookup id).map (Conn.handed (framesFor outbox id))) (fun _ => True) := by
    intro outbox
    induction outbox with
    | nil =>
      intro s w
      refine ⟨rfl, fun id => ?_⟩
      cases s.connections.lookup id <;> rfl
    | cons p outbox ih =>
      intro s w
      unfold Act.forList
      rw [Act.sat_bind, Act.sat_modify]
      refine Act.sat_mono ih ?_ (fun _ h => h)
      rintro _ s' _ ⟨happ, hlookup⟩
      refine ⟨happ, fun id => ?_⟩
      rw [hlookup id, Assoc.lookup_adjust]
      unfold framesFor
      by_cases hid : id = p.1
      · subst hid
        rw [if_pos rfl, Option.map_map, List.filter_cons_of_pos (by simp)]
        rfl
      · rw [if_neg hid, List.filter_cons_of_neg (by simpa using Ne.symm hid)]
  unfold deliverOutbox
  rw [Act.sat_bind, Act.sat_get, Act.sat_bind]
  exact hloop s.app.outbox

/-- One part of a row of parts, the others being empty. -/
theorem flatMap_range_single {α : Type} {id : Nat} {f : Nat → List α} (hf : ∀ i, i ≠ id → f i = []) :
    ∀ n, id < n → (List.range n).flatMap f = f id
  | 0, h => absurd h (Nat.not_lt_zero id)
  | n + 1, h => by
    have hbefore : id = n → (List.range n).flatMap f = [] := by
      rintro rfl
      refine List.flatMap_eq_nil_iff.mpr fun i hi => hf i ?_
      exact Nat.ne_of_lt (List.mem_range.mp hi)
    rw [List.range_succ, List.flatMap_append, List.flatMap_singleton]
    by_cases hid : id = n
    · rw [hbefore hid, hid, List.nil_append]
    · rw [hf n (Ne.symm hid), List.append_nil]
      exact flatMap_range_single hf n (by omega)

/-- Of what everybody is owed, the frames for one client. -/
theorem framesFor_owed {h : Hub} (hr : h.Registered) {id : Nat} {c : Client}
    (hc : h.clients id = some c) (channel payload : Bytes) :
    framesFor (h.owed channel payload) id = Hub.owedTo c channel payload := by
  unfold framesFor Hub.owed
  rw [List.filter_flatMap]
  have hsingle : ∀ i, i ≠ id → ((((h.clients i).elim [] fun c => Hub.owedTo c channel payload).map
      fun frame => (i, frame)).filter fun p => p.1 = id) = [] := by
    intro i hi
    refine List.filter_eq_nil_iff.mpr fun p hp => ?_
    obtain ⟨frame, -, rfl⟩ := List.mem_map.mp hp
    simpa using hi
  rw [flatMap_range_single hsingle _ (Nat.lt_succ_of_le (hr.ids id c hc).2), hc]
  dsimp only [Option.elim]
  rw [List.filter_eq_self.mpr, List.map_map]
  · exact List.map_id' _
  · intro p hp
    obtain ⟨frame, -, rfl⟩ := List.mem_map.mp hp
    simp

theorem framesFor_append (outbox outbox' : List (Nat × Reply)) (id : Nat) :
    framesFor (outbox ++ outbox') id = framesFor outbox id ++ framesFor outbox' id := by
  unfold framesFor
  rw [List.filter_append, List.map_append]

theorem framesFor_perm {outbox outbox' : List (Nat × Reply)} (h : outbox.Perm outbox') (id : Nat) :
    (framesFor outbox id).Perm (framesFor outbox' id) := (h.filter _).map _

theorem framesFor_own {id i : Nat} (frames : List Reply) :
    framesFor (frames.map fun frame => (id, frame)) i = if i = id then frames else [] := by
  unfold framesFor
  split
  · subst_vars
    rw [List.filter_eq_self.mpr, List.map_map]
    · exact List.map_id' _
    · intro p hp
      obtain ⟨frame, -, rfl⟩ := List.mem_map.mp hp
      simp
  · rename_i hi
    rw [List.filter_eq_nil_iff.mpr]
    · rfl
    · intro p hp
      obtain ⟨frame, -, rfl⟩ := List.mem_map.mp hp
      simpa using Ne.symm hi

/-- **A publication reaches every subscriber once for each subscription, and nobody else.**  In every
state that passes and parts of passes lead to, a PUBLISH of a connection that may publish, followed
by the delivery of the outbox: the publisher is answered with its own frames and the number of all of
them, and every other connection is handed, behind what was waiting for it, one frame if it holds the
channel and one for each of its patterns that matches. -/
theorem publish_reaches (store : Store) (persist : Persist) (config : Config) (stats : Stats)
    (phases : List Phase) (e : Env) (w : World) :
    Act.Sat (Act.forList Phase.step phases) e (start store persist config stats) w (fun _ s w' =>
      ∀ id c, s.connections.lookup id = some c → c.client.confined "PUBLISH" = false →
        ∀ verb channel payload, Act.Sat (do
          let r ← attend id c (onServed (execute "PUBLISH" [verb, channel, payload]))
          deliverOutbox
          pure r : Run EventLoop Response) e s w' (fun r s' _ =>
            (∃ own, own.Perm (Hub.owedTo c.client channel payload) ∧
              r = .frames (own ++ [.integer (s.hub.owed channel payload).length])) ∧
            ∀ i c', i ≠ id → s.connections.lookup i = some c' →
              ∃ sent, sent.Perm (Hub.owedTo c'.client channel payload) ∧
                s'.connections.lookup i = some (c'.handed (framesFor s.app.outbox i ++ sent)))
          (fun _ => True)) (fun _ => True) := by
  refine Act.sat_mono (run_follows store persist config stats phases e w) ?_ (fun _ h => h)
  rintro _ s w' ⟨hr, -⟩ id c hc hfree verb channel payload
  have hid : c.client.id = id := (hr.ids id c.client (hub_clients hc)).1
  unfold attend onServed
  rw [Act.sat_bind, Act.sat_zoom, Act.sat_zoom]
  refine Act.sat_mono (Hub.execute_publish (h := s.hub) hr (c := c.client) verb e w') ?_ (fun _ h => h)
  intro r t w₁ hdelivered
  rw [if_neg (by rw [hfree]; exact Bool.false_ne_true)] at hdelivered
  obtain ⟨own, others, hresponse, houtbox, hothers, hperm⟩ := hdelivered
  rw [Act.sat_bind]
  refine Act.sat_mono deliverOutbox_spec ?_ (fun _ h => h)
  rintro _ s' w₂ ⟨-, hlookup⟩
  rw [hid] at hothers hperm
  rw [Act.sat_pure]
  refine ⟨⟨own, ?_, hresponse⟩, fun i c' hi hc' => ⟨framesFor others i, ?_, ?_⟩⟩
  · have hmine := framesFor_perm hperm id
    have hnone : framesFor others id = [] := by
      unfold framesFor
      rw [List.filter_eq_nil_iff.mpr fun p hp => by simpa using hothers p hp]
      rfl
    rwa [framesFor_append, framesFor_own, if_pos rfl, hnone, List.append_nil,
      framesFor_owed hr (hub_clients hc)] at hmine
  · have htheirs := framesFor_perm hperm i
    rwa [framesFor_append, framesFor_own, if_neg hi, List.nil_append,
      framesFor_owed hr (hub_clients hc')] at htheirs
  · rw [hlookup i, Assoc.lookup_insert_eq, if_neg hi, hc', houtbox, framesFor_append]
    rfl

end EventLoop

end Klyro
