import Klyro.Commands.Heeds
import Klyro.Server.Drained

/-!
# No wake-up is lost

A parked command is run again only when a key it waits for is ready, so every key that comes to hold
a list or a sorted set while somebody waits for it has to become ready.

* `Await` — of the keys some parked commands wait for, those that hold something to pop are ready.
* `Heeded` — the registry is so, and every command in it waits for the keys its arguments name.
* `served_heeded` — a request keeps it, parked or not.
* `scan_heeded` — a scan of the registry, whose taken keys no longer count for the commands behind.
* `wakeups_kept` — a run; at the end of `serve_ready_keys` nobody waits for a key with something to
  pop.
-/

set_option autoImplicit false

namespace Klyro

open Store Keyspace Served

/-! ## Housekeeping -/

instance : Lookups Shy where
  refl := .refl
  trans _ _ _ := .trans
  of_glances h := by
    intro k x d hx _
    rcases h.kept k with hk | hk
    · exact ⟨x, d, hk ▸ hx, rfl⟩
    · rw [hk] at hx
      cases hx

theorem sweepExpired_shy : Act.Within Shy Store.sweepExpired := by
  refine Act.within_bind (Act.within_of_same fun _ _ _ => rfl) fun t => ?_
  refine Act.within_bind Act.within_get fun s => Act.within_forList (fun key => ?_) _
  refine Act.within_bind (fun _ _ _ => ?_) fun _ => Act.within_modify fun s => Shy.refl s
  exact Act.sat_mono (removeEntry_spec key)
    (fun _ _ _ h => .of_update h.2.2.1 fun _ _ hx => (by cases hx)) (fun _ _ => trivial)

/-- A memory index that is changed in place is no list and no sorted set. -/
theorem existingMemory_shy {α : Type} (use : Run Memory α) (key : Bytes) :
    Act.Within Shy (existingMemory key use) := by
  intro e s w
  have hexpire : ∀ {s' : Store} {t : SystemTime}, s'.view = s.view.expire t key → Shy s s' := by
    intro s' t hview k x d hx _
    rw [hview] at hx
    by_cases hk : k = key
    · rw [hk, expire_self] at hx
      unfold liveAt at hx
      split at hx
      · cases hx
      · exact ⟨x, d, hk ▸ hx, rfl⟩
    · rw [expire_of_ne hk] at hx
      exact ⟨x, d, hx, rfl⟩
  refine sat_existingMemory (fun _ _ => trivial) (fun _ _ _ _ hview _ => hexpire hview) ?_
  intro m d s' w' _ _ hview _
  refine Act.sat_mono (Act.sat_true use) ?_ (fun _ _ => trivial)
  intro _ m' _ _
  refine (hexpire hview).trans (.of_update view_setValue fun v d hv => ?_)
  obtain ⟨_, -, hv⟩ := Option.map_eq_some_iff.mp hv
  cases hv
  rintro (h | h) <;> cases h

theorem sweepMemoryRecords_shy : Act.Within (Following Shy) App.sweepMemoryRecords := by
  refine Act.within_bind (onStore_look (Generic.ofNow_glances _)) fun keys => ?_
  refine Act.within_forList (fun key => Act.within_bind Act.within_get fun a => ?_) keys
  refine Act.within_bind (onStore_within (existingMemory_shy _ key)) fun found => ?_
  cases found with
  | none => exact Act.within_pure _
  | some dropped =>
    refine Act.within_ite ?_ (Act.within_pure _)
    refine Act.within_bind (aside_within fun _ => ⟨rfl, rfl⟩) fun _ => ?_
    exact onStore_within (Act.within_modify fun s => Shy.refl s)

theorem tick_heeds : Act.Within Heeds App.tick := by
  have hshy : Act.Within (Following Shy) App.tick :=
    tick_within sweepExpired_shy sweepMemoryRecords_shy fun e a w =>
      Act.sat_mono (App.save_idles e a w) (fun _ _ _ hq => hq.shy) (fun _ _ => trivial)
  intro e a w
  refine Act.sat_mono (Act.sat_and (Act.sat_and (hshy e a w) (tick_firm e a w)) (Hub.tick_aside e a w))
    ?_ (fun _ _ => trivial)
  rintro _ a' w' ⟨⟨hshy, hfirm⟩, haside⟩
  refine ⟨haside.blocked, fun key hk => haside.readyKeys ▸ hk, fun _ _ key _ x d hx hpop => .inr ?_,
    hfirm⟩
  obtain ⟨x', d', hx', htype⟩ := hshy key x d hx hpop
  exact ⟨x', d', hx', htype ▸ hpop⟩

/-! ## The registry -/

/-- Of the keys these parked commands wait for, those that hold a list or a sorted set are among
the ready ones. -/
def Await (waiters : List Blocked) (ready : List Bytes) (s : Store) : Prop :=
  ∀ waiter ∈ waiters, ∀ key ∈ waiter.keys, ∀ x d, s.view key = some (x, d) → Poppable x.typeOf →
    key ∈ ready

/-- A parked command waits for the keys its arguments name. -/
def Blocked.Sound (waiter : Blocked) : Prop :=
  waiter.keys = Blocking.waits (toUpper (arg waiter.argv 0)) waiter.argv

theorem Await.heeds {waiters : List Blocked} {a a' : App} (taken : List Bytes)
    (h : Await waiters (taken ++ a.readyKeys) a.store) (hmem : ∀ waiter ∈ waiters, waiter ∈ a.blocked)
    (hheeds : Heeds a a') : Await waiters (taken ++ a'.readyKeys) a'.store := by
  intro waiter hw key hk x d hx hpop
  rcases hheeds.fresh waiter (hmem waiter hw) key hk x d hx hpop with hready | ⟨x', d', hx', hpop'⟩
  · exact List.mem_append_right _ hready
  · rcases List.mem_append.mp (h waiter hw key hk x' d' hx' hpop') with htaken | hready
    · exact List.mem_append_left _ htaken
    · exact List.mem_append_right _ (hheeds.ready key hready)

theorem Await.mono {waiters waiters' : List Blocked} {ready : List Bytes} {s : Store}
    (h : Await waiters ready s) (hmem : ∀ waiter ∈ waiters', waiter ∈ waiters) :
    Await waiters' ready s := fun waiter hw => h waiter (hmem waiter hw)

/-- A command that has just found its keys absent. -/
theorem await_of_absent {waiter : Blocked} {ready : List Bytes} {s : Store}
    (h : Blocking.Absent waiter.keys s) : Await [waiter] ready s := by
  intro waiter' hw key hk x d hx
  rw [List.mem_singleton] at hw
  subst hw
  rw [h key hk] at hx
  cases hx

/-- **The registry is heeded**: every key somebody waits for that holds a list or a sorted set is
ready. -/
structure Heeded (a : App) : Prop where
  nonEmpty : NonEmpty a.store
  sound : ∀ waiter ∈ a.blocked, waiter.Sound
  awaited : Await a.blocked a.readyKeys a.store

theorem Heeded.heeds {a a' : App} (h : Heeded a) (hheeds : Heeds a a') : Heeded a' where
  nonEmpty := hheeds.nonEmpty h.nonEmpty
  sound waiter hw := h.sound waiter (hheeds.blocked ▸ hw)
  awaited := by
    rw [hheeds.blocked]
    exact Await.heeds [] h.awaited (fun _ hw => hw) hheeds

/-- Parked commands leave the registry. -/
theorem Heeded.fewer {a : App} (h : Heeded a) (blocked : List Blocked)
    (hmem : ∀ waiter ∈ blocked, waiter ∈ a.blocked) : Heeded { a with blocked := blocked } where
  nonEmpty := h.nonEmpty
  sound waiter hw := h.sound waiter (hmem waiter hw)
  awaited := h.awaited.mono hmem

/-! ## Requests -/

section requests

variable {e : Env} (argv : List Bytes)

/-- Whom a request parks, and what it has looked for. -/
theorem dispatch_waits (s : Served) (w : World) (hn : NonEmpty s.app.store) :
    Act.Sat (dispatch argv) e s w (fun r s' _ => ∀ response ∈ r, ∀ block ∈ response.block,
      block.Sound ∧ Blocking.Absent block.keys s'.app.store) (fun _ => True) := by
  have hparks : Act.Sat (dispatch argv) e s w
      (fun r _ _ => ∀ response ∈ r, Parks s.client argv response) (fun _ => True) := dispatch_parks e s w
  have hwaits : Act.Sat (dispatch argv) e s w (fun r s' _ => ∀ response ∈ r, ∀ block ∈ response.block,
      block.keys = Blocking.waits (toUpper (arg argv 0)) argv ∧
        Blocking.Absent (Blocking.waits (toUpper (arg argv 0)) argv) s'.app.store)
      (fun _ => True) := by
    unfold dispatch
    rw [Act.sat_ite]
    refine ⟨fun _ => fun _ h => (by cases h), fun _ => ?_⟩
    dsimp only
    rw [Act.sat_bind, Act.sat_get, Act.sat_ite]
    refine ⟨fun _ => ?_, fun _ => ?_⟩
    · rw [Act.sat_bind]
      refine Act.sat_mono (Act.returns_zoom Transactions.queue_awake e s w) ?_ (fun _ h => h)
      intro r s' w' hr response hresponse block hb
      cases hresponse
      rw [hr] at hb
      cases hb
    · rw [Act.sat_bind]
      refine Act.sat_mono (executeWith_waits exec_awake s w hn) ?_ (fun _ h => h)
      intro r s' w' hr response hresponse
      cases hresponse
      exact hr
  refine Act.sat_mono (Act.sat_and hparks hwaits) ?_ (fun _ _ => trivial)
  rintro r s' w' ⟨hparks, hwaits⟩ response hresponse block hb
  obtain ⟨hkeys, habsent⟩ := hwaits response hresponse block hb
  have hargv := (hparks response hresponse block hb).2.1
  refine ⟨?_, hkeys ▸ habsent⟩
  unfold Blocked.Sound
  rw [hargv, hkeys]

/-- **A request keeps the registry heeded**, the command it parks included. -/
theorem served_heeded (s : Served) (w : World) (hs : Heeded s.app) :
    Act.Sat (served argv) e s w (fun _ s' _ => Heeded s'.app) (fun _ => True) := by
  unfold served
  rw [Act.sat_bind]
  refine Act.sat_mono (Act.sat_and (dispatch_heeds argv e s w) (dispatch_waits argv s w hs.nonEmpty)) ?_
    (fun _ _ => trivial)
  rintro response m w' ⟨hheeds, hwaits⟩
  have hm : Heeded m.app := hs.heeds hheeds
  cases response with
  | none => exact hm
  | some response =>
    dsimp only
    rw [Act.sat_bind]
    unfold Response.settle
    rw [Act.sat_modify, Act.sat_pure]
    cases hblock : response.block with
    | none => exact hm
    | some block =>
      obtain ⟨hsound, habsent⟩ := hwaits response rfl block hblock
      refine ⟨hm.nonEmpty, fun waiter hw => ?_, fun waiter hw => ?_⟩
      · rcases List.mem_append.mp hw with hw | hw
        · exact hm.sound waiter hw
        · rw [List.mem_singleton] at hw
          exact hw ▸ hsound
      · rcases List.mem_append.mp hw with hw | hw
        · exact hm.awaited waiter hw
        · exact await_of_absent habsent waiter hw

/-- A parked command that is run again and stays parked has found its keys absent. -/
theorem retry_waits (s : Served) (w : World) (hn : NonEmpty s.app.store) :
    Act.Sat (retry argv) e s w (fun r s' _ => r = none →
      Blocking.Absent (Blocking.waits (toUpper (arg argv 0)) argv) s'.app.store) (fun _ => True) := by
  unfold retry
  rw [Act.sat_bind]
  refine Act.sat_mono (executeWith_waits exec_awake s w hn) ?_ (fun _ h => h)
  intro response s' w' hwaits
  rw [Act.sat_bind, onApp, Act.sat_zoom, Act.sat_modify, Act.sat_pure]
  intro hnone
  cases hblock : response.block with
  | none =>
    rw [hblock] at hnone
    cases hnone
  | some block => exact (hwaits block hblock).2

end requests

/-! ## A connection that is served -/

/-- The registry stays heeded while a connection is served. -/
def Heeding (t t' : Attended) : Prop := Heeded t.app → Heeded t'.app

instance : IsPreorder Attended Heeding where
  refl _ h := h
  trans _ _ _ h h' ht := h' (h ht)

theorem onConn_heeding (f : Conn → Conn) : Act.Within Heeding (Attended.onConn f) :=
  Act.within_modify fun _ h => h

theorem run_heeding (argv : List Bytes) : Act.Within Heeding (Attended.run argv) := by
  intro e t w
  unfold Attended.run Attended.onServed
  rw [Act.sat_bind, Act.sat_zoom]
  by_cases ht : Heeded t.app
  · refine Act.sat_mono (served_heeded argv ⟨t.app, t.conn.client⟩ w ht) ?_ (fun _ h => h)
    exact fun _ _ _ hs _ => hs
  · exact Act.sat_mono (Act.sat_true _) (fun _ _ _ _ h => absurd h ht) (fun _ h => h)

theorem processLoop_heeding (maxBulk limit n : Nat) :
    Act.Within Heeding (processLoop maxBulk limit n) := by
  induction n with
  | zero => exact Act.within_pure _
  | succ n ih =>
    have hround : Act.Within Heeding (do
        let ends ← roundEnds limit
        if ends then pure () else processLoop maxBulk limit n : Run Attended Unit) := by
      refine Act.within_bind (Act.within_bind Act.within_get fun _ => ?_) fun _ =>
        Act.within_ite (Act.within_pure _) ih
      exact Act.within_ite (Act.within_bind (onConn_heeding _) fun _ => Act.within_pure _)
        (Act.within_pure _)
    refine Act.within_bind Act.within_get fun t => Act.within_ite (Act.within_pure _) ?_
    cases parseRequest t.conn.rbuf maxBulk with
    | none => exact Act.within_panic _
    | some parsed =>
      cases parsed with
      | incomplete => exact Act.within_pure _
      | error message => exact onConn_heeding _
      | request argv consumed =>
        refine Act.within_bind (onConn_heeding _) fun _ => ?_
        refine Act.within_bind (run_heeding argv) fun response => ?_
        cases response with
        | none => exact hround
        | some response =>
          exact Act.within_ite (Act.within_pure _)
            (Act.within_bind (onConn_heeding _) fun _ => hround)

theorem processRequests_heeding : Act.Within Heeding processRequests :=
  Act.within_bind Act.within_get fun _ => processLoop_heeding _ _ _

theorem attendReady_heeding (ready : Ready) : Act.Within Heeding (EventLoop.attendReady ready) := by
  have hread : ∀ result, Act.Within Heeding (handleRead result) := by
    intro result
    cases result with
    | bytes chunk =>
      exact Act.within_ite (onConn_heeding _)
        (Act.within_bind (onConn_heeding _) fun _ => processRequests_heeding)
    | wouldBlock => exact Act.within_pure _
    | failed => exact onConn_heeding _
  unfold EventLoop.attendReady
  refine Act.within_bind (onConn_heeding _) fun _ => ?_
  cases ready.input with
  | none =>
    cases ready.output with
    | none => exact Act.within_pure _
    | some results => exact onConn_heeding _
  | some result =>
    refine Act.within_bind (hread result) fun _ => ?_
    cases ready.output with
    | none => exact Act.within_pure _
    | some results => exact onConn_heeding _

/-! ## A pass -/

namespace EventLoop

variable {e : Env} {s : EventLoop} {w : World}

/-- The registry stays heeded. -/
def Heeding (s s' : EventLoop) : Prop := Heeded s.app → Heeded s'.app

instance : IsPreorder EventLoop Heeding where
  refl _ h := h
  trans _ _ _ h h' hs := h' (h hs)

/-- What changes the connections only. -/
theorem connections_heeding {f : EventLoop → EventLoop} (h : ∀ s, (f s).app = s.app) :
    Act.Within Heeding (Act.modify f : Run EventLoop Unit) := by
  refine Act.within_modify fun s hs => ?_
  rw [h s]
  exact hs

theorem onApp_heeding {α : Type} {m : Run App α} (h : Act.Within Heeds m) :
    Act.Within Heeding (onApp m) :=
  Act.within_zoom h fun _ _ hheeds hs => hs.heeds hheeds

theorem attend_heeding {α : Type} {m : Run Attended α} {id : Nat} {conn : Conn}
    (hm : Act.Within Klyro.Heeding m) : Act.Within Heeding (attend id conn m) :=
  Act.within_zoom hm fun _ _ h => h

theorem accept_heeding (addr : String) : Act.Within Heeding (accept addr) := by
  refine Act.within_bind (onApp_heeding (Act.within_modify fun a => ?_)) fun _ => ?_
  · exact Trims.heeds ⟨⟨rfl, fun _ h => h⟩, refl_of Fewer a.store⟩
  refine Act.within_bind (onApp_heeding fun _ a _ => ?_) fun id => ?_
  · exact Trims.heeds ⟨⟨rfl, fun _ h => h⟩, refl_of Fewer a.store⟩
  refine Act.within_bind (Act.within_of_same fun _ _ _ => rfl) fun created => ?_
  refine Act.within_bind Act.within_get fun s => Act.within_ite ?_ (connections_heeding fun _ => rfl)
  refine Act.within_bind (onApp_heeding (Act.within_modify fun a => ?_)) fun _ =>
    connections_heeding fun _ => rfl
  exact Trims.heeds ⟨⟨rfl, fun _ h => h⟩, refl_of Fewer a.store⟩

theorem turn_heeding (p : Nat × Ready) : Act.Within Heeding (turn p) := by
  refine Act.within_bind Act.within_get fun s => ?_
  refine Act.within_bind (Act.within_expect _ _) fun conn => ?_
  exact attend_heeding (attendReady_heeding p.2)

theorem resume_heeding (woken : List Nat) : Act.Within Heeding (resume woken) := by
  refine Act.within_forList (fun id => Act.within_bind Act.within_get fun s => ?_) woken
  cases s.connections.lookup id with
  | none => exact Act.within_pure _
  | some conn => exact attend_heeding processRequests_heeding

/-- What a parked command that is run again does for the others. -/
theorem retryWaiter_heeds (waiter : Blocked) (t : Attended) (hn : NonEmpty t.app.store) :
    Act.Sat (retryWaiter waiter) e t w (fun answered t' _ => Heeds t.app t'.app ∧
      (answered = false → waiter.Sound → Blocking.Absent waiter.keys t'.app.store))
      (fun _ => True) := by
  unfold retryWaiter Attended.onServed
  rw [Act.sat_bind, Act.sat_zoom]
  refine Act.sat_mono (Act.sat_and (retry_heeds waiter.argv e ⟨t.app, t.conn.client⟩ w)
    (retry_waits waiter.argv ⟨t.app, t.conn.client⟩ w hn)) ?_ (fun _ _ => trivial)
  rintro reply s' w' ⟨hheeds, habsent⟩
  cases reply with
  | none =>
    refine ⟨hheeds, fun _ hsound => ?_⟩
    rw [show waiter.keys = _ from hsound]
    exact habsent rfl
  | some reply => exact ⟨hheeds, fun h => (by cases h)⟩

/-- The scan in the middle of the registry: the keys that were taken still count for the commands
behind, and no more for those before. -/
structure Scanning (taken : List Bytes) (before behind : List Blocked) (a : App) : Prop where
  blocked : a.blocked = before ++ behind
  nonEmpty : NonEmpty a.store
  sound : ∀ waiter ∈ before ++ behind, waiter.Sound
  before : Await before a.readyKeys a.store
  behind : Await behind (taken ++ a.readyKeys) a.store

section scanning

variable {taken : List Bytes} {before behind : List Blocked} {a a' : App} {waiter : Blocked}

/-- The scan has come to the end of the registry. -/
theorem Scanning.finished (h : Scanning taken before [] a) : Heeded a where
  nonEmpty := h.nonEmpty
  sound waiter hw := h.sound waiter (h.blocked ▸ hw)
  awaited := by
    rw [h.blocked, List.append_nil]
    exact h.before

/-- A command stays in its place: it waits for keys that are ready, if they hold anything to pop. -/
theorem Scanning.pass (h : Scanning taken before (waiter :: behind) a)
    (hwaiter : Await [waiter] a.readyKeys a.store) : Scanning taken (before ++ [waiter]) behind a where
  blocked := by rw [h.blocked, List.append_assoc, List.singleton_append]
  nonEmpty := h.nonEmpty
  sound := by
    rw [List.append_assoc, List.singleton_append]
    exact h.sound
  before waiter' hw := by
    rcases List.mem_append.mp hw with hw | hw
    · exact h.before waiter' hw
    · exact hwaiter waiter' hw
  behind := h.behind.mono fun _ hw => List.mem_cons_of_mem _ hw

/-- None of the keys of a command was taken. -/
theorem Scanning.skip (h : Scanning taken before (waiter :: behind) a)
    (hnone : ¬ waiter.keys.any taken.contains) : Scanning taken (before ++ [waiter]) behind a := by
  refine h.pass fun waiter' hw key hk x d hx hpop => ?_
  rw [List.mem_singleton] at hw
  subst hw
  rcases List.mem_append.mp (h.behind waiter' List.mem_cons_self key hk x d hx hpop) with htaken | hready
  · refine absurd ?_ hnone
    rw [List.any_eq_true]
    exact ⟨key, hk, List.contains_iff_mem.mpr htaken⟩
  · exact hready

/-- A command leaves the registry. -/
theorem Scanning.erase (h : Scanning taken before (waiter :: behind) a) :
    Scanning taken before behind { a with blocked := a.blocked.eraseIdx before.length } where
  blocked := by
    show a.blocked.eraseIdx before.length = _
    rw [h.blocked, List.eraseIdx_append_of_length_le le_rfl, Nat.sub_self, List.eraseIdx_cons_zero]
  nonEmpty := h.nonEmpty
  sound waiter' hw := h.sound waiter' (by
    rcases List.mem_append.mp hw with hw | hw
    · exact List.mem_append_left _ hw
    · exact List.mem_append_right _ (List.mem_cons_of_mem _ hw))
  before := h.before
  behind := h.behind.mono fun _ hw => List.mem_cons_of_mem _ hw

/-- A command is run again. -/
theorem Scanning.heeds (h : Scanning taken before behind a) (hheeds : Heeds a a') :
    Scanning taken before behind a' where
  blocked := hheeds.blocked.trans h.blocked
  nonEmpty := hheeds.nonEmpty h.nonEmpty
  sound := h.sound
  before := Await.heeds [] h.before
    (fun _ hw => h.blocked ▸ List.mem_append_left _ hw) hheeds
  behind := Await.heeds taken h.behind (fun _ hw => h.blocked ▸ List.mem_append_right _ hw) hheeds

/-- It comes back to its place, having found its keys absent. -/
theorem Scanning.insert (h : Scanning taken before behind a) (hsound : waiter.Sound)
    (habsent : Blocking.Absent waiter.keys a.store) : Scanning taken (before ++ [waiter]) behind
      { a with blocked := a.blocked.insertIdx before.length waiter } where
  blocked := by
    show a.blocked.insertIdx before.length waiter = _
    rw [h.blocked, List.append_assoc, List.singleton_append]
    clear h
    induction before with
    | nil => rfl
    | cons b before ih => exact congrArg (b :: ·) ih
  nonEmpty := h.nonEmpty
  sound waiter' hw := by
    rw [List.append_assoc, List.singleton_append, List.mem_append, List.mem_cons] at hw
    rcases hw with hw | rfl | hw
    · exact h.sound waiter' (List.mem_append_left _ hw)
    · exact hsound
    · exact h.sound waiter' (List.mem_append_right _ hw)
  before waiter' hw := by
    rcases List.mem_append.mp hw with hw | hw
    · exact h.before waiter' hw
    · exact await_of_absent habsent waiter' hw
  behind := h.behind

end scanning

/-- **A scan keeps the registry heeded**, given that the taken keys count for everybody when it
starts. -/
theorem scan_heeded (taken : List Bytes) (n : Nat) : ∀ (before behind : List Blocked) (e : Env)
    (s : EventLoop) (w : World), Scanning taken before behind s.app → behind.length ≤ n →
    Act.Sat (scan taken n before.length) e s w (fun _ s' _ => Heeded s'.app) (fun _ => True) := by
  induction n with
  | zero =>
    intro before behind e s w h hlen
    cases behind with
    | nil => exact h.finished
    | cons waiter behind => cases hlen
  | succ n ih =>
    intro before behind e s w h hlen
    unfold scan
    rw [Act.sat_bind, Act.sat_get]
    cases behind with
    | nil =>
      have hnone : s.app.blocked[before.length]? = none := by
        rw [h.blocked, List.append_nil]
        exact List.getElem?_eq_none le_rfl
      rw [hnone]
      exact h.finished
    | cons waiter behind =>
      have hsome : s.app.blocked[before.length]? = some waiter := by
        rw [h.blocked, List.getElem?_append_right le_rfl, Nat.sub_self]
        rfl
      rw [hsome]
      have hbehind : behind.length ≤ n := Nat.le_of_succ_le_succ hlen
      dsimp only
      split
      · rw [Act.sat_bind]
        show Act.Sat _ e { s with app := { s.app with
          blocked := s.app.blocked.eraseIdx before.length } } w _ _
        have hout := h.erase
        cases hc : s.connections.lookup waiter.id with
        | none => exact ih before behind e _ w hout hbehind
        | some conn =>
          dsimp only
          split
          · exact ih before behind e _ w hout hbehind
          · unfold attend
            rw [Act.sat_bind, Act.sat_zoom]
            refine Act.sat_mono (retryWaiter_heeds waiter _ hout.nonEmpty) ?_ (fun _ h => h)
            rintro answered t w' ⟨hheeds, habsent⟩
            have ht : Scanning taken before behind t.app := hout.heeds hheeds
            cases answered with
            | true =>
              rw [if_pos rfl, Act.sat_bind]
              exact ih before behind e ⟨t.app, s.connections.insert waiter.id t.conn⟩ w' ht hbehind
            | false =>
              rw [if_neg Bool.false_ne_true, Act.sat_bind]
              have hsound := h.sound waiter (List.mem_append_right _ List.mem_cons_self)
              have hback := ht.insert hsound (habsent rfl hsound)
              have hrest := ih (before ++ [waiter]) behind e ⟨{ t.app with
                blocked := t.app.blocked.insertIdx before.length waiter },
                s.connections.insert waiter.id t.conn⟩ w' hback hbehind
              rwa [List.length_append] at hrest
      · rename_i hnone
        have hrest := ih (before ++ [waiter]) behind e s w (h.skip hnone) hbehind
        rwa [List.length_append] at hrest

theorem drainPass_heeding : Act.Within Heeding drainPass := by
  intro e s w
  by_cases hs : Heeded s.app
  · unfold drainPass
    rw [Act.sat_bind, Act.sat_get, Act.sat_bind]
    show Act.Sat _ e { s with app := { s.app with readyKeys := [] } } w _ _
    have hstart : Scanning s.app.readyKeys [] s.app.blocked { s.app with readyKeys := [] } :=
      ⟨rfl, hs.nonEmpty, hs.sound, fun _ hw => (by cases hw), by
        rw [List.append_nil]
        exact hs.awaited⟩
    rw [Act.sat_bind]
    refine Act.sat_mono (scan_heeded _ _ [] s.app.blocked e _ w hstart le_rfl) ?_ (fun _ h => h)
    intro woken s₁ w₁ hs₁
    exact Act.sat_mono (resume_heeding woken e s₁ w₁) (fun _ _ _ h _ => h hs₁) (fun _ h => h)
  · exact Act.sat_mono (Act.sat_true _) (fun _ _ _ _ h => absurd h hs) (fun _ h => h)

theorem readyLoop_heeding (n : Nat) : Act.Within Heeding (readyLoop n) := by
  induction n with
  | zero => exact Act.within_pure _
  | succ n ih =>
    intro e s w
    unfold Act.Sat
    rw [readyLoop_apply]
    by_cases hready : s.app.readyKeys.isEmpty
    · rw [if_pos hready]
      exact id
    · rw [if_neg hready]
      exact Act.within_bind drainPass_heeding (fun _ => ih) e s w

theorem serveReadyKeys_heeding : Act.Within Heeding serveReadyKeys :=
  Act.within_bind Act.within_get fun _ => readyLoop_heeding _

theorem serveTimeouts_heeding : Act.Within Heeding serveTimeouts := by
  have hlate : ∀ late, Act.Within Heeding (answerLate late) := by
    intro late
    induction late with
    | nil => exact Act.within_pure _
    | cons waiter late ih =>
      refine Act.within_bind Act.within_get fun s => ?_
      cases s.connections.lookup waiter.id with
      | none => exact ih
      | some conn =>
        refine Act.within_ite ih (Act.within_bind (connections_heeding fun _ => rfl) fun _ => ?_)
        exact Act.within_bind ih fun _ => Act.within_pure _
  refine Act.within_bind (fun e s w hs => ?_) fun late =>
    Act.within_bind (hlate late) fun woken => resume_heeding woken
  exact hs.fewer _ fun waiter hw => List.mem_of_mem_filter hw

theorem deliverOutbox_heeding : Act.Within Heeding deliverOutbox := by
  refine Act.within_bind Act.within_get fun s => ?_
  refine Act.within_bind (onApp_heeding (Act.within_modify fun a => ?_)) fun _ => ?_
  · exact Trims.heeds ⟨⟨rfl, fun _ h => h⟩, refl_of Fewer a.store⟩
  · exact Act.within_forList (fun _ => Act.within_modify fun _ hs => hs) _

theorem flush_heeding (writes : Nat → List WriteResult) : Act.Within Heeding (flush writes) :=
  Act.within_bind Act.within_get fun _ =>
    Act.within_forList (fun _ => Act.within_modify fun _ hs => hs) _

theorem remove_heeding (id : Nat) : Act.Within Heeding (remove id) := by
  intro e s w
  unfold remove
  rw [Act.sat_bind, Act.sat_get]
  cases hc : s.connections.lookup id with
  | none => exact refl_of Heeding s
  | some conn =>
    dsimp only
    rw [Act.sat_bind, Act.sat_modify, Act.sat_bind]
    unfold onApp App.forgetClient
    rw [Act.sat_zoom, Act.sat_bind, Act.sat_modify]
    refine Act.sat_mono (App.unwatchAll_releasedAll conn.client e _ w) ?_ (fun _ h => h)
    rintro _ a _ ⟨-, rfl⟩ hs
    have hleft := hs.fewer (s.app.blocked.filter fun waiter => waiter.id ≠ conn.client.id)
      fun waiter hw => List.mem_of_mem_filter hw
    exact ⟨hleft.nonEmpty, hleft.sound, hleft.awaited⟩

theorem close_heeding : Act.Within Heeding close :=
  Act.within_bind Act.within_get fun _ => Act.within_forList remove_heeding _

theorem pollOnce_heeding (pass : Pass) : Act.Within Heeding (pollOnce pass) := by
  have hwaits : Act.Within Heeding (onApp pollTimeout) := by
    refine onApp_heeding (Act.within_bind Act.within_get fun a => ?_)
    cases App.nextBlockDeadline a with
    | none => exact Act.within_pure _
    | some deadline =>
      exact Act.within_bind (Act.within_of_same fun _ _ _ => rfl) fun _ => Act.within_pure _
  cases pass with
  | interrupted => exact Act.within_bind hwaits fun _ => Act.within_pure _
  | ready accepted polled writes =>
    refine Act.within_bind Act.within_get fun s => Act.within_bind hwaits fun _ => ?_
    refine Act.within_bind (Act.within_forList accept_heeding accepted) fun _ => ?_
    refine Act.within_bind (Act.within_forList turn_heeding _) fun _ => ?_
    refine Act.within_bind serveReadyKeys_heeding fun _ => ?_
    refine Act.within_bind serveTimeouts_heeding fun _ => ?_
    refine Act.within_bind deliverOutbox_heeding fun _ => ?_
    refine Act.within_bind (flush_heeding writes) fun _ => Act.within_bind close_heeding fun _ => ?_
    refine Act.within_bind (Act.within_modify fun s hs => ?_) fun _ => onApp_heeding tick_heeds
    exact ⟨hs.nonEmpty, hs.sound, hs.awaited⟩

theorem step_heeding (phase : Phase) : Act.Within Heeding phase.step := by
  cases phase with
  | accept addr => exact accept_heeding addr
  | turn id ready => exact turn_heeding (id, ready)
  | serveReadyKeys => exact serveReadyKeys_heeding
  | serveTimeouts => exact serveTimeouts_heeding
  | deliverOutbox => exact deliverOutbox_heeding
  | flush writes => exact flush_heeding writes
  | close => exact close_heeding
  | pass p => exact pollOnce_heeding p

/-! ## Runs -/

/-- The loop ends with no key ready. -/
theorem serveReadyKeys_quiet (e : Env) (s : EventLoop) (w : World) :
    Act.Sat serveReadyKeys e s w (fun _ s' _ => s'.app.readyKeys = []) (fun _ => True) := by
  have hdrains : Drains e s w (serveReadyKeys e s w) := readyLoop_drains _ e s w (by omega)
  unfold Act.Sat
  split
  · exact hdrains.drained ‹_›
  · trivial

/-- **No wake-up is lost.**  A server loads a dump, whatever it says, and then goes through parts of
passes and passes in any order.  When the loop over the ready keys then ends, no parked command waits
for a key that holds, at whatever moment it is looked up, a value of the type the command pops from;
and the keys a parked command waits for are those its arguments name. -/
theorem wakeups_kept (phases : List Phase) (persist : Persist) (maxTerms : Nat) (e : Env) (a : App)
    (w : World) (started : Instant) :
    Act.Sat (do
        onApp (App.onStore (persist.load maxTerms))
        Act.forList Phase.step phases
        serveReadyKeys) e
      { app := { a with store := { started := started }, blocked := [] } } w
      (fun _ s _ => ∀ waiter ∈ s.app.blocked, ∀ key ∈ waiter.keys,
        key ∈ Blocking.waits (toUpper (arg waiter.argv 0)) waiter.argv ∧
        ∀ t x d, s.app.store.view.liveAt t key = some (x, d) →
          x.typeOf ≠ Blocking.pops (toUpper (arg waiter.argv 0)))
      (fun _ => True) := by
  rw [Act.sat_bind]
  unfold onApp App.onStore
  rw [Act.sat_zoom, Act.sat_zoom]
  refine Act.sat_mono (load_firm persist maxTerms e _ w) ?_ (fun _ _ => trivial)
  intro _ store w₁ hfirm
  have hloaded : Heeded { a with store := store, blocked := [] } :=
    ⟨hfirm fun _ _ _ h => (by cases h), fun _ hw => (by cases hw), fun _ hw => (by cases hw)⟩
  rw [Act.sat_bind]
  refine Act.sat_mono (Act.within_forList step_heeding phases e _ w₁) ?_ (fun _ h => h)
  intro _ s₂ w₂ hrun
  refine Act.sat_mono (Act.sat_and (serveReadyKeys_heeding e s₂ w₂) (serveReadyKeys_quiet e s₂ w₂)) ?_
    (fun _ _ => trivial)
  rintro _ s w' ⟨hkept, hquiet⟩ waiter hw key hk
  have hs : Heeded s.app := hkept (hrun hloaded)
  have hsound : waiter.keys = Blocking.waits (toUpper (arg waiter.argv 0)) waiter.argv := hs.sound waiter hw
  refine ⟨hsound ▸ hk, fun t x d hlive htype => ?_⟩
  have hstored : s.app.store.view key = some (x, d) := by
    unfold Keyspace.liveAt at hlive
    split at hlive
    · cases hlive
    · exact hlive
  have hready := hs.awaited waiter hw key hk x d hstored (htype ▸ Blocking.poppable_pops _)
  rw [hquiet] at hready
  cases hready

end EventLoop

end Klyro
