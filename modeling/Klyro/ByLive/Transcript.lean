import Klyro.ByLive.Served

/-!
# Expiry that nobody notices

Keys that are due go away when they are looked at or when the sweep comes by.  Which of them have gone,
and when, makes no difference to any client: a run with sweeps and lookups in between is answered as the
run of its requests alone.

* `Moment` — surroundings whose clocks stand.
* `Chore`, `Occurrence`, `transcript` — runs of the server, with what the clients are answered.
* `transcript_filter` — the chores of a run are not seen.
* `expiry_unseen` — two runs with the same requests.
-/

set_option autoImplicit false

namespace Klyro

open Act Store

/-! ## Runs -/

/-- Surroundings whose clocks stand. -/
structure Moment where
  env : Env
  time : SystemTime
  instant : Instant
  paused : env.PausedAt time instant

/-- The server and its clients. -/
structure Room where
  app : App
  clients : Nat → Client

/-- How keys that are due are found. -/
inductive Chore where
  | sweep
  | look (key : Bytes)

/-- What the store does about them. -/
def Chore.run : Chore → Run Store Unit
  | .sweep => sweepExpired
  | .look key => expireIfDue key

/-- What happens to the server, and when. -/
inductive Occurrence where
  | chore (moment : Moment) (task : Chore)
  | request (moment : Moment) (id : Nat) (argv : List Bytes)

namespace Occurrence

/-- When it happens. -/
def moment : Occurrence → Moment
  | chore moment _ => moment
  | request moment _ _ => moment

/-- Whether a client is behind it. -/
def isRequest : Occurrence → Bool
  | chore _ _ => false
  | request _ _ _ => true

/-- A request shows no more than the live keys. -/
def OnRecord : Occurrence → Prop
  | chore _ _ => True
  | request _ _ argv => Klyro.OnRecord argv

/-- One is not later than the other. -/
def NotAfter (event event' : Occurrence) : Prop := event.moment.time ≤ event'.moment.time

end Occurrence

namespace Room

/-- A request of a client. -/
def serve (id : Nat) (argv : List Bytes) : Run Room (Option Response) :=
  Act.zoom (fun r => ⟨r.app, r.clients id⟩)
    (fun s r => { app := s.app, clients := Function.update r.clients id s.client }) (dispatch argv)

/-- Run on the keyspace. -/
def onStore {α : Type} (m : Run Store α) : Run Room α :=
  Act.zoom (fun r => r.app.store) (fun s r => { r with app := { r.app with store := s } }) m

/-- What can be seen at `t`. -/
def seen (t : SystemTime) (r : Room) : (Keyspace × App) × (Nat → Client) := (r.app.seen t, r.clients)

/-- No limit, and every queue on record. -/
structure Plain (r : Room) : Prop where
  app : r.app.Unlimited
  clients : ∀ id, (r.clients id).OnRecord

end Room

/-- What happens to the server, with the answers to the client. -/
def Occurrence.run : Occurrence → Run Room (List (Option Response))
  | .chore _ task => (fun _ => []) <$> Room.onStore task.run
  | .request _ id argv => (fun response => [response]) <$> Room.serve id argv

/-- All the answers of a run, up to a panic. -/
def transcript : List Occurrence → Room → World → List (Option Response) × Option Panic
  | [], _, _ => ([], none)
  | event :: events, room, w =>
    match event.run event.moment.env room w with
    | .done responses room' w' =>
      let later := transcript events room' w'
      (responses ++ later.1, later.2)
    | .panicked p => ([], some p)

/-- Surroundings that tell nothing but the time. -/
def Moment.still (nanos : Nat) : Moment := ⟨stillEnv nanos, nanos, 0, ⟨fun _ => rfl, fun _ => rfl⟩⟩

/-- A server that was just started. -/
def Room.fresh : Room := ⟨{}, fun id => { id := id, addr := "127.0.0.1", created := 0 }⟩

theorem Room.fresh_plain : Room.fresh.Plain :=
  ⟨⟨Store.indexed_empty {}, rfl⟩, fun _ _ h => by cases h⟩

/-! ## One event -/

section events

variable {e : Env} {t u : SystemTime} {room room' : Room} {w w' : World}

theorem liveAt_liveAt (K : Keyspace) (h : t ≤ u) : Keyspace.liveAt (K.liveAt t) u = K.liveAt u := by
  have hdue : ∀ x, Keyspace.due t x = true → Keyspace.due u x = true := by
    rintro (_ | ⟨v, _ | d⟩) hx
    · exact hx
    · exact hx
    · unfold Keyspace.due at hx ⊢
      rw [decide_eq_true_eq] at hx ⊢
      exact hx.trans h
  funext key
  unfold Keyspace.liveAt
  by_cases hx : Keyspace.due t (K key) = true
  · rw [if_pos hx, if_pos (hdue _ hx)]
    split <;> rfl
  · rw [if_neg hx]

/-- What is seen later depends on what is seen now. -/
theorem Room.seen_later (hsee : room.seen t = room'.seen t) (h : t ≤ u) : room.seen u = room'.seen u := by
  have hlive : room.app.store.live t = room'.app.store.live t := congrArg (fun x => x.1.1) hsee
  have hlater : room.app.store.live u = room'.app.store.live u := by
    unfold Store.live at hlive ⊢
    rw [← liveAt_liveAt _ h, hlive, liveAt_liveAt _ h]
  have hrest : room.app.beside = room'.app.beside := congrArg (fun x => x.1.2) hsee
  have hclients : room.clients = room'.clients := congrArg Prod.snd hsee
  exact Prod.ext (Prod.ext hlater hrest) hclients

theorem Chore.run_live (ht : e.StandsAt t) {s : Store} (hs : Indexed s) (task : Chore) :
    Sat task.run e s w (fun _ s' _ => Indexed s' ∧ s'.live t = s.live t) (fun _ => False) := by
  cases task with
  | sweep =>
    refine sat_mono (sat_and (sweepExpired_refines ht hs) (keepsIndexes_sweepExpired s w hs)) ?_ ?_
    · exact fun _ _ _ hend => ⟨hend.2, hend.1⟩
    · exact fun _ hp => hp.1
  | look key =>
    refine sat_mono (expireIfDue_spec key) ?_ (fun p hp => hp.2 hs)
    rintro _ s' w' ⟨-, hview, hidx⟩
    rw [ht] at hview
    exact ⟨hidx hs, live_expire hview⟩

/-- **A chore is not seen**, and goes well. -/
theorem chore_unseen {moment : Moment} {task : Chore} (hroom : room.Plain) :
    Sat (Occurrence.chore moment task).run moment.env room w (fun responses room' _ => responses = [] ∧
      room'.Plain ∧ room'.seen moment.time = room.seen moment.time) (fun _ => False) := by
  unfold Occurrence.run Room.onStore
  rw [sat_map, sat_zoom]
  refine sat_mono (Chore.run_live moment.paused.clock hroom.app.indexed task) ?_ (fun _ h => h)
  rintro _ s' w' ⟨hidx, hlive⟩
  refine ⟨rfl, ⟨⟨hidx, hroom.app.limit⟩, hroom.clients⟩, ?_⟩
  exact Prod.ext (Prod.ext hlive rfl) rfl

/-- **A request is answered from what is seen.** -/
theorem request_seen (moment : Moment) (id : Nat) {argv : List Bytes} (h : OnRecord argv) :
    Act.Settled Room.Plain (Room.seen moment.time) moment.env (Occurrence.request moment id argv).run := by
  refine settled_map _ ?_
  refine settled_zoom (fun x => (x.1, x.2 id)) (fun y x => (y.1, Function.update x.2 id y.2)) ?_ ?_
    (fun _ => rfl) (fun _ _ => rfl) (dispatch_seen moment.paused h)
  · exact fun _ hroom => ⟨hroom.app, hroom.clients id⟩
  · intro room s hroom hs
    refine ⟨hs.app, fun id' => ?_⟩
    dsimp only
    rw [Function.update_apply]
    split
    · exact hs.client
    · exact hroom.clients id'

end events

/-! ## Whole runs -/

theorem transcript_cons {event : Occurrence} {events : List Occurrence} {room : Room} {w : World}
    {x : List (Option Response) × Option Panic}
    (h : Sat event.run event.moment.env room w (fun responses room' w' =>
        (responses ++ (transcript events room' w').1, (transcript events room' w').2) = x)
      (fun p => ([], some p) = x)) : transcript (event :: events) room w = x := by
  unfold Sat at h
  rw [transcript]
  cases hrun : event.run event.moment.env room w with
  | done responses room' w' =>
    rw [hrun] at h
    exact h
  | panicked p =>
    rw [hrun] at h
    exact h

/-- **The chores of a run are not seen.** -/
theorem transcript_filter (events : List Occurrence) : ∀ (room room' : Room) (w w' : World),
    events.Pairwise Occurrence.NotAfter → (∀ event ∈ events, event.OnRecord) → room.Plain → room'.Plain →
    (∀ event ∈ events, room.seen event.moment.time = room'.seen event.moment.time) →
    transcript events room w = transcript (events.filter Occurrence.isRequest) room' w' := by
  induction events with
  | nil => exact fun _ _ _ _ _ _ _ _ _ => rfl
  | cons event events ih =>
    intro room room' w w' hsorted hrecord hroom hroom' hsee
    obtain ⟨hfirst, hsortedTail⟩ := List.pairwise_cons.mp hsorted
    obtain ⟨hhead, hrecordTail⟩ := List.forall_mem_cons.mp hrecord
    have hnow := hsee event List.mem_cons_self
    cases event with
    | chore moment task =>
      rw [List.filter_cons_of_neg Bool.false_ne_true]
      refine transcript_cons (sat_mono (chore_unseen hroom) ?_ (fun _ h => h.elim))
      rintro _ next w₁ ⟨rfl, hnext, hsame⟩
      refine ih next room' w₁ w' hsortedTail hrecordTail hnext hroom' fun later hmem => ?_
      exact Room.seen_later (hsame.trans hnow) (hfirst later hmem)
    | request moment id argv =>
      rw [List.filter_cons_of_pos rfl]
      have hrequest := request_seen moment id hhead
      refine transcript_cons (sat_mono (hrequest.alike hroom hroom' hnow w w') ?_ ?_)
      · intro responses next w₁ hother
        symm
        refine transcript_cons (sat_mono hother ?_ (fun _ h => h.elim))
        rintro responses' next' w₁' ⟨rfl, hnext, hnext', hsame⟩
        rw [ih next next' w₁ w₁' hsortedTail hrecordTail hnext hnext' fun later hmem =>
          Room.seen_later hsame (hfirst later hmem)]
      · intro p hother
        symm
        refine transcript_cons (sat_mono hother (fun _ _ _ h => h.elim) ?_)
        rintro q rfl
        rfl

/-- **Expiry is not noticed.** Two runs with the same requests, each with sweeps and lookups of its own in
between, are answered alike. -/
theorem expiry_unseen {events events' : List Occurrence} {room : Room} (w w' : World) (hroom : room.Plain)
    (hrequests : events.filter Occurrence.isRequest = events'.filter Occurrence.isRequest)
    (hsorted : events.Pairwise Occurrence.NotAfter) (hsorted' : events'.Pairwise Occurrence.NotAfter)
    (hrecord : ∀ event ∈ events, event.OnRecord) :
    transcript events room w = transcript events' room w' := by
  have hrecord' : ∀ event ∈ events', event.OnRecord := by
    intro event hmem
    cases event with
    | chore moment task => trivial
    | request moment id argv =>
      have hrequest := List.mem_filter.mpr ⟨hmem, (rfl : (Occurrence.request moment id argv).isRequest = true)⟩
      rw [← hrequests] at hrequest
      exact hrecord _ (List.mem_filter.mp hrequest).1
  have hplain := transcript_filter events room room w w' hsorted hrecord hroom hroom fun _ _ => rfl
  have hplain' := transcript_filter events' room room w' w' hsorted' hrecord' hroom hroom fun _ _ => rfl
  rw [hplain, hrequests, hplain']

/-- A key with ten milliseconds to live, asked for after twenty. -/
def lateRequests : List Occurrence :=
  [.request (.still 0) 1 (["SET", "k", "v", "PX", "10"].map Text.bytes),
    .request (.still 20000000) 2 (["GET", "k"].map Text.bytes)]

/-- The same after the sweep came by. -/
def lateRequestsSwept : List Occurrence :=
  [.request (.still 0) 1 (["SET", "k", "v", "PX", "10"].map Text.bytes),
    .chore (.still 20000000) .sweep,
    .request (.still 20000000) 2 (["GET", "k"].map Text.bytes)]

theorem expiry_unseen_late :
    transcript lateRequestsSwept .fresh {} = transcript lateRequests .fresh {} := by
  refine expiry_unseen {} {} Room.fresh_plain rfl ?_ ?_ ?_
  · simp [lateRequestsSwept, Occurrence.NotAfter, Occurrence.moment, Moment.still]
  · simp [lateRequests, Occurrence.NotAfter, Occurrence.moment, Moment.still]
  · simp only [lateRequestsSwept, List.forall_mem_cons, Occurrence.OnRecord]
    exact ⟨by decide +kernel, trivial, by decide +kernel, by simp⟩

end Klyro
