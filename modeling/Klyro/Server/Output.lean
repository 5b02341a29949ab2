import Klyro.Commands.OneLine
import Klyro.Server.Parked

/-!
# What a connection is sent

The write buffer of a connection is filled by replies to its requests, by answers to parked
commands, by messages of other clients and by the errors that close it, in whatever order these
come up in a pass; the socket takes from its front whatever it takes.

* `Note.frames`, `Conn.owed` — the frames a connection is owed for what happened on it.
* `Conn.Framed` — the write buffer is the latest of them, whole and in order.
* `Sound` — so it is for every connection, and what waits in the shared state is one-line.
* `output_framed` — so it is after any passes and parts of passes.
-/

set_option autoImplicit false

namespace Klyro

open Attended

/-! ## What is owed -/

/-- The frames that go out for what happened.  A request that parks is answered later. -/
def Note.frames : Note → List Reply
  | .ran _ none => []
  | .ran _ (some response) => if response.block.isSome then [] else response.replies
  | .woken reply | .timedOut reply | .refused reply => [reply]
  | .delivered frame => [frame]

theorem frames_ran_parked {argv : List Bytes} {response : Response} (h : response.block.isSome = true) :
    Note.frames (.ran argv (some response)) = [] := if_pos h

theorem frames_ran {argv : List Bytes} {response : Response} (h : ¬ response.block.isSome = true) :
    Note.frames (.ran argv (some response)) = response.replies := if_neg h

/-- The frames a connection is owed, oldest first. -/
def Conn.owed (c : Conn) : List Reply := c.history.reverse.flatMap Note.frames

/-- The bytes of frames, each in its version of the protocol. -/
def wire (frames : List (Protocol × Reply)) : Bytes := frames.flatMap fun p => encode p.1 p.2

/-- What is still to be sent. -/
def Conn.unsent (c : Conn) : Bytes := c.wbuf.drop c.wbufSent

/-- The bytes a socket takes while it is written to. -/
def sentBy : List WriteResult → Conn → Bytes
  | .taken n :: results, c =>
    if c.pendingOutput ∧ n ≠ 0 then
      c.unsent.take n ++ sentBy results { c with wbufSent := min (c.wbufSent + n) c.wbuf.length }
    else []
  | _, _ => []

/-- **A write sends the front of what is pending**, and keeps the rest. -/
theorem handleWrite_unsent (results : List WriteResult) : ∀ c : Conn,
    sentBy results c ++ (handleWrite results c).unsent = c.unsent := by
  have hdone : ∀ c : Conn, ¬ c.pendingOutput = true → c.unsent = [] := by
    intro c h
    unfold Conn.pendingOutput at h
    rw [decide_eq_true_eq, Nat.not_lt] at h
    exact List.drop_eq_nil_of_le h
  induction results with
  | nil =>
    intro c
    unfold handleWrite sentBy
    split
    · rfl
    · exact (hdone c ‹_›).symm
  | cons result results ih =>
    intro c
    unfold handleWrite
    by_cases hpending : c.pendingOutput = true
    · rw [if_pos hpending]
      cases result with
      | wouldBlock => rfl
      | failed => rfl
      | taken n =>
        unfold sentBy
        dsimp only
        by_cases hn : n = 0
        · rw [if_pos hn, if_neg fun h => h.2 hn]
          rfl
        · rw [if_neg hn, if_pos ⟨hpending, hn⟩, List.append_assoc, ih]
          unfold Conn.unsent
          dsimp only
          have hmin : c.wbuf.drop (min (c.wbufSent + n) c.wbuf.length) =
              (c.wbuf.drop c.wbufSent).drop n := by
            rw [List.drop_drop]
            rcases Nat.le_total (c.wbufSent + n) c.wbuf.length with h | h
            · rw [min_eq_left h]
            · rw [min_eq_right h, List.drop_length, List.drop_eq_nil_of_le h]
          rw [hmin, List.take_append_drop]
    · rw [if_neg hpending, hdone c hpending]
      have hnone : sentBy (result :: results) c = [] := by
        cases result with
        | taken n =>
          unfold sentBy
          exact if_neg fun h => hpending h.1
        | _ => rfl
      rw [hnone]
      rfl

/-! ## One connection -/

/-- The write buffer is the latest frames the connection is owed, whole and in order. -/
structure Conn.Framed (c : Conn) : Prop where
  sent : c.wbufSent ≤ c.wbuf.length
  whole : ∃ frames, (∀ p ∈ frames, p.2.OneLine) ∧ frames.map Prod.snd <:+ c.owed ∧
    c.wbuf = wire frames

theorem framed_new (client : Client) : ({ client := client } : Conn).Framed :=
  ⟨le_rfl, [], fun _ h => (by cases h), List.suffix_rfl, rfl⟩

/-- What the write buffer, the part sent and the history have not changed. -/
theorem Conn.Framed.of_same {c c' : Conn} (h : c.Framed) (hbuf : c'.wbuf = c.wbuf)
    (hsent : c'.wbufSent = c.wbufSent) (howed : c'.owed = c.owed) : c'.Framed := by
  refine ⟨by rw [hsent, hbuf]; exact h.sent, ?_⟩
  rw [howed, hbuf]
  exact h.whole

theorem wire_append (frames frames' : List (Protocol × Reply)) :
    wire (frames ++ frames') = wire frames ++ wire frames' := List.flatMap_append

theorem owed_noted (note : Note) (c : Conn) : (c.noted note).owed = c.owed ++ note.frames := by
  unfold Conn.owed Conn.noted
  simp

theorem suffix_append_right {α : Type} {l l' : List α} (h : l <:+ l') (t : List α) :
    l ++ t <:+ l' ++ t := by
  obtain ⟨s, rfl⟩ := h
  exact ⟨s, (List.append_assoc s l t).symm⟩

/-- Frames go out with the note they are owed for. -/
theorem Conn.Framed.grow {c c' : Conn} (h : c.Framed) (frames : List (Protocol × Reply))
    (hone : ∀ p ∈ frames, p.2.OneLine) (hsent : c'.wbufSent = c.wbufSent)
    (hbuf : c'.wbuf = c.wbuf ++ wire frames) (howed : c'.owed = c.owed ++ frames.map Prod.snd) :
    c'.Framed := by
  obtain ⟨old, hold, hsuffix, hwire⟩ := h.whole
  refine ⟨?_, old ++ frames, ?_, ?_, ?_⟩
  · rw [hsent, hbuf, List.length_append]
    exact h.sent.trans (Nat.le_add_right _ _)
  · intro p hp
    exact (List.mem_append.mp hp).elim (hold p) (hone p)
  · rw [List.map_append, howed]
    exact suffix_append_right hsuffix _
  · rw [hbuf, hwire, wire_append]

/-- One frame goes out with its note. -/
theorem Conn.Framed.pushed {c c' : Conn} (h : c.Framed) (reply : Reply) (hone : reply.OneLine)
    (hsent : c'.wbufSent = c.wbufSent) (hbuf : c'.wbuf = c.wbuf ++ encode c.client.protocol reply)
    (howed : c'.owed = c.owed ++ [reply]) : c'.Framed := by
  refine h.grow [(c.client.protocol, reply)] ?_ hsent ?_ howed
  · intro p hp
    rcases List.mem_singleton.mp hp with rfl
    exact hone
  · rw [hbuf]
    simp [wire]

theorem framed_refuse {c : Conn} (h : c.Framed) (message : String) : (c.refuse message).Framed :=
  h.pushed (.error message) trivial rfl rfl (owed_noted _ _)

theorem pushes_wbuf (replies : List Reply) : ∀ c : Conn,
    (replies.foldl (fun c reply => c.push reply) c).wbuf =
      c.wbuf ++ wire (replies.map fun reply => (c.client.protocol, reply)) ∧
    (replies.foldl (fun c reply => c.push reply) c).wbufSent = c.wbufSent ∧
    (replies.foldl (fun c reply => c.push reply) c).history = c.history := by
  induction replies with
  | nil => exact fun c => ⟨(List.append_nil _).symm, rfl, rfl⟩
  | cons reply replies ih =>
    intro c
    obtain ⟨hbuf, hsent, hhistory⟩ := ih (c.push reply)
    refine ⟨?_, hsent, hhistory⟩
    rw [List.foldl_cons, hbuf]
    simp [Conn.push, wire]

theorem respond_wbuf (response : Response) (c : Conn) :
    (c.respond response).wbuf =
      c.wbuf ++ wire (response.replies.map fun reply => (c.client.protocol, reply)) ∧
    (c.respond response).wbufSent = c.wbufSent ∧ (c.respond response).history = c.history := by
  unfold Conn.respond
  dsimp only
  split
  · exact pushes_wbuf response.replies c
  · exact pushes_wbuf response.replies c

theorem handleWrite_framed (results : List WriteResult) : ∀ c : Conn, c.Framed →
    (handleWrite results c).Framed := by
  have hclear : ∀ {c : Conn}, c.Framed → ({ c with wbuf := [], wbufSent := 0 } : Conn).Framed :=
    fun _ => ⟨le_rfl, [], fun _ h => (by cases h), List.nil_suffix, rfl⟩
  induction results with
  | nil =>
    intro c h
    unfold handleWrite
    split
    · exact h
    · exact hclear h
  | cons result results ih =>
    intro c h
    unfold handleWrite
    split
    · cases result with
      | wouldBlock => exact h
      | failed => exact h.of_same rfl rfl rfl
      | taken n =>
        dsimp only
        split
        · exact h.of_same rfl rfl rfl
        · exact ih _ ⟨min_le_right _ _, h.whole⟩
    · exact hclear h

/-! ## What waits in the shared state -/

/-- What is to be answered late, and the messages to be delivered, have only one-line statuses. -/
structure Tidy (a : App) : Prop where
  late : ∀ waiter ∈ a.blocked, waiter.onTimeout.OneLine
  outbox : ∀ p ∈ a.outbox, p.2.OneLine

theorem Tidy.of_same {a a' : App} (h : Tidy a) (hblocked : a'.blocked = a.blocked)
    (houtbox : a'.outbox = a.outbox) : Tidy a' :=
  ⟨by rw [hblocked]; exact h.late, by rw [houtbox]; exact h.outbox⟩

theorem Tidy.fewer {a : App} (h : Tidy a) {blocked : List Blocked} (hsub : blocked ⊆ a.blocked) :
    Tidy { a with blocked := blocked } := ⟨fun _ hw => h.late _ (hsub hw), h.outbox⟩

/-- A request adds one-line messages at most. -/
theorem Changes.tidy {s s' : Served} (h : Changes s s') (hs : Tidy s.app) :
    Tidy s'.app ∧ s'.app.blocked = s.app.blocked := by
  refine h.keep (I := fun t => Tidy t.app ∧ t.app.blocked = s.app.blocked) ?_ ⟨hs, rfl⟩
  rintro m m' hstep ⟨hm, hblocked⟩
  cases hstep with
  | aside h => exact ⟨hm.of_same h.blocked h.outbox, h.blocked.trans hblocked⟩
  | joined patterns name =>
    unfold PubSubs.subscribed
    split <;> split <;> exact ⟨hm.of_same rfl rfl, hblocked⟩
  | parted patterns name =>
    unfold PubSubs.unsubscribed
    split <;> split <;> exact ⟨hm.of_same rfl rfl, hblocked⟩
  | published channel payload =>
    refine ⟨⟨hm.late, fun p hp => ?_⟩, hblocked⟩
    rcases List.mem_append.mp hp with hp | hp
    · exact hm.outbox p hp
    · obtain ⟨d, hd, rfl⟩ := List.mem_map.mp hp
      exact PubSubs.oneLine_delivery (List.mem_filter.mp hd).1
  | _ => exact ⟨hm.of_same rfl rfl, hblocked⟩

/-! ## Serving a connection -/

/-- The shared state and the connection that is served from it. -/
structure Attended.Sound (t : Attended) : Prop where
  tidy : Tidy t.app
  framed : t.conn.Framed

/-- Serving keeps both sound. -/
def Attended.Upholds (t t' : Attended) : Prop := t.Sound → t'.Sound

instance : IsPreorder Attended Attended.Upholds where
  refl _ h := h
  trans _ _ _ h h' hs := h' (h hs)

theorem upholds_of_sound {α : Type} {m : Run Attended α} (h : ∀ e t w, Attended.Sound t →
    Act.Sat m e t w (fun _ t' _ => t'.Sound) (fun _ => True)) : Act.Within Attended.Upholds m := by
  intro e t w
  by_cases ht : t.Sound
  · exact Act.sat_mono (h e t w ht) (fun _ _ _ ht' _ => ht') (fun _ h => h)
  · exact Act.sat_mono (Act.sat_true m) (fun _ _ _ _ ht' => absurd ht' ht) (fun _ h => h)

theorem onConn_upholds {f : Conn → Conn} (h : ∀ c : Conn, c.Framed → (f c).Framed) :
    Act.Within Attended.Upholds (onConn f) :=
  Act.within_modify fun t hs => ⟨hs.tidy, h t.conn hs.framed⟩

theorem served_plain (argv : List Bytes) (e : Env) (s : Served) (w : World) (hs : Tidy s.app) :
    Act.Sat (served argv) e s w (fun r s' _ => Tidy s'.app ∧ ∀ response ∈ r, response.OneLine)
      (fun _ => True) := by
  unfold served
  rw [Act.sat_bind]
  refine Act.sat_mono (Act.sat_and (dispatch_changes argv e s w) (dispatch_plain argv e s w)) ?_
    (fun _ _ => trivial)
  rintro response m w' ⟨hchanges, hplain⟩
  obtain ⟨hm, -⟩ := Changes.tidy hchanges hs
  cases response with
  | none => exact ⟨hm, fun _ h => (by cases h)⟩
  | some response =>
    dsimp only
    rw [Act.sat_bind]
    unfold Response.settle
    rw [Act.sat_modify, Act.sat_pure]
    refine ⟨?_, hplain⟩
    cases hblock : response.block with
    | none => exact hm
    | some waiter =>
      refine ⟨fun waiter' hw => ?_, hm.outbox⟩
      rcases List.mem_append.mp hw with hw | hw
      · exact hm.late waiter' hw
      · rcases List.mem_singleton.mp hw with rfl
        exact (hplain response rfl).2 waiter' hblock

/-- A request is run: its replies are owed and not yet in the buffer. -/
theorem run_plain (argv : List Bytes) (e : Env) (t : Attended) (w : World) (ht : Tidy t.app) :
    Act.Sat (Attended.run argv) e t w
      (fun r t' _ => Tidy t'.app ∧ (∀ response ∈ r, response.OneLine) ∧ t'.conn.wbuf = t.conn.wbuf ∧
        t'.conn.wbufSent = t.conn.wbufSent ∧
        t'.conn.owed = t.conn.owed ++ Note.frames (.ran argv r)) (fun _ => True) := by
  unfold Attended.run onServed
  rw [Act.sat_bind, Act.sat_zoom]
  refine Act.sat_mono (served_plain argv e _ w ht) ?_ (fun _ h => h)
  rintro r s' w' ⟨htidy, hplain⟩
  rw [Act.sat_bind, onConn, Act.sat_modify, Act.sat_pure]
  exact ⟨htidy, hplain, rfl, rfl, owed_noted _ _⟩

theorem roundEnds_upholds (limit : Nat) : Act.Within Attended.Upholds (roundEnds limit) :=
  Act.within_bind Act.within_get fun _ => Act.within_ite
    (Act.within_bind (onConn_upholds fun _ h => framed_refuse h _) fun _ => Act.within_pure _)
    (Act.within_pure _)

theorem processLoop_upholds (maxBulk limit n : Nat) :
    Act.Within Attended.Upholds (processLoop maxBulk limit n) := by
  induction n with
  | zero => exact Act.within_pure _
  | succ n ih =>
    have hround : Act.Within Attended.Upholds (do
        let ends ← roundEnds limit
        if ends then pure () else processLoop maxBulk limit n : Run Attended Unit) :=
      Act.within_bind (roundEnds_upholds limit) fun _ => Act.within_ite (Act.within_pure _) ih
    refine Act.within_bind Act.within_get fun t₀ => Act.within_ite (Act.within_pure _) ?_
    cases parseRequest t₀.conn.rbuf maxBulk with
    | none => exact Act.within_panic _
    | some parsed =>
      cases parsed with
      | incomplete => exact Act.within_pure _
      | error message =>
        exact onConn_upholds fun c h => (framed_refuse h message).of_same rfl rfl rfl
      | request argv consumed =>
        refine Act.within_bind (onConn_upholds fun c h => h.of_same rfl rfl rfl) fun _ => ?_
        refine upholds_of_sound fun e t w ht => ?_
        rw [Act.sat_bind]
        refine Act.sat_mono (run_plain argv e t w ht.tidy) ?_ (fun _ h => h)
        rintro response t' w' ⟨htidy, hplain, hbuf, hsent, howed⟩
        have hrest : ∀ {m : Run Attended Unit} {t₁ : Attended}, t₁.Sound →
            Act.Within Attended.Upholds m →
            Act.Sat m e t₁ w' (fun _ t'' _ => t''.Sound) (fun _ => True) :=
          fun hs hm => Act.sat_mono (hm e _ w') (fun _ _ _ h => h hs) (fun _ h => h)
        cases response with
        | none =>
          refine hrest ⟨htidy, ht.framed.of_same hbuf hsent ?_⟩ hround
          rw [howed]
          exact List.append_nil _
        | some response =>
          dsimp only
          split
          · rename_i hparks
            refine ⟨htidy, ht.framed.of_same hbuf hsent ?_⟩
            rw [howed, frames_ran_parked hparks, List.append_nil]
          · rename_i hanswers
            rw [Act.sat_bind, onConn, Act.sat_modify]
            refine hrest ⟨htidy, ?_⟩ hround
            obtain ⟨hbuf', hsent', hhistory'⟩ := respond_wbuf response t'.conn
            refine ht.framed.grow (response.replies.map fun reply =>
              (t'.conn.client.protocol, reply)) ?_ (hsent'.trans hsent) ?_ ?_
            · intro p hp
              obtain ⟨reply, hreply, rfl⟩ := List.mem_map.mp hp
              exact (hplain response rfl).1 reply hreply
            · rw [hbuf', hbuf]
            · have howed' : (t'.conn.respond response).owed = t'.conn.owed := by
                unfold Conn.owed
                rw [hhistory']
              rw [howed', howed, frames_ran hanswers]
              simp

theorem processRequests_upholds : Act.Within Attended.Upholds processRequests :=
  Act.within_bind Act.within_get fun _ => processLoop_upholds _ _ _

theorem attendReady_upholds (ready : Ready) :
    Act.Within Attended.Upholds (EventLoop.attendReady ready) := by
  have hclose : Act.Within Attended.Upholds (onConn Conn.requestClose) :=
    onConn_upholds fun _ h => h.of_same rfl rfl rfl
  have hhup : Act.Within Attended.Upholds (onConn fun c => if ready.hup then c.requestClose else c) := by
    refine onConn_upholds fun c h => ?_
    split
    · exact h.of_same rfl rfl rfl
    · exact h
  have hread : ∀ result, Act.Within Attended.Upholds (handleRead result) := by
    intro result
    cases result with
    | bytes chunk =>
      exact Act.within_ite hclose (Act.within_bind (onConn_upholds fun _ h => h.of_same rfl rfl rfl)
        fun _ => processRequests_upholds)
    | wouldBlock => exact Act.within_pure _
    | failed => exact hclose
  unfold EventLoop.attendReady
  refine Act.within_bind hhup fun _ => ?_
  rcases ready.input with - | result
  on_goal 2 => refine Act.within_bind (hread result) fun _ => ?_
  all_goals
    cases ready.output with
    | none => exact Act.within_pure _
    | some results => exact onConn_upholds (handleWrite_framed results)

/-! ## A pass -/

namespace EventLoop

variable {e : Env} {s : EventLoop} {w : World}

/-- The shared state and every connection. -/
structure Sound (s : EventLoop) : Prop where
  tidy : Tidy s.app
  framed : ∀ {id c}, s.connections.lookup id = some c → c.Framed

/-- A part of a pass keeps them sound. -/
def Upholds (s s' : EventLoop) : Prop := s.Sound → s'.Sound

instance : IsPreorder EventLoop Upholds where
  refl _ h := h
  trans _ _ _ h h' hs := h' (h hs)

theorem upholds_of_sound {α : Type} {m : Run EventLoop α} (h : ∀ e s w, EventLoop.Sound s →
    Act.Sat m e s w (fun _ s' _ => s'.Sound) (fun _ => True)) : Act.Within Upholds m := by
  intro e s w
  by_cases hs : s.Sound
  · exact Act.sat_mono (h e s w hs) (fun _ _ _ hs' _ => hs') (fun _ h => h)
  · exact Act.sat_mono (Act.sat_true m) (fun _ _ _ _ hs' => absurd hs' hs) (fun _ h => h)

/-- A sound connection in place of another. -/
theorem Sound.insert {app : App} {connections : Assoc Nat Conn} {id : Nat} {conn : Conn}
    (hs : Sound { app := app, connections := connections }) {app' : App} (happ : Tidy app')
    (hconn : conn.Framed) :
    Sound { app := app', connections := connections.insert id conn } := by
  refine ⟨happ, fun {i c} hc => ?_⟩
  dsimp only at hc
  rw [Assoc.lookup_insert_eq] at hc
  split at hc
  · cases hc
    exact hconn
  · exact hs.framed hc

theorem onApp_upholds {α : Type} {m : Run App α} (h : ∀ e a w, Tidy a →
    Act.Sat m e a w (fun _ a' _ => Tidy a') (fun _ => True)) : Act.Within Upholds (onApp m) := by
  refine upholds_of_sound fun e s w hs => ?_
  unfold onApp
  rw [Act.sat_zoom]
  exact Act.sat_mono (h e s.app w hs.tidy) (fun _ _ _ ha => ⟨ha, hs.framed⟩) (fun _ h => h)

theorem attend_sound {α : Type} {m : Run Attended α} {id : Nat} {conn : Conn}
    (hc : s.connections.lookup id = some conn) (hm : Act.Within Attended.Upholds m) (hs : s.Sound) :
    Act.Sat (attend id conn m) e s w (fun _ s' _ => s'.Sound) (fun _ => True) := by
  unfold attend
  rw [Act.sat_zoom]
  refine Act.sat_mono (hm e ⟨s.app, conn⟩ w) ?_ (fun _ h => h)
  intro _ t w' ht
  obtain ⟨htidy, hframed⟩ := ht ⟨hs.tidy, hs.framed hc⟩
  exact hs.insert htidy hframed

theorem accept_upholds (addr : String) : Act.Within Upholds (accept addr) := by
  refine upholds_of_sound fun e s w hs => ?_
  unfold accept onApp App.takeClientId
  simp only [Act.sat_bind, Act.sat_zoom, Act.sat_modify, Act.sat_state]
  show Act.Sat (if _ then _ else _) _ _ _ _ _
  rw [Act.sat_ite]
  refine ⟨fun _ => ?_, fun _ => ?_⟩
  · exact hs.insert (hs.tidy.of_same rfl rfl) (framed_refuse (framed_new _) _)
  · exact hs.insert (hs.tidy.of_same rfl rfl) (framed_new _)

theorem turn_upholds (p : Nat × Ready) : Act.Within Upholds (turn p) := by
  refine upholds_of_sound fun e s w hs => ?_
  unfold turn
  rw [Act.sat_bind, Act.sat_get, Act.sat_bind]
  cases hc : s.connections.lookup p.1 with
  | none => trivial
  | some conn => exact attend_sound hc (attendReady_upholds p.2) hs

theorem resume_upholds (woken : List Nat) : Act.Within Upholds (resume woken) := by
  refine Act.within_forList (fun id => upholds_of_sound fun e s w hs => ?_) woken
  rw [Act.sat_bind, Act.sat_get]
  cases hc : s.connections.lookup id with
  | none => exact hs
  | some conn => exact attend_sound hc processRequests_upholds hs

/-- A retry that answers pushes the answer it has noted. -/
theorem retryWaiter_upholds (waiter : Blocked) :
    Act.Within Attended.Upholds (retryWaiter waiter) := by
  refine Klyro.upholds_of_sound fun e t w ht => ?_
  unfold retryWaiter onServed
  rw [Act.sat_bind, Act.sat_zoom]
  refine Act.sat_mono (Act.sat_and (retry_changes waiter.argv e _ w) (retry_plain waiter.argv e _ w)) ?_
    (fun _ _ => trivial)
  rintro reply s' w' ⟨hchanges, hplain⟩
  obtain ⟨htidy, -⟩ := Changes.tidy hchanges ht.tidy
  cases reply with
  | none => exact ⟨htidy, ht.framed.of_same rfl rfl rfl⟩
  | some reply =>
    refine ⟨htidy, Conn.Framed.pushed (c := { t.conn with client := { s'.client with blocked := false } })
      (ht.framed.of_same rfl rfl rfl) _ (hplain reply rfl) rfl rfl ?_⟩
    exact owed_noted _ _

theorem scan_upholds (ready : List Bytes) (n : Nat) : ∀ index, Act.Within Upholds (scan ready n index) := by
  induction n with
  | zero => exact fun _ => Act.within_pure _
  | succ n ih =>
    intro index
    refine upholds_of_sound fun e s w hs => ?_
    unfold scan
    rw [Act.sat_bind, Act.sat_get]
    have hnext : ∀ {s₁ : EventLoop} {w₁ : World} (i : Nat), s₁.Sound →
        Act.Sat (scan ready n i) e s₁ w₁ (fun _ s' _ => s'.Sound) (fun _ => True) :=
      fun i hs => Act.sat_mono (ih i e _ _) (fun _ _ _ h => h hs) (fun _ h => h)
    cases hwaiter : s.app.blocked[index]? with
    | none => exact hs
    | some waiter =>
      dsimp only
      split
      · rw [Act.sat_bind]
        have hout : Sound { s with app := { s.app with blocked := s.app.blocked.eraseIdx index } } :=
          ⟨hs.tidy.fewer (List.eraseIdx_subset ..), hs.framed⟩
        show Act.Sat _ e { s with app := { s.app with blocked := s.app.blocked.eraseIdx index } } w _ _
        cases hc : s.connections.lookup waiter.id with
        | none => exact hnext index hout
        | some conn =>
          dsimp only
          split
          · exact hnext index hout
          · rw [Act.sat_bind]
            refine Act.sat_mono (attend_sound hc (retryWaiter_upholds waiter) hout) ?_ (fun _ h => h)
            intro answered s₁ w₁ hs₁
            cases answered with
            | true =>
              rw [if_pos rfl, Act.sat_bind]
              exact Act.sat_mono (hnext index hs₁) (fun _ _ _ h => h) (fun _ h => h)
            | false =>
              rw [if_neg Bool.false_ne_true, Act.sat_bind]
              refine hnext (index + 1) ⟨⟨fun waiter' hw => ?_, hs₁.tidy.outbox⟩, hs₁.framed⟩
              rcases List.eq_or_mem_of_mem_insertIdx hw with rfl | hw
              · exact hs.tidy.late _ (List.mem_of_getElem? hwaiter)
              · exact hs₁.tidy.late waiter' hw
      · exact hnext (index + 1) hs

theorem readyLoop_upholds (n : Nat) : Act.Within Upholds (readyLoop n) := by
  induction n with
  | zero => exact Act.within_pure _
  | succ n ih =>
    refine Act.within_bind Act.within_get fun s => Act.within_ite (Act.within_pure _) ?_
    refine Act.within_bind (onApp_upholds fun _ _ _ ha => ha.of_same rfl rfl) fun _ => ?_
    refine Act.within_bind (scan_upholds _ _ _) fun woken => ?_
    exact Act.within_bind (resume_upholds woken) fun _ => ih

theorem serveReadyKeys_upholds : Act.Within Upholds serveReadyKeys :=
  Act.within_bind Act.within_get fun _ => readyLoop_upholds _

/-- The late ones are no longer in the registry when they are answered. -/
theorem answerLate_sound : ∀ (late : List Blocked) {s : EventLoop} {w : World},
    (∀ waiter ∈ late, waiter.onTimeout.OneLine) → s.Sound →
    Act.Sat (answerLate late) e s w (fun _ s' _ => s'.Sound) (fun _ => True)
  | [], _, _, _, hs => hs
  | waiter :: late, s, w, hone, hs => by
    have hlate : ∀ waiter ∈ late, waiter.onTimeout.OneLine := fun w hw =>
      hone w (List.mem_cons_of_mem _ hw)
    unfold answerLate
    rw [Act.sat_bind, Act.sat_get]
    cases hc : s.connections.lookup waiter.id with
    | none => exact answerLate_sound late hlate hs
    | some conn =>
      dsimp only
      split
      · exact answerLate_sound late hlate hs
      · rw [Act.sat_bind, Act.sat_modify, Act.sat_bind]
        have hexpired : (expireWaiter waiter conn).Framed :=
          Conn.Framed.pushed (c := { conn with client := { conn.client with blocked := false } })
            ((hs.framed hc).of_same rfl rfl rfl) _ (hone waiter List.mem_cons_self) rfl rfl
            (owed_noted _ _)
        exact Act.sat_mono (answerLate_sound late hlate (hs.insert hs.tidy hexpired))
          (fun _ _ _ h => h) (fun _ h => h)

theorem serveTimeouts_upholds : Act.Within Upholds serveTimeouts := by
  refine upholds_of_sound fun e s w hs => ?_
  unfold serveTimeouts App.takeTimedOut onApp
  rw [Act.sat_bind, Act.sat_zoom, Act.sat_bind]
  show Act.Sat (do
    let woken ← answerLate (s.app.blocked.filter (App.timedOut (e.instant w.instants)))
    resume woken) e { s with app := { s.app with
      blocked := s.app.blocked.filter fun b => !App.timedOut (e.instant w.instants) b } } _ _ _
  rw [Act.sat_bind]
  refine Act.sat_mono (answerLate_sound _ (fun waiter hw => hs.tidy.late waiter (List.mem_of_mem_filter hw))
    ⟨hs.tidy.fewer (List.filter_subset_self _), hs.framed⟩) ?_ (fun _ h => h)
  exact fun woken s' w' hs' => Act.sat_mono (resume_upholds woken e s' w') (fun _ _ _ h => h hs')
    (fun _ h => h)

/-- A change of one connection, if it is there. -/
theorem adjust_sound {connections : Assoc Nat Conn} {id : Nat} {f : Conn → Conn}
    (h : ∀ c : Conn, c.Framed → (f c).Framed) {app : App}
    (hs : Sound { app := app, connections := connections }) :
    Sound { app := app, connections := connections.adjust id f } := by
  unfold Assoc.adjust
  cases hc : connections.lookup id with
  | none => exact hs
  | some c => exact hs.insert hs.tidy (h c (hs.framed hc))

theorem deliverOutbox_upholds : Act.Within Upholds deliverOutbox := by
  refine upholds_of_sound fun e s w hs => ?_
  unfold deliverOutbox
  rw [Act.sat_bind, Act.sat_get, Act.sat_bind]
  show Act.Sat _ e { s with app := { s.app with outbox := [] } } w _ _
  have hloop : ∀ (frames : List (Nat × Reply)) {s : EventLoop} {w : World},
      (∀ p ∈ frames, p.2.OneLine) → s.Sound →
      Act.Sat (Act.forList (fun (p : Nat × Reply) => Act.modify fun (s : EventLoop) => { s with
        connections := s.connections.adjust p.1 fun c => (c.push p.2).noted (.delivered p.2) }) frames)
        e s w (fun _ s' _ => s'.Sound) (fun _ => True) := by
    intro frames
    induction frames with
    | nil => exact fun _ hs => hs
    | cons p frames ih =>
      intro s w hone hs
      unfold Act.forList
      rw [Act.sat_bind, Act.sat_modify]
      refine ih (fun q hq => hone q (List.mem_cons_of_mem _ hq)) (adjust_sound (fun c hc => ?_) hs)
      exact hc.pushed _ (hone p List.mem_cons_self) rfl rfl (owed_noted _ _)
  exact hloop s.app.outbox hs.tidy.outbox ⟨⟨hs.tidy.late, fun _ h => (by cases h)⟩, hs.framed⟩

theorem flush_upholds (writes : Nat → List WriteResult) : Act.Within Upholds (flush writes) := by
  refine Act.within_bind Act.within_get fun s => Act.within_forList (fun id => ?_) _
  refine Act.within_modify fun s hs => adjust_sound (fun c hc => ?_) hs
  split
  · exact handleWrite_framed _ c hc
  · exact hc

theorem remove_upholds (id : Nat) : Act.Within Upholds (remove id) := by
  refine upholds_of_sound fun e s w hs => ?_
  unfold remove
  rw [Act.sat_bind, Act.sat_get]
  cases hc : s.connections.lookup id with
  | none => exact hs
  | some conn =>
    dsimp only
    rw [Act.sat_bind, Act.sat_modify, Act.sat_bind]
    unfold onApp App.forgetClient
    rw [Act.sat_zoom, Act.sat_bind, Act.sat_modify]
    refine Act.sat_mono (App.unwatchAll_releasedAll conn.client e _ w) ?_ (fun _ h => h)
    rintro _ a _ ⟨-, rfl⟩
    refine ⟨⟨fun waiter hw => hs.tidy.late waiter (List.mem_of_mem_filter hw), hs.tidy.outbox⟩,
      fun {i c} hi => ?_⟩
    dsimp only at hi
    rw [Assoc.lookup_erase_eq] at hi
    split at hi
    · cases hi
    · exact hs.framed hi

theorem close_upholds : Act.Within Upholds close :=
  Act.within_bind Act.within_get fun _ => Act.within_forList remove_upholds _

theorem pollOnce_upholds (pass : Pass) : Act.Within Upholds (pollOnce pass) := by
  have hwaits : Act.Within Upholds (onApp pollTimeout) := by
    refine onApp_upholds fun e a w ha => ?_
    unfold pollTimeout
    rw [Act.sat_bind, Act.sat_get]
    dsimp only
    split
    · exact ha
    · exact ha
  have htick : Act.Within Upholds (onApp App.tick) := onApp_upholds fun e a w ha =>
    Act.sat_mono (Hub.tick_aside e a w) (fun _ _ _ h => ha.of_same h.blocked h.outbox) (fun _ h => h)
  cases pass with
  | interrupted => exact Act.within_bind hwaits fun _ => Act.within_pure _
  | ready accepted polled writes =>
    refine Act.within_bind Act.within_get fun s => Act.within_bind hwaits fun _ => ?_
    refine Act.within_bind (Act.within_forList accept_upholds accepted) fun _ => ?_
    refine Act.within_bind (Act.within_forList turn_upholds _) fun _ => ?_
    refine Act.within_bind serveReadyKeys_upholds fun _ => ?_
    refine Act.within_bind serveTimeouts_upholds fun _ => ?_
    refine Act.within_bind deliverOutbox_upholds fun _ => ?_
    refine Act.within_bind (flush_upholds writes) fun _ => Act.within_bind close_upholds fun _ => ?_
    refine Act.within_bind (Act.within_modify fun s hs => ?_) fun _ => htick
    exact ⟨hs.tidy.of_same rfl rfl, hs.framed⟩

theorem step_upholds (phase : Phase) : Act.Within Upholds phase.step := by
  cases phase with
  | accept addr => exact accept_upholds addr
  | turn id ready => exact turn_upholds (id, ready)
  | serveReadyKeys => exact serveReadyKeys_upholds
  | serveTimeouts => exact serveTimeouts_upholds
  | deliverOutbox => exact deliverOutbox_upholds
  | flush writes => exact flush_upholds writes
  | close => exact close_upholds
  | pass p => exact pollOnce_upholds p

/-- **Output is made of whole replies, each once and in order.**  From a server without connections
on, whatever passes and parts of passes follow: the write buffer of a connection is a row of whole
frames, those of the latest replies and messages it is owed, and what its socket takes next is the
front of the part that has not been sent. -/
theorem output_framed (phases : List Phase) (e : Env) (a : App) (w : World) :
    Act.Sat (Act.forList Phase.step phases) e { app := { a with blocked := [], outbox := [] } } w
      (fun _ s _ => ∀ id c, s.connections.lookup id = some c →
        (∃ frames, frames.map Prod.snd <:+ c.owed ∧ c.wbuf = wire frames ∧
          ∀ p ∈ frames, Frame (encode p.1 p.2)) ∧
        c.wbufSent ≤ c.wbuf.length ∧
        ∀ results, sentBy results c ++ (handleWrite results c).unsent = c.unsent)
      (fun _ => True) := by
  have hstart : Sound { app := { a with blocked := [], outbox := [] } } :=
    ⟨⟨fun _ h => (by cases h), fun _ h => (by cases h)⟩, fun h => (by cases h)⟩
  refine Act.sat_mono (Act.within_forList step_upholds phases e _ w) ?_ (fun _ h => h)
  intro _ s _ hupholds id c hc
  obtain ⟨hsent, frames, hone, hsuffix, hwire⟩ := (hupholds hstart).framed hc
  exact ⟨⟨frames, hsuffix, hwire, fun p hp => frame_encode p.1 (hone p hp)⟩, hsent,
    fun results => handleWrite_unsent results c⟩

end EventLoop

end Klyro
