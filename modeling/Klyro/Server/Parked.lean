import Mathlib.Data.List.Perm.Basic
import Klyro.Commands.Parks
import Klyro.Server.Loop

/-!
# Parked clients

That a client is parked is said in its own state and in the registry of the server.

* `parkedAfter` — whether a command is parked after what happened on a connection, and whether
  something happened out of turn: a request while one was parked, a second answer.
* `Books` — what ties the registry to the connections.
* `Attends`, `Keeps` — what a connection that is served, and what a pass, does to the books.
* `Phase` — the parts of a pass, and passes, in any order.
-/

set_option autoImplicit false

namespace Klyro

open Attended

/-! ## The books -/

/-- Whether a command is parked after what happened, newest first; `none` when a request was run
while one was, or an answer came for none. -/
def parkedAfter : List Note → Option Bool
  | [] => some false
  | .ran _ response :: notes =>
    (parkedAfter notes).bind fun parked =>
      if parked then none else some (response.any fun r => r.block.isSome)
  | .woken _ :: notes | .timedOut _ :: notes =>
    (parkedAfter notes).bind fun parked => if parked then some false else none
  | .delivered _ :: notes | .refused _ :: notes => parkedAfter notes

/-- The registry of parked commands and the connections agree. -/
structure Books (blocked : List Blocked) (next : Nat) (conns : Nat → Option Conn) : Prop where
  ids : ∀ {id c}, conns id = some c → c.client.id = id ∧ id ≤ next
  once : (blocked.map Blocked.id).Nodup
  parked : ∀ waiter ∈ blocked, ∃ c, conns waiter.id = some c ∧ c.client.blocked = true
  waiting : ∀ {id c}, conns id = some c → c.wantClose = false → c.client.blocked = true →
    id ∈ blocked.map Blocked.id
  told : ∀ {id c}, conns id = some c → parkedAfter c.history = some c.client.blocked

section books

variable {blocked blocked' : List Blocked} {next : Nat} {conns : Nat → Option Conn} {id : Nat}
  {c c' : Conn} {waiter : Blocked}

theorem Books.perm (h : Books blocked next conns) (hp : blocked.Perm blocked') :
    Books blocked' next conns where
  ids := h.ids
  once := (hp.map Blocked.id).nodup_iff.mp h.once
  parked waiter hw := h.parked waiter (hp.mem_iff.mpr hw)
  waiting hc hopen hb := (hp.map Blocked.id).mem_iff.mp (h.waiting hc hopen hb)
  told := h.told

theorem update_some {i : Nat} {d : Conn} (h : Function.update conns id (some c) i = some d) :
    i = id ∧ d = c ∨ i ≠ id ∧ conns i = some d := by
  by_cases hi : i = id
  · rw [hi, Function.update_self] at h
    exact .inl ⟨hi, (Option.some.inj h).symm⟩
  · rw [Function.update_of_ne hi] at h
    exact .inr ⟨hi, h⟩

/-- Nothing about parking changes on a connection. -/
structure Conn.Steady (c c' : Conn) : Prop where
  id : c'.client.id = c.client.id
  blocked : c'.client.blocked = c.client.blocked
  closing : c'.wantClose = false → c.wantClose = false
  told : parkedAfter c'.history = parkedAfter c.history

theorem Conn.Steady.refl (c : Conn) : c.Steady c := ⟨rfl, rfl, fun h => h, rfl⟩

theorem Books.replace (h : Books blocked next conns) (hc : conns id = some c) (hsame : c.Steady c') :
    Books blocked next (Function.update conns id (some c')) := by
  refine ⟨fun hd => ?_, h.once, fun waiter hw => ?_, fun hd hopen hb => ?_, fun hd => ?_⟩
  · rcases update_some hd with ⟨rfl, rfl⟩ | ⟨-, hd⟩
    · rw [hsame.id]
      exact h.ids hc
    · exact h.ids hd
  · obtain ⟨d, hd, hb⟩ := h.parked waiter hw
    by_cases hi : waiter.id = id
    · rw [hi, hc] at hd
      cases hd
      exact ⟨c', by rw [hi, Function.update_self], hsame.blocked.trans hb⟩
    · exact ⟨d, by rw [Function.update_of_ne hi]; exact hd, hb⟩
  · rcases update_some hd with ⟨rfl, rfl⟩ | ⟨-, hd⟩
    · exact h.waiting hc (hsame.closing hopen) (hsame.blocked ▸ hb)
    · exact h.waiting hd hopen hb
  · rcases update_some hd with ⟨rfl, rfl⟩ | ⟨-, hd⟩
    · rw [hsame.told, hsame.blocked]
      exact h.told hc
    · exact h.told hd

/-- A client is parked. -/
theorem Books.park (h : Books blocked next conns) (hc : conns id = some c)
    (hidle : c.client.blocked = false) (hwaiter : waiter.id = id) (hid : c'.client.id = id)
    (hblocked : c'.client.blocked = true) (htold : parkedAfter c'.history = some true) :
    Books (blocked ++ [waiter]) next (Function.update conns id (some c')) := by
  have hnew : id ∉ blocked.map Blocked.id := by
    rw [List.mem_map]
    rintro ⟨w, hw, rfl⟩
    obtain ⟨d, hd, hb⟩ := h.parked w hw
    rw [hc] at hd
    cases hd
    rw [hidle] at hb
    cases hb
  refine ⟨fun hd => ?_, ?_, fun w hw => ?_, fun hd hopen hb => ?_, fun hd => ?_⟩
  · rcases update_some hd with ⟨rfl, rfl⟩ | ⟨-, hd⟩
    · exact ⟨hid, (h.ids hc).2⟩
    · exact h.ids hd
  · rw [List.map_append, List.nodup_append]
    refine ⟨h.once, by simp, ?_⟩
    intro i hi j hj
    rw [List.map_singleton, List.mem_singleton] at hj
    rintro rfl
    exact hnew (hwaiter ▸ hj ▸ hi)
  · by_cases hi : w.id = id
    · exact ⟨c', by rw [hi, Function.update_self], hblocked⟩
    · rw [List.mem_append, List.mem_singleton] at hw
      rcases hw with hw | rfl
      · rw [Function.update_of_ne hi]
        exact h.parked w hw
      · exact absurd hwaiter hi
  · rw [List.map_append, List.mem_append]
    rcases update_some hd with ⟨rfl, rfl⟩ | ⟨-, hd⟩
    · exact .inr (by rw [← hwaiter]; simp)
    · exact .inl (h.waiting hd hopen hb)
  · rcases update_some hd with ⟨rfl, rfl⟩ | ⟨-, hd⟩
    · rw [htold, hblocked]
    · exact h.told hd

/-- A client is answered. -/
theorem Books.wake (h : Books (waiter :: blocked) next conns) (hc : conns waiter.id = some c)
    (hid : c'.client.id = c.client.id) (hblocked : c'.client.blocked = false)
    (htold : parkedAfter c.history = some true → parkedAfter c'.history = some false) :
    Books blocked next (Function.update conns waiter.id (some c')) := by
  obtain ⟨hout, honce⟩ := List.nodup_cons.mp (List.map_cons ▸ h.once)
  have hparked : c.client.blocked = true := by
    obtain ⟨d, hd, hb⟩ := h.parked waiter List.mem_cons_self
    rw [hc] at hd
    cases hd
    exact hb
  refine ⟨fun hd => ?_, honce, fun w hw => ?_, fun hd hopen hb => ?_, fun hd => ?_⟩
  · rcases update_some hd with ⟨rfl, rfl⟩ | ⟨-, hd⟩
    · rw [hid]
      exact h.ids hc
    · exact h.ids hd
  · have hi : w.id ≠ waiter.id := by
      intro heq
      exact hout (heq ▸ List.mem_map_of_mem hw)
    rw [Function.update_of_ne hi]
    exact h.parked w (List.mem_cons_of_mem _ hw)
  · rcases update_some hd with ⟨rfl, rfl⟩ | ⟨hi, hd⟩
    · rw [hblocked] at hb
      cases hb
    · have hmem := h.waiting hd hopen hb
      rw [List.map_cons, List.mem_cons] at hmem
      exact hmem.resolve_left hi
  · rcases update_some hd with ⟨rfl, rfl⟩ | ⟨-, hd⟩
    · rw [hblocked]
      exact htold (by rw [h.told hc, hparked])
    · exact h.told hd

/-- A parked command is forgotten: its connection is gone, or is being closed. -/
theorem Books.drop (h : Books (waiter :: blocked) next conns)
    (hclosing : ∀ c, conns waiter.id = some c → c.wantClose = true) : Books blocked next conns where
  ids := h.ids
  once := (List.nodup_cons.mp (List.map_cons ▸ h.once)).2
  parked w hw := h.parked w (List.mem_cons_of_mem _ hw)
  waiting {i c} hc hopen hb := by
    have hmem := h.waiting hc hopen hb
    rw [List.map_cons, List.mem_cons] at hmem
    rcases hmem with rfl | hmem
    · rw [hclosing c hc] at hopen
      cases hopen
    · exact hmem
  told := h.told

/-- A client connects. -/
theorem Books.join (h : Books blocked next conns) (hid : c.client.id = next + 1)
    (hblocked : c.client.blocked = false) (htold : parkedAfter c.history = some false) :
    Books blocked (next + 1) (Function.update conns (next + 1) (some c)) := by
  have hold : ∀ {i d}, conns i = some d → i ≠ next + 1 := by
    intro i d hd hi
    have := (h.ids hd).2
    omega
  refine ⟨fun hd => ?_, h.once, fun w hw => ?_, fun hd hopen hb => ?_, fun hd => ?_⟩
  · rcases update_some hd with ⟨rfl, rfl⟩ | ⟨-, hd⟩
    · exact ⟨hid, le_rfl⟩
    · exact ⟨(h.ids hd).1, Nat.le_succ_of_le (h.ids hd).2⟩
  · obtain ⟨d, hd, hb⟩ := h.parked w hw
    rw [Function.update_of_ne (hold hd)]
    exact ⟨d, hd, hb⟩
  · rcases update_some hd with ⟨rfl, rfl⟩ | ⟨-, hd⟩
    · rw [hblocked] at hb
      cases hb
    · exact h.waiting hd hopen hb
  · rcases update_some hd with ⟨rfl, rfl⟩ | ⟨-, hd⟩
    · rw [hblocked]
      exact htold
    · exact h.told hd

/-- A client is gone. -/
theorem Books.leave (h : Books blocked next conns) (id : Nat) :
    Books (blocked.filter fun w => w.id ≠ id) next (Function.update conns id none) := by
  have hold : ∀ {i d}, Function.update conns id none i = some d → i ≠ id ∧ conns i = some d := by
    intro i d hd
    by_cases hi : i = id
    · rw [hi, Function.update_self] at hd
      cases hd
    · rw [Function.update_of_ne hi] at hd
      exact ⟨hi, hd⟩
  refine ⟨fun hd => h.ids (hold hd).2, ?_, fun w hw => ?_, fun {i d} hd hopen hb => ?_,
    fun hd => h.told (hold hd).2⟩
  · exact h.once.sublist ((List.filter_sublist).map Blocked.id)
  · rw [List.mem_filter, decide_eq_true_eq] at hw
    rw [Function.update_of_ne hw.2]
    exact h.parked w hw.1
  · obtain ⟨hi, hd⟩ := hold hd
    obtain ⟨w, hw, rfl⟩ := List.mem_map.mp (h.waiting hd hopen hb)
    exact List.mem_map_of_mem (List.mem_filter.mpr ⟨hw, by simpa using hi⟩)

end books

/-! ## A connection that is served -/

/-- How a request settles: nobody is parked, or the client is. -/
structure Settled (s : Served) (response : Option Response) (s' : Served) : Prop where
  id : s'.client.id = s.client.id
  next : s'.app.nextClientId = s.app.nextClientId
  idle : (response.any fun r => r.block.isSome) = false →
    s'.client.blocked = s.client.blocked ∧ s'.app.blocked = s.app.blocked
  parked : (response.any fun r => r.block.isSome) = true →
    s'.client.blocked = true ∧ ∃ waiter, waiter.id = s.client.id ∧
      s'.app.blocked = s.app.blocked ++ [waiter]

/-- What is not touched while a request runs. -/
structure Unparked (s s' : Served) : Prop where
  id : s'.client.id = s.client.id
  next : s'.app.nextClientId = s.app.nextClientId
  blocked : s'.client.blocked = s.client.blocked
  registry : s'.app.blocked = s.app.blocked

theorem Changes.unparked {s s' : Served} (h : Changes s s') : Unparked s s' := by
  refine h.keep (I := Unparked s) ?_ ⟨rfl, rfl, rfl, rfl⟩
  intro m m' hstep hm
  cases hstep with
  | aside h =>
    exact ⟨h.id.trans hm.id, h.nextClientId.trans hm.next, h.parked.trans hm.blocked,
      h.blocked.trans hm.registry⟩
  | joined patterns name =>
    unfold PubSubs.subscribed
    split <;> split <;> exact ⟨hm.id, hm.next, hm.blocked, hm.registry⟩
  | parted patterns name =>
    unfold PubSubs.unsubscribed
    split <;> split <;> exact ⟨hm.id, hm.next, hm.blocked, hm.registry⟩
  | _ => exact ⟨hm.id, hm.next, hm.blocked, hm.registry⟩

theorem served_settled (argv : List Bytes) (e : Env) (s : Served) (w : World) :
    Act.Sat (served argv) e s w (fun r s' _ => Settled s r s') (fun _ => True) := by
  unfold served
  rw [Act.sat_bind]
  refine Act.sat_mono (Act.sat_and (dispatch_changes argv e s w) (dispatch_parks e s w)) ?_
    (fun _ _ => trivial)
  rintro response m w' ⟨hm, hparks⟩
  have hun : Unparked s m := Changes.unparked hm
  cases response with
  | none => exact ⟨hun.id, hun.next, fun _ => ⟨hun.blocked, hun.registry⟩, fun h => (by cases h)⟩
  | some response =>
    dsimp only
    rw [Act.sat_bind]
    unfold Response.settle
    rw [Act.sat_modify, Act.sat_pure]
    cases hblock : response.block with
    | none =>
      refine ⟨hun.id, hun.next, fun _ => ⟨hun.blocked, hun.registry⟩, fun h => ?_⟩
      rw [Option.any_some, hblock] at h
      cases h
    | some waiter =>
      refine ⟨hun.id, hun.next, fun h => ?_, fun _ => ⟨rfl, waiter, ?_, ?_⟩⟩
      · rw [Option.any_some, hblock] at h
        cases h
      · exact (hparks response rfl waiter hblock).1
      · rw [← hun.registry]

/-- What serving a connection does to the books. -/
def Attends (t t' : Attended) : Prop := ∀ (id : Nat) (rest : Nat → Option Conn),
  Books t.app.blocked t.app.nextClientId (Function.update rest id (some t.conn)) →
    Books t'.app.blocked t'.app.nextClientId (Function.update rest id (some t'.conn))

instance : IsPreorder Attended Attends where
  refl _ _ _ h := h
  trans _ _ _ h h' id rest hb := h' id rest (h id rest hb)

theorem Attends.of_steady {t : Attended} {c : Conn} (h : t.conn.Steady c) :
    Attends t { t with conn := c } := by
  intro id rest hb
  have hbooks := hb.replace (Function.update_self ..) h
  rw [Function.update_idem] at hbooks
  exact hbooks

theorem onConn_attends {f : Conn → Conn} (h : ∀ c : Conn, c.Steady (f c)) : Act.Within Attends (onConn f) :=
  Act.within_modify fun t => .of_steady (h t.conn)

theorem push_steady (reply : Reply) (c : Conn) : c.Steady (c.push reply) := ⟨rfl, rfl, id, rfl⟩

theorem refuse_steady (message : String) (c : Conn) : c.Steady (c.refuse message) :=
  ⟨rfl, rfl, fun h => (by cases h), rfl⟩

theorem Conn.Steady.trans {c c' c'' : Conn} (h : c.Steady c') (h' : c'.Steady c'') : c.Steady c'' :=
  ⟨h'.id.trans h.id, h'.blocked.trans h.blocked, fun hc => h.closing (h'.closing hc),
    h'.told.trans h.told⟩

theorem pushes_steady (replies : List Reply) :
    ∀ c : Conn, c.Steady (replies.foldl (fun c reply => c.push reply) c) := by
  induction replies with
  | nil => exact fun c => .refl c
  | cons reply replies ih => exact fun c => (push_steady reply c).trans (ih _)

theorem respond_steady (response : Response) (c : Conn) : c.Steady (c.respond response) := by
  unfold Conn.respond
  dsimp only
  split
  · exact (pushes_steady _ c).trans ⟨rfl, rfl, fun h => (by cases h), rfl⟩
  · exact pushes_steady _ c

theorem handleWrite_steady (results : List WriteResult) : ∀ c : Conn, c.Steady (handleWrite results c) := by
  induction results with
  | nil =>
    intro c
    unfold handleWrite
    split
    · exact .refl c
    · exact ⟨rfl, rfl, id, rfl⟩
  | cons result results ih =>
    intro c
    unfold handleWrite
    split
    · cases result with
      | wouldBlock => exact .refl c
      | failed => exact ⟨rfl, rfl, fun h => (by cases h), rfl⟩
      | taken n =>
        dsimp only
        split
        · exact ⟨rfl, rfl, fun h => (by cases h), rfl⟩
        · refine Conn.Steady.trans ?_ (ih _)
          exact ⟨rfl, rfl, fun h => h, rfl⟩
    · exact ⟨rfl, rfl, id, rfl⟩

/-- A request is run only where no command is parked. -/
theorem run_attends (argv : List Bytes) {e : Env} {t : Attended} {w : World}
    (hidle : t.conn.client.blocked = false) :
    Act.Sat (Attended.run argv) e t w (fun _ t' _ => Attends t t') (fun _ => True) := by
  unfold Attended.run onServed
  rw [Act.sat_bind, Act.sat_zoom]
  refine Act.sat_mono (served_settled argv e _ w) ?_ (fun _ h => h)
  intro response s' w' hs
  rw [Act.sat_bind, onConn, Act.sat_modify, Act.sat_pure]
  intro id rest hb
  have hconn := hb.told (Function.update_self ..)
  rw [hidle] at hconn
  rw [hs.next]
  have htold : parkedAfter (.ran argv response :: t.conn.history) =
      some (response.any fun r => r.block.isSome) := by
    rw [parkedAfter, hconn]
    rfl
  have hid : t.conn.client.id = id := (hb.ids (Function.update_self ..)).1
  cases hparked : response.any fun r => r.block.isSome with
  | false =>
    obtain ⟨hblocked, hregistry⟩ := hs.idle hparked
    have hsteady : t.conn.Steady (({ t.conn with client := s'.client } : Conn).noted
        (.ran argv response)) := ⟨hs.id, hblocked, fun h => h, htold.trans (by rw [hparked, hconn])⟩
    have hbooks := hb.replace (Function.update_self ..) hsteady
    rw [Function.update_idem] at hbooks
    rw [hregistry]
    exact hbooks
  | true =>
    obtain ⟨hblocked, waiter, hwaiter, hregistry⟩ := hs.parked hparked
    have hwaits : parkedAfter (({ t.conn with client := s'.client } : Conn).noted
        (.ran argv response)).history = some true := htold.trans (by rw [hparked])
    have hbooks := hb.park (Function.update_self ..) hidle (hwaiter.trans hid) (hs.id.trans hid)
      hblocked hwaits
    rw [Function.update_idem] at hbooks
    rw [hregistry]
    exact hbooks

theorem roundEnds_attends (limit : Nat) : Act.Within Attends (roundEnds limit) :=
  Act.within_bind Act.within_get fun _ => Act.within_ite
    (Act.within_bind (onConn_attends (refuse_steady _)) fun _ => Act.within_pure _) (Act.within_pure _)

theorem processLoop_attends (maxBulk limit n : Nat) : Act.Within Attends (processLoop maxBulk limit n) := by
  induction n with
  | zero => exact Act.within_pure _
  | succ n ih =>
    have hround : Act.Within Attends (do
        let ends ← roundEnds limit
        if ends then pure () else processLoop maxBulk limit n : Run Attended Unit) :=
      Act.within_bind (roundEnds_attends limit) fun _ => Act.within_ite (Act.within_pure _) ih
    intro e t w
    unfold processLoop
    rw [Act.sat_bind, Act.sat_get]
    dsimp only
    cases hblocked : t.conn.client.blocked with
    | true => exact refl_of Attends t
    | false =>
      rw [if_neg Bool.false_ne_true]
      cases hparsed : parseRequest t.conn.rbuf maxBulk with
      | none => trivial
      | some parsed =>
        cases parsed with
        | incomplete => exact refl_of Attends t
        | error message =>
          exact Attends.of_steady ((refuse_steady message t.conn).trans ⟨rfl, rfl, fun h => h, rfl⟩)
        | request argv consumed =>
          dsimp only
          rw [Act.sat_bind, onConn, Act.sat_modify, Act.sat_bind]
          have hdrained : Attends t { t with
              conn := { t.conn with rbuf := t.conn.rbuf.drop consumed } } :=
            .of_steady ⟨rfl, rfl, fun h => h, rfl⟩
          refine Act.sat_mono (run_attends argv (t := { t with
            conn := { t.conn with rbuf := t.conn.rbuf.drop consumed } }) hblocked) ?_ (fun _ h => h)
          intro response t' w' hrun
          have hrest : ∀ {m : Run Attended Unit}, Act.Within Attends m →
              Act.Sat m e t' w' (fun _ t'' _ => Attends t t'') (fun _ => True) := fun hm =>
            Act.sat_mono (hm e t' w')
              (fun _ _ _ h => trans_of Attends (trans_of Attends hdrained hrun) h) (fun _ h => h)
          cases response with
          | none => exact hrest hround
          | some response =>
            dsimp only
            split
            · exact trans_of Attends hdrained hrun
            · exact hrest (Act.within_bind (onConn_attends (respond_steady response)) fun _ => hround)

theorem processRequests_attends : Act.Within Attends processRequests :=
  Act.within_bind Act.within_get fun _ => processLoop_attends _ _ _

theorem handleRead_attends (result : ReadResult) : Act.Within Attends (handleRead result) := by
  have hclose : Act.Within Attends (onConn Conn.requestClose) :=
    onConn_attends fun _ => ⟨rfl, rfl, fun h => (by cases h), rfl⟩
  cases result with
  | bytes chunk =>
    refine Act.within_ite hclose (Act.within_bind (onConn_attends fun _ => ?_) fun _ =>
      processRequests_attends)
    exact ⟨rfl, rfl, fun h => h, rfl⟩
  | wouldBlock => exact Act.within_pure _
  | failed => exact hclose

theorem attendReady_attends (ready : Ready) : Act.Within Attends (EventLoop.attendReady ready) := by
  have hhup : Act.Within Attends (onConn fun c => if ready.hup then c.requestClose else c) := by
    refine onConn_attends fun c => ?_
    split
    · exact ⟨rfl, rfl, fun h => (by cases h), rfl⟩
    · exact .refl c
  have hwrite : ∀ results, Act.Within Attends (onConn (handleWrite results)) := fun results =>
    onConn_attends (handleWrite_steady results)
  unfold EventLoop.attendReady
  refine Act.within_bind hhup fun _ => ?_
  cases ready.input with
  | none =>
    cases ready.output with
    | none => exact Act.within_pure _
    | some results => exact hwrite results
  | some result =>
    refine Act.within_bind (handleRead_attends result) fun _ => ?_
    cases ready.output with
    | none => exact Act.within_pure _
    | some results => exact hwrite results

/-! ## A pass -/

namespace EventLoop

variable {e : Env} {s : EventLoop} {w : World}

/-- The books of the whole server. -/
def Booked (s : EventLoop) : Prop := Books s.app.blocked s.app.nextClientId s.connections.lookup

/-- The books stay in order. -/
def Keeps (s s' : EventLoop) : Prop := Booked s → Booked s'

instance : IsPreorder EventLoop Keeps where
  refl _ h := h
  trans _ _ _ h h' hs := h' (h hs)

theorem keeps_of_booked {α : Type} {m : Run EventLoop α} (h : ∀ e s w, Booked s →
    Act.Sat m e s w (fun _ s' _ => Booked s') (fun _ => True)) : Act.Within Keeps m := by
  intro e s w
  by_cases hs : Booked s
  · exact Act.sat_mono (h e s w hs) (fun _ _ _ hs' _ => hs') (fun _ h => h)
  · exact Act.sat_mono (Act.sat_true m) (fun _ _ _ _ hs' => absurd hs' hs) (fun _ h => h)

theorem lookup_insert (conns : Assoc Nat Conn) (id : Nat) (c : Conn) :
    (conns.insert id c).lookup = Function.update conns.lookup id (some c) := by
  funext i
  rw [Assoc.lookup_insert_eq, Function.update_apply]

theorem onApp_keeps {α : Type} {m : Run App α}
    (h : ∀ e a w, Act.Sat m e a w (fun _ a' _ => a'.blocked = a.blocked ∧
      a'.nextClientId = a.nextClientId) (fun _ => True)) : Act.Within Keeps (onApp m) := by
  intro e s w
  unfold onApp
  rw [Act.sat_zoom]
  refine Act.sat_mono (h e s.app w) ?_ (fun _ h => h)
  rintro _ a w' ⟨hblocked, hnext⟩ hs
  unfold Booked
  rw [hblocked, hnext]
  exact hs

theorem attend_keeps {α : Type} {m : Run Attended α} {id : Nat} {conn : Conn}
    (hc : s.connections.lookup id = some conn) (hm : Act.Within Attends m) :
    Act.Sat (attend id conn m) e s w (fun _ s' _ => Keeps s s') (fun _ => True) := by
  unfold attend
  rw [Act.sat_zoom]
  refine Act.sat_mono (hm e ⟨s.app, conn⟩ w) ?_ (fun _ h => h)
  intro _ t w' ht hs
  unfold Booked
  rw [lookup_insert]
  refine ht id s.connections.lookup ?_
  rw [← hc, Function.update_eq_self]
  exact hs

theorem accept_keeps (addr : String) : Act.Within Keeps (accept addr) := by
  refine keeps_of_booked fun e s w hs => ?_
  have hjoin : ∀ {c : Conn}, c.client.id = s.app.nextClientId + 1 → c.client.blocked = false →
      parkedAfter c.history = some false → Books s.app.blocked (s.app.nextClientId + 1)
        (s.connections.insert (s.app.nextClientId + 1) c).lookup := by
    intro c hid hblocked htold
    rw [lookup_insert]
    exact Books.join hs hid hblocked htold
  unfold accept onApp App.takeClientId
  simp only [Act.sat_bind, Act.sat_zoom, Act.sat_modify, Act.sat_state]
  show Act.Sat (if _ then _ else _) _ _ _ _ _
  rw [Act.sat_ite]
  refine ⟨fun _ => ?_, fun _ => ?_⟩
  · exact hjoin rfl rfl rfl
  · exact hjoin rfl rfl rfl

theorem turn_keeps (p : Nat × Ready) : Act.Within Keeps (turn p) := by
  intro e s w
  unfold turn
  rw [Act.sat_bind, Act.sat_get, Act.sat_bind]
  cases hc : s.connections.lookup p.1 with
  | none => trivial
  | some conn => exact attend_keeps hc (attendReady_attends p.2)

theorem resume_keeps (woken : List Nat) : Act.Within Keeps (resume woken) := by
  refine Act.within_forList (fun id => ?_) woken
  intro e s w
  rw [Act.sat_bind, Act.sat_get]
  cases hc : s.connections.lookup id with
  | none => exact refl_of Keeps s
  | some conn => exact attend_keeps hc processRequests_attends

/-- A retry answers the client, or leaves it as it was. -/
theorem retryWaiter_spec (waiter : Blocked) (t : Attended) :
    Act.Sat (retryWaiter waiter) e t w (fun answered t' _ =>
      t'.app.blocked = t.app.blocked ∧ t'.app.nextClientId = t.app.nextClientId ∧
        t'.conn.client.id = t.conn.client.id ∧ t'.conn.wantClose = t.conn.wantClose ∧
        (answered = false → t.conn.Steady t'.conn) ∧
        (answered = true → t'.conn.client.blocked = false ∧
          (parkedAfter t.conn.history = some true → parkedAfter t'.conn.history = some false)))
      (fun _ => True) := by
  unfold retryWaiter onServed
  rw [Act.sat_bind, Act.sat_zoom]
  refine Act.sat_mono (retry_changes waiter.argv e _ w) ?_ (fun _ h => h)
  intro reply s' w' hchanges
  have hun := Changes.unparked hchanges
  cases reply with
  | none =>
    exact ⟨hun.registry, hun.next, hun.id, rfl,
      fun _ => ⟨hun.id, hun.blocked, fun h => h, rfl⟩, fun h => (by cases h)⟩
  | some reply =>
    refine ⟨hun.registry, hun.next, hun.id, rfl, fun h => (by cases h), fun _ => ⟨rfl, fun h => ?_⟩⟩
    show (parkedAfter t.conn.history).bind _ = _
    rw [h]
    rfl

/-- One parked command of the scan. -/
theorem scan_keeps (ready : List Bytes) (n : Nat) : ∀ index, Act.Within Keeps (scan ready n index) := by
  induction n with
  | zero => exact fun _ => Act.within_pure _
  | succ n ih =>
    intro index e s w
    unfold scan
    rw [Act.sat_bind, Act.sat_get]
    cases hwaiter : s.app.blocked[index]? with
    | none => exact refl_of Keeps s
    | some waiter =>
      dsimp only
      obtain ⟨hlt, hget⟩ := List.getElem?_eq_some_iff.mp hwaiter
      have hperm : s.app.blocked.Perm (waiter :: s.app.blocked.eraseIdx index) := by
        rw [← hget]
        exact (List.getElem_cons_eraseIdx_perm hlt).symm
      split
      · rw [Act.sat_bind]
        show Act.Sat _ e { s with app := { s.app with blocked := s.app.blocked.eraseIdx index } } w _ _
        have hforgotten : (∀ c, s.connections.lookup waiter.id = some c → c.wantClose = true) →
            Keeps s { s with app := { s.app with blocked := s.app.blocked.eraseIdx index } } :=
          fun hclosing hs => (Books.perm hs hperm).drop hclosing
        have hnext : ∀ {s₁ : EventLoop} {w₁ : World} (i : Nat), Keeps s s₁ →
            Act.Sat (scan ready n i) e s₁ w₁ (fun _ s' _ => Keeps s s') (fun _ => True) :=
          fun i hs => Act.sat_mono (ih i e _ _) (fun _ _ _ h => trans_of Keeps hs h) (fun _ h => h)
        cases hc : s.connections.lookup waiter.id with
        | none => exact hnext index (hforgotten (by rw [hc]; exact fun _ h => (by cases h)))
        | some conn =>
          dsimp only
          split
          · rename_i hclosing
            refine hnext index (hforgotten ?_)
            rw [hc]
            intro c h
            cases h
            exact hclosing
          · unfold attend
            rw [Act.sat_bind, Act.sat_zoom]
            refine Act.sat_mono (retryWaiter_spec waiter _) ?_ (fun _ h => h)
            rintro answered t w' ⟨hblocked, hnextId, hid, -, hstays, hwoken⟩
            cases answered with
            | true =>
              obtain ⟨hawake, htold⟩ := hwoken rfl
              have hkeeps : Keeps s ⟨t.app, s.connections.insert waiter.id t.conn⟩ := by
                intro hs
                unfold Booked
                rw [lookup_insert, hblocked, hnextId]
                exact (Books.perm hs hperm).wake hc hid hawake htold
              rw [if_pos rfl, Act.sat_bind]
              exact Act.sat_mono (hnext index hkeeps) (fun _ _ _ h => h) (fun _ h => h)
            | false =>
              rw [if_neg Bool.false_ne_true, Act.sat_bind]
              have hback : (s.app.blocked.eraseIdx index).insertIdx index waiter = s.app.blocked := by
                rw [← hget]
                exact List.insertIdx_eraseIdx_getElem hlt
              refine hnext (index + 1) ?_
              intro hs
              show Books (t.app.blocked.insertIdx index waiter) _ _
              rw [lookup_insert, hblocked, hnextId, hback]
              exact Books.replace hs hc (hstays rfl)
      · exact ih (index + 1) e s w

theorem readyLoop_keeps (n : Nat) : Act.Within Keeps (readyLoop n) := by
  induction n with
  | zero => exact Act.within_pure _
  | succ n ih =>
    refine Act.within_bind Act.within_get fun s => Act.within_ite (Act.within_pure _) ?_
    refine Act.within_bind (onApp_keeps fun _ _ _ => ⟨rfl, rfl⟩) fun _ => ?_
    refine Act.within_bind (scan_keeps _ _ _) fun woken => ?_
    exact Act.within_bind (resume_keeps woken) fun _ => ih

theorem serveReadyKeys_keeps : Act.Within Keeps serveReadyKeys :=
  Act.within_bind Act.within_get fun _ => readyLoop_keeps _

/-- The late ones are answered one after the other. -/
theorem answerLate_keeps : ∀ (late : List Blocked) {s : EventLoop} {w : World},
    Books (late ++ s.app.blocked) s.app.nextClientId s.connections.lookup →
    Act.Sat (answerLate late) e s w (fun _ s' _ => Booked s') (fun _ => True)
  | [], _, _, h => h
  | waiter :: late, s, w, h => by
    unfold answerLate
    rw [Act.sat_bind, Act.sat_get]
    rw [List.cons_append] at h
    cases hc : s.connections.lookup waiter.id with
    | none => exact answerLate_keeps late (h.drop fun c hc' => by rw [hc] at hc'; cases hc')
    | some conn =>
      dsimp only
      split
      · rename_i hclosing
        refine answerLate_keeps late (h.drop fun c hc' => ?_)
        rw [hc] at hc'
        cases hc'
        exact hclosing
      · rw [Act.sat_bind, Act.sat_modify, Act.sat_bind]
        refine Act.sat_mono (answerLate_keeps late ?_) (fun _ _ _ h => h) (fun _ h => h)
        rw [lookup_insert]
        refine h.wake hc rfl rfl fun htold => ?_
        show (parkedAfter conn.history).bind _ = _
        rw [htold]
        rfl

theorem serveTimeouts_keeps : Act.Within Keeps serveTimeouts := by
  refine keeps_of_booked fun e s w hs => ?_
  unfold serveTimeouts App.takeTimedOut onApp
  rw [Act.sat_bind, Act.sat_zoom, Act.sat_bind]
  show Act.Sat (do
    let woken ← answerLate (s.app.blocked.filter (App.timedOut (e.instant w.instants)))
    resume woken) e { s with app := { s.app with
      blocked := s.app.blocked.filter fun b => !App.timedOut (e.instant w.instants) b } } _ _ _
  rw [Act.sat_bind]
  refine Act.sat_mono (answerLate_keeps _ (Books.perm hs ?_)) ?_ (fun _ h => h)
  · exact (List.filter_append_perm _ _).symm
  · intro woken s' w' hs'
    exact Act.sat_mono (resume_keeps woken e s' w') (fun _ _ _ h => h hs') (fun _ h => h)

/-- A change of one connection, if it is there. -/
theorem adjust_keeps {id : Nat} {f : Conn → Conn} (h : ∀ c : Conn, c.Steady (f c)) :
    Act.Within Keeps (Act.modify fun s => { s with connections := s.connections.adjust id f } :
      Run EventLoop Unit) := by
  refine Act.within_modify fun s hs => ?_
  unfold Assoc.adjust Booked
  cases hc : s.connections.lookup id with
  | none => exact hs
  | some c =>
    dsimp only
    rw [lookup_insert]
    exact Books.replace hs hc (h c)

theorem deliverOutbox_keeps : Act.Within Keeps deliverOutbox := by
  refine Act.within_bind Act.within_get fun s => ?_
  refine Act.within_bind (onApp_keeps fun _ _ _ => ⟨rfl, rfl⟩) fun _ => ?_
  refine Act.within_forList (fun p => adjust_keeps fun c => ?_) _
  exact ⟨rfl, rfl, fun h => h, rfl⟩

theorem flush_keeps (writes : Nat → List WriteResult) : Act.Within Keeps (flush writes) := by
  refine Act.within_bind Act.within_get fun s => Act.within_forList (fun id => ?_) _
  refine adjust_keeps fun c => ?_
  split
  · exact handleWrite_steady _ c
  · exact .refl c

theorem lookup_erase (conns : Assoc Nat Conn) (id : Nat) :
    (conns.erase id).lookup = Function.update conns.lookup id none := by
  funext i
  rw [Assoc.lookup_erase_eq, Function.update_apply]

theorem remove_keeps (id : Nat) : Act.Within Keeps (remove id) := by
  intro e s w
  unfold remove
  rw [Act.sat_bind, Act.sat_get]
  cases hc : s.connections.lookup id with
  | none => exact refl_of Keeps s
  | some conn =>
    dsimp only
    rw [Act.sat_bind, Act.sat_modify, Act.sat_bind]
    unfold onApp App.forgetClient
    rw [Act.sat_zoom, Act.sat_bind, Act.sat_modify]
    refine Act.sat_mono (App.unwatchAll_releasedAll conn.client e _ w) ?_ (fun _ h => h)
    rintro _ a _ ⟨-, rfl⟩ hs
    unfold Booked
    rw [lookup_erase]
    have hid : conn.client.id = id := (hs.ids hc).1
    have hleft := Books.leave hs id
    rw [← hid] at hleft ⊢
    exact hleft

theorem close_keeps : Act.Within Keeps close :=
  Act.within_bind Act.within_get fun _ => Act.within_forList remove_keeps _

/-! ## Runs -/

/-- The parts of a pass, and passes. -/
inductive Phase where
  /-- A client connects. -/
  | accept (addr : String)
  /-- A connection is read from, hung up on or written to. -/
  | turn (id : Nat) (ready : Ready)
  | serveReadyKeys
  | serveTimeouts
  | deliverOutbox
  | flush (writes : Nat → List WriteResult)
  | close
  | pass (pass : Pass)

/-- A part of a pass, or a pass. -/
def Phase.step : Phase → Run EventLoop Unit
  | .accept addr => EventLoop.accept addr
  | .turn id ready => EventLoop.turn (id, ready)
  | .serveReadyKeys => EventLoop.serveReadyKeys
  | .serveTimeouts => EventLoop.serveTimeouts
  | .deliverOutbox => EventLoop.deliverOutbox
  | .flush writes => EventLoop.flush writes
  | .close => EventLoop.close
  | .pass p => pollOnce p

theorem tick_registry (e : Env) (a : App) (w : World) :
    Act.Sat App.tick e a w (fun _ a' _ => a'.blocked = a.blocked ∧ a'.nextClientId = a.nextClientId)
      (fun _ => True) :=
  Act.sat_mono (Hub.tick_aside e a w) (fun _ _ _ h => ⟨h.blocked, h.nextClientId⟩) (fun _ h => h)

theorem pollOnce_keeps (pass : Pass) : Act.Within Keeps (pollOnce pass) := by
  have hwaits : Act.Within Keeps (onApp pollTimeout) := by
    refine onApp_keeps fun e a w => ?_
    unfold pollTimeout
    rw [Act.sat_bind, Act.sat_get]
    dsimp only
    split
    · exact ⟨rfl, rfl⟩
    · exact ⟨rfl, rfl⟩
  cases pass with
  | interrupted => exact Act.within_bind hwaits fun _ => Act.within_pure _
  | ready accepted polled writes =>
    refine Act.within_bind Act.within_get fun s => Act.within_bind hwaits fun _ => ?_
    refine Act.within_bind (Act.within_forList accept_keeps accepted) fun _ => ?_
    refine Act.within_bind (Act.within_forList turn_keeps _) fun _ => ?_
    refine Act.within_bind serveReadyKeys_keeps fun _ => ?_
    refine Act.within_bind serveTimeouts_keeps fun _ => ?_
    refine Act.within_bind deliverOutbox_keeps fun _ => ?_
    refine Act.within_bind (flush_keeps writes) fun _ => Act.within_bind close_keeps fun _ => ?_
    exact Act.within_bind (Act.within_modify fun _ h => h) fun _ => onApp_keeps tick_registry

theorem step_keeps (phase : Phase) : Act.Within Keeps phase.step := by
  cases phase with
  | accept addr => exact accept_keeps addr
  | turn id ready => exact turn_keeps (id, ready)
  | serveReadyKeys => exact serveReadyKeys_keeps
  | serveTimeouts => exact serveTimeouts_keeps
  | deliverOutbox => exact deliverOutbox_keeps
  | flush writes => exact flush_keeps writes
  | close => exact close_keeps
  | pass p => exact pollOnce_keeps p

/-- **Parked clients are accounted for.**  From a server without connections on, whatever passes and
parts of passes follow: a client is in the registry at most once; a connection that is not being
closed is blocked exactly when its client is in the registry; and on no connection was a request run
while a command was parked, or a parked command answered twice. -/
theorem parked_accounted (phases : List Phase) (e : Env) (a : App) (w : World) :
    Act.Sat (Act.forList Phase.step phases) e { app := { a with blocked := [] } } w
      (fun _ s _ => (s.app.blocked.map Blocked.id).Nodup ∧
        ∀ id c, s.connections.lookup id = some c →
          (c.wantClose = false → (c.client.blocked = true ↔ id ∈ s.app.blocked.map Blocked.id)) ∧
          parkedAfter c.history = some c.client.blocked)
      (fun _ => True) := by
  have hstart : Booked { app := { a with blocked := [] } } :=
    ⟨fun h => (by cases h), List.nodup_nil, fun _ h => (by cases h), fun h => (by cases h),
      fun h => (by cases h)⟩
  refine Act.sat_mono (Act.within_forList step_keeps phases e _ w) ?_ (fun _ h => h)
  intro _ s _ hkeeps
  have hs : Booked s := hkeeps hstart
  refine ⟨hs.once, fun id c hc => ⟨fun hopen => ⟨hs.waiting hc hopen, fun hmem => ?_⟩, hs.told hc⟩⟩
  obtain ⟨waiter, hw, rfl⟩ := List.mem_map.mp hmem
  obtain ⟨c', hc', hblocked⟩ := hs.parked waiter hw
  rw [hc] at hc'
  cases hc'
  exact hblocked

end EventLoop

end Klyro
