import Mathlib.Data.Prod.Lex
import Klyro.Lib.Totals
import Klyro.Server.Parked

/-!
# The ready keys are drained

Serving the ready keys readies others and runs requests that park again, and yet comes to an end.

* `retry_unready` — a parked command that is run again and stays parked readies no key.
* `Spends`, `processLoop_enough` — serving a read buffer takes a byte for every request.
* `Answers`, `scan_enough` — a scan of the registry, by how many it answered.
* `Drains` — the loop with as many passes as it takes; `ready_drained`.
-/

set_option autoImplicit false

namespace Klyro

open Served

/-! ## What a parked retry readies -/

section unready

variable {e : Env} {name : String} {argv : List Bytes}

/-- A key that is gone is signalled without joining the wake-up scan. -/
theorem signalModified_unready {key : Bytes} {a : App} {w : World} (h : a.store.view key = none) :
    Act.Sat (App.signalModified key) e a w (fun _ a' _ => a'.readyKeys = a.readyKeys)
      (fun _ => True) := by
  unfold App.signalModified
  rw [Act.sat_bind, Act.sat_modify, Act.sat_bind, Act.sat_get]
  split
  · rfl
  · rw [Act.sat_bind, App.onStore, Act.sat_zoom]
    refine Act.sat_mono (Store.peekType_spec key) ?_ (fun _ _ => trivial)
    rintro type s' w' ⟨-, htype, -⟩
    have hnone : type = none := by
      rw [htype]
      show (Keyspace.liveAt a.store.view _ key).map _ = none
      unfold Keyspace.liveAt
      rw [h]
      rfl
    subst hnone
    rfl

/-- Evictions ready no key: a victim is gone when it is signalled. -/
theorem evictLoop_unready (policy : Policy) (n : Nat) :
    Act.Preserves App.readyKeys (App.evictLoop policy n) := by
  have hstore : ∀ {α : Type} (m : Run Store α), Act.Preserves App.readyKeys (App.onStore m) :=
    fun m => Act.preserves_zoom fun _ _ => rfl
  have hfits : Act.Preserves App.readyKeys App.withinLimit :=
    Act.preserves_bind Act.preserves_get fun _ => Act.preserves_ite (Act.preserves_pure _) <|
      Act.preserves_bind (fun _ _ _ => rfl) fun _ => Act.preserves_pure _
  induction n with
  | zero => exact Act.preserves_pure _
  | succ n ih =>
    refine Act.preserves_bind Act.preserves_get fun a => Act.preserves_ite (Act.preserves_pure _) ?_
    refine Act.preserves_bind (hstore _) fun candidates => ?_
    cases App.choose policy candidates with
    | none => exact Act.preserves_pure _
    | some victim =>
      dsimp only
      intro e a w
      rw [Act.sat_bind, App.onStore, Act.sat_zoom]
      refine Act.sat_mono (Store.evict_spec victim.key) ?_ (fun _ _ => trivial)
      rintro gone t w' ⟨-, -, hview, -⟩
      rw [Act.sat_ite]
      refine ⟨fun _ => ?_, fun _ => ih e _ w'⟩
      rw [Act.sat_bind, Act.sat_modify, Act.sat_bind]
      refine Act.sat_mono (signalModified_unready ?_) ?_ (fun _ h => h)
      · show t.view victim.key = none
        rw [hview, Function.update_self]
      · intro _ a' w'' ha'
        have hrest : Act.Preserves App.readyKeys (do
            let fits ← App.withinLimit
            if fits then pure true else App.evictLoop policy n : Run App Bool) :=
          Act.preserves_bind hfits fun _ => Act.preserves_ite (Act.preserves_pure _) ih
        exact Act.sat_mono (hrest e a' w'') (fun _ _ _ h => h.trans ha') (fun _ h => h)

theorem memoryGate_unready : Act.Preserves App.readyKeys (memoryGate name) := by
  have hfits : Act.Preserves App.readyKeys App.withinLimit :=
    Act.preserves_bind Act.preserves_get fun _ => Act.preserves_ite (Act.preserves_pure _) <|
      Act.preserves_bind (fun _ _ _ => rfl) fun _ => Act.preserves_pure _
  have hroom : Act.Preserves App.readyKeys App.makeRoom :=
    Act.preserves_bind hfits fun _ => Act.preserves_ite (Act.preserves_pure _) <|
      Act.preserves_bind Act.preserves_get fun _ =>
        Act.preserves_ite (Act.preserves_pure _) (evictLoop_unready _ _)
  exact Act.preserves_bind Act.preserves_get fun _ => Act.preserves_ite (Act.preserves_pure _) <|
    Act.preserves_bind hroom fun _ => Act.preserves_pure _

/-- A command that parks readied no key. -/
theorem runWith_unready (exec : Run Served Response) (hexec : Awake exec) (s : Served) (w : World) :
    Act.Sat (runWith exec name argv) e s w
      (fun r s' _ => r.block.isSome = true → s'.app.readyKeys = s.app.readyKeys) (fun _ => True) := by
  by_cases hfamily : family name = some .blocking
  · unfold runWith
    rw [hfamily]
    dsimp only
    rw [Act.sat_bind, Act.sat_get, sat_onStore]
    exact Act.sat_mono (Act.sat_true _) (fun _ _ _ _ _ => rfl) (fun _ h => h)
  · refine Act.sat_mono (runWith_awake hexec hfamily e s w) ?_ (fun _ h => h)
    intro r s' w' hnone hblock
    rw [hnone] at hblock
    cases hblock

/-- A retry that stays parked leaves the keys that are ready as they were. -/
theorem retry_unready (s : Served) (w : World) :
    Act.Sat (retry argv) e s w (fun r s' _ => r = none → s'.app.readyKeys = s.app.readyKeys)
      (fun _ => True) := by
  unfold retry execute
  rw [Act.sat_bind]
  refine Act.sat_mono (Q := fun r s' _ => r.block.isSome = true →
    s'.app.readyKeys = s.app.readyKeys) ?_ ?_ (fun _ h => h)
  · refine sat_executeWith (fun _ _ h => (by cases h)) fun _ => ?_
    refine Act.sat_mono (memoryGate_unready e s.counted.app w) ?_ (fun _ h => h)
    intro refusal a w₁ ha
    refine ⟨fun _ _ h => (by cases h), fun _ => ?_⟩
    refine Act.sat_mono (runWith_unready exec exec_awake { s with app := a } w₁) ?_ (fun _ h => h)
    intro r s₂ w₂ hr stats _
    -- a response that parks is silent, so nothing is signalled after it
    by_cases hblock : r.block.isSome = true
    · unfold signalWrites
      rw [if_pos (by unfold Response.silent; rw [hblock, Bool.true_or])]
      exact fun _ => (hr hblock).trans ha
    · exact Act.sat_mono (Act.sat_true _) (fun _ _ _ _ h => absurd h hblock) (fun _ h => h)
  · intro r s' w' hr
    rw [Act.sat_bind, onApp, Act.sat_zoom, Act.sat_modify, Act.sat_pure]
    intro hnone
    refine hr ?_
    by_contra hblock
    rw [if_neg hblock] at hnone
    cases hnone

end unready

/-! ## What serving a connection costs -/

/-- Bytes are taken from the read buffer, and every command that is parked takes some. -/
structure Spends (t t' : Attended) : Prop where
  bytes : t'.conn.rbuf.length ≤ t.conn.rbuf.length
  parked : t'.conn.rbuf.length + t'.app.blocked.length ≤ t.conn.rbuf.length + t.app.blocked.length

instance : IsPreorder Attended Spends where
  refl _ := ⟨le_rfl, le_rfl⟩
  trans _ _ _ h h' := ⟨h'.bytes.trans h.bytes, h'.parked.trans h.parked⟩

theorem onConn_spends {f : Conn → Conn} (h : ∀ c : Conn, (f c).rbuf.length ≤ c.rbuf.length) :
    Act.Within Spends (Attended.onConn f) :=
  Act.within_modify fun t => ⟨h t.conn, Nat.add_le_add_right (h t.conn) _⟩

theorem respond_rbuf (response : Response) (c : Conn) : (c.respond response).rbuf = c.rbuf := by
  have hpushes : ∀ (replies : List Reply) (c : Conn),
      (replies.foldl (fun c reply => c.push reply) c).rbuf = c.rbuf := by
    intro replies
    induction replies with
    | nil => exact fun _ => rfl
    | cons reply replies ih => exact fun c => ih (c.push reply)
  unfold Conn.respond
  dsimp only
  split
  · exact hpushes _ c
  · exact hpushes _ c

/-- A request leaves the buffer alone and parks at most one command. -/
theorem run_parks (argv : List Bytes) (e : Env) (t : Attended) (w : World) :
    Act.Sat (Attended.run argv) e t w (fun _ t' _ => t'.conn.rbuf = t.conn.rbuf ∧
      t'.app.blocked.length ≤ t.app.blocked.length + 1) (fun _ => True) := by
  unfold Attended.run Attended.onServed
  rw [Act.sat_bind, Act.sat_zoom]
  refine Act.sat_mono (served_settled argv e _ w) ?_ (fun _ h => h)
  intro response s' w' hs
  refine ⟨rfl, ?_⟩
  show s'.app.blocked.length ≤ _
  cases hparked : response.any fun r => r.block.isSome with
  | false =>
    rw [(hs.idle hparked).2]
    exact Nat.le_succ _
  | true =>
    obtain ⟨-, waiter, -, hregistry⟩ := hs.parked hparked
    rw [hregistry, List.length_append]
    exact le_rfl

theorem roundEnds_spends (limit : Nat) : Act.Within Spends (roundEnds limit) :=
  Act.within_bind Act.within_get fun _ => Act.within_ite
    (Act.within_bind (onConn_spends fun _ => le_rfl) fun _ => Act.within_pure _) (Act.within_pure _)

/-- A request with its bytes: at least one of them is taken. -/
theorem request_spends {argv : List Bytes} {consumed maxBulk : Nat} {e : Env} {t : Attended} {w : World}
    (hparsed : parseRequest t.conn.rbuf maxBulk = some (.request argv consumed)) :
    Act.Sat (Attended.run argv) e { t with conn := { t.conn with rbuf := t.conn.rbuf.drop consumed } } w
      (fun _ t' _ => Spends t t' ∧ t'.conn.rbuf.length < t.conn.rbuf.length) (fun _ => True) := by
  obtain ⟨r, hr, hwithin⟩ := parseRequest_returns t.conn.rbuf maxBulk
  rw [hparsed] at hr
  cases hr
  obtain ⟨hpos, hle⟩ := hwithin
  have hdrop : (t.conn.rbuf.drop consumed).length = t.conn.rbuf.length - consumed := List.length_drop
  refine Act.sat_mono (run_parks argv e _ w) ?_ (fun _ h => h)
  rintro _ t' w' ⟨hrbuf, hblocked⟩
  have hlength : t'.conn.rbuf.length = t.conn.rbuf.length - consumed := by
    rw [hrbuf]
    exact hdrop
  have hblocked' : t'.app.blocked.length ≤ t.app.blocked.length + 1 := hblocked
  exact ⟨⟨by omega, by omega⟩, by omega⟩

theorem processLoop_spends (maxBulk limit n : Nat) : Act.Within Spends (processLoop maxBulk limit n) := by
  induction n with
  | zero => exact Act.within_pure _
  | succ n ih =>
    have hround : Act.Within Spends (do
        let ends ← roundEnds limit
        if ends then pure () else processLoop maxBulk limit n : Run Attended Unit) :=
      Act.within_bind (roundEnds_spends limit) fun _ => Act.within_ite (Act.within_pure _) ih
    intro e t w
    unfold processLoop
    rw [Act.sat_bind, Act.sat_get]
    dsimp only
    split
    · exact refl_of Spends t
    · cases hparsed : parseRequest t.conn.rbuf maxBulk with
      | none => trivial
      | some parsed =>
        cases parsed with
        | incomplete => exact refl_of Spends t
        | error message => exact onConn_spends (fun _ => Nat.zero_le _) e t w
        | request argv consumed =>
          dsimp only
          rw [Act.sat_bind, Attended.onConn, Act.sat_modify, Act.sat_bind]
          refine Act.sat_mono (request_spends hparsed) ?_ (fun _ h => h)
          rintro response t' w' ⟨hrun, -⟩
          have hrest : ∀ {m : Run Attended Unit}, Act.Within Spends m →
              Act.Sat m e t' w' (fun _ t'' _ => Spends t t'') (fun _ => True) := fun hm =>
            Act.sat_mono (hm e t' w') (fun _ _ _ h => trans_of Spends hrun h) (fun _ h => h)
          cases response with
          | none => exact hrest hround
          | some response =>
            dsimp only
            split
            · exact hrun
            · refine hrest (Act.within_bind (onConn_spends fun c => ?_) fun _ => hround)
              rw [respond_rbuf]

theorem processRequests_spends : Act.Within Spends processRequests :=
  Act.within_bind Act.within_get fun _ => processLoop_spends _ _ _

/-- **The loop over a read buffer ends by itself**: rounds beyond the bytes there are make no
difference. -/
theorem processLoop_enough (maxBulk limit : Nat) : ∀ (n m : Nat) (e : Env) (t : Attended) (w : World),
    t.conn.rbuf.length < n → t.conn.rbuf.length < m →
    processLoop maxBulk limit n e t w = processLoop maxBulk limit m e t w
  | 0, _, _, _, _, hn, _ => absurd hn (Nat.not_lt_zero _)
  | _ + 1, 0, _, _, _, _, hm => absurd hm (Nat.not_lt_zero _)
  | n + 1, m + 1, e, t, w, hn, hm => by
    have hround : ∀ {t' : Attended} {w' : World}, t'.conn.rbuf.length < n → t'.conn.rbuf.length < m →
        (do
          let ends ← roundEnds limit
          if ends then pure () else processLoop maxBulk limit n : Run Attended Unit) e t' w' =
        (do
          let ends ← roundEnds limit
          if ends then pure () else processLoop maxBulk limit m : Run Attended Unit) e t' w' := by
      intro t' w' hn' hm'
      refine Act.bind_congr_of_sat (roundEnds_spends limit e t' w') fun ends t'' w'' hspent => ?_
      have hbytes := hspent.bytes
      cases ends with
      | true => rfl
      | false => exact processLoop_enough maxBulk limit n m e t'' w'' (by omega) (by omega)
    unfold processLoop
    show (if t.conn.client.blocked then _ else _ : Run Attended Unit) e t w =
      (if t.conn.client.blocked then _ else _ : Run Attended Unit) e t w
    split
    · rfl
    · cases hparsed : parseRequest t.conn.rbuf maxBulk with
      | none => rfl
      | some parsed =>
        cases parsed with
        | incomplete => rfl
        | error message => rfl
        | request argv consumed =>
          dsimp only
          refine Act.bind_congr_of_sat (P := fun _ t' _ => t' =
            { t with conn := { t.conn with rbuf := t.conn.rbuf.drop consumed } }) (R := fun _ => True)
            rfl ?_
          rintro _ _ w' rfl
          refine Act.bind_congr_of_sat (request_spends hparsed) ?_
          rintro response t' w'' ⟨-, hless⟩
          cases response with
          | none => exact hround (by omega) (by omega)
          | some response =>
            dsimp only
            split
            · rfl
            · refine Act.bind_congr_of_sat (P := fun _ t'' _ => t''.conn.rbuf = t'.conn.rbuf)
                (R := fun _ => True) (respond_rbuf response t'.conn) ?_
              intro _ t'' w₃ hrbuf
              exact hround (by rw [hrbuf]; omega) (by rw [hrbuf]; omega)

/-! ## A pass -/

namespace EventLoop

variable {e : Env} {s s' : EventLoop} {w : World}

/-- One pass of the loop of `serve_ready_keys`. -/
def drainPass : Run EventLoop Unit := do
  let s ← Act.get
  onApp (Act.modify fun a => { a with readyKeys := [] })
  let woken ← scan s.app.readyKeys s.app.blocked.length 0
  resume woken

/-- The loop of `serve_ready_keys` as the source has it, with as many passes as it takes. -/
inductive Drains (e : Env) : EventLoop → World → Outcome World EventLoop Unit → Prop where
  /-- No key is ready. -/
  | quiet {s : EventLoop} {w : World} (h : s.app.readyKeys = []) : Drains e s w (.done () s w)
  /-- A pass, and the loop again. -/
  | pass {s s' : EventLoop} {w w' : World} {o : Outcome World EventLoop Unit}
      (h : s.app.readyKeys ≠ []) (hpass : drainPass e s w = .done () s' w')
      (hrest : Drains e s' w' o) : Drains e s w o
  /-- A pass that panics. -/
  | panics {s : EventLoop} {w : World} {p : Panic} (h : s.app.readyKeys ≠ [])
      (hpass : drainPass e s w = .panicked p) : Drains e s w (.panicked p)

theorem Drains.drained {o : Outcome World EventLoop Unit} (h : Drains e s w o) {s' : EventLoop}
    {w' : World} (ho : o = .done () s' w') : s'.app.readyKeys = [] := by
  induction h with
  | quiet h =>
    cases ho
    exact h
  | pass _ _ _ ih => exact ih ho
  | panics => cases ho

/-- Bytes are taken from the read buffers, and every command that is parked takes some. -/
structure Lowers (s s' : EventLoop) : Prop where
  bytes : s'.buffered ≤ s.buffered
  parked : s'.buffered + s'.app.blocked.length ≤ s.buffered + s.app.blocked.length

instance : IsPreorder EventLoop Lowers where
  refl _ := ⟨le_rfl, le_rfl⟩
  trans _ _ _ h h' := ⟨h'.bytes.trans h.bytes, h'.parked.trans h.parked⟩

/-- One connection in place of another. -/
theorem buffered_insert {id : Nat} {conn : Conn} (hc : s.connections.lookup id = some conn)
    (app : App) (conn' : Conn) :
    conn.rbuf.length + ({ app := app, connections := s.connections.insert id conn' } : EventLoop).buffered =
      conn'.rbuf.length + s.buffered := by
  show conn.rbuf.length + Assoc.total (fun p => p.2.rbuf.length) (s.connections.insert id conn') =
    conn'.rbuf.length + Assoc.total (fun p => p.2.rbuf.length) s.connections
  rw [Assoc.total_insert, ← Assoc.total_erase_add hc]
  dsimp only
  omega

theorem resume_lowers (woken : List Nat) : Act.Within Lowers (resume woken) := by
  refine Act.within_forList (fun id => ?_) woken
  intro e s w
  rw [Act.sat_bind, Act.sat_get]
  cases hc : s.connections.lookup id with
  | none => exact refl_of Lowers s
  | some conn =>
    dsimp only
    unfold attend
    rw [Act.sat_zoom]
    refine Act.sat_mono (processRequests_spends e _ w) ?_ (fun _ h => h)
    rintro _ t w' ⟨hbytes, hparked⟩
    have hsum := buffered_insert hc t.app t.conn
    have hbytes' : t.conn.rbuf.length ≤ conn.rbuf.length := hbytes
    have hparked' : t.conn.rbuf.length + t.app.blocked.length ≤
      conn.rbuf.length + s.app.blocked.length := hparked
    exact ⟨by omega, by dsimp only; omega⟩

/-- A retry takes no bytes and parks nobody; one that is not answered readies no key. -/
theorem retryWaiter_rests (waiter : Blocked) (t : Attended) :
    Act.Sat (retryWaiter waiter) e t w (fun answered t' _ => t'.conn.rbuf = t.conn.rbuf ∧
      t'.app.blocked = t.app.blocked ∧ (answered = false → t'.app.readyKeys = t.app.readyKeys))
      (fun _ => True) := by
  unfold retryWaiter Attended.onServed
  rw [Act.sat_bind, Act.sat_zoom]
  refine Act.sat_mono (Act.sat_and (retry_changes waiter.argv e _ w) (retry_unready _ w)) ?_
    (fun _ _ => trivial)
  rintro reply s' w' ⟨hchanges, hunready⟩
  have hblocked := (Changes.unparked hchanges).registry
  cases reply with
  | none => exact ⟨rfl, hblocked, fun _ => hunready rfl⟩
  | some reply => exact ⟨rfl, hblocked, fun h => (by cases h)⟩

/-- What a scan does, by how many it answered. -/
structure Answers (s : EventLoop) (answered : Nat) (s' : EventLoop) : Prop where
  bytes : s'.buffered = s.buffered
  fewer : s'.app.blocked.length + answered ≤ s.app.blocked.length
  unready : answered = 0 → s'.app.readyKeys = s.app.readyKeys

theorem Answers.trans {s'' : EventLoop} {j k : Nat} (h : Answers s j s') (h' : Answers s' k s'') :
    Answers s (j + k) s'' where
  bytes := h'.bytes.trans h.bytes
  fewer := by
    have := h.fewer
    have := h'.fewer
    omega
  unready hzero := (h'.unready (by omega)).trans (h.unready (by omega))

theorem scan_answers (ready : List Bytes) (n : Nat) : ∀ (index : Nat) (e : Env) (s : EventLoop)
    (w : World), Act.Sat (scan ready n index) e s w
      (fun woken s' _ => Answers s woken.length s') (fun _ => True) := by
  induction n with
  | zero => exact fun _ _ _ _ => ⟨rfl, le_rfl, fun _ => rfl⟩
  | succ n ih =>
    intro index e s w
    unfold scan
    rw [Act.sat_bind, Act.sat_get]
    cases hwaiter : s.app.blocked[index]? with
    | none => exact ⟨rfl, le_rfl, fun _ => rfl⟩
    | some waiter =>
      dsimp only
      obtain ⟨hlt, -⟩ := List.getElem?_eq_some_iff.mp hwaiter
      have hout : (s.app.blocked.eraseIdx index).length = s.app.blocked.length - 1 :=
        List.length_eraseIdx_of_lt hlt
      have hnext : ∀ {s₁ : EventLoop} {w₁ : World} (i : Nat), Answers s 0 s₁ →
          Act.Sat (scan ready n i) e s₁ w₁ (fun woken s' _ => Answers s woken.length s')
            (fun _ => True) := fun i hs =>
        Act.sat_mono (ih i e _ _) (fun woken _ _ h => Nat.zero_add woken.length ▸ hs.trans h)
          (fun _ h => h)
      split
      · rw [Act.sat_bind]
        show Act.Sat _ e { s with app := { s.app with blocked := s.app.blocked.eraseIdx index } } w _ _
        have hforgotten : Answers s 0
            { s with app := { s.app with blocked := s.app.blocked.eraseIdx index } } :=
          ⟨rfl, by dsimp only; omega, fun _ => rfl⟩
        cases hc : s.connections.lookup waiter.id with
        | none => exact hnext index hforgotten
        | some conn =>
          dsimp only
          split
          · exact hnext index hforgotten
          · unfold attend
            rw [Act.sat_bind, Act.sat_zoom]
            refine Act.sat_mono (retryWaiter_rests waiter _) ?_ (fun _ h => h)
            rintro answered t w' ⟨hrbuf, hblocked, hunready⟩
            have hrbuf' : t.conn.rbuf = conn.rbuf := hrbuf
            have hblocked' : t.app.blocked = s.app.blocked.eraseIdx index := hblocked
            have hkept : ∀ app : App,
                (⟨app, s.connections.insert waiter.id t.conn⟩ : EventLoop).buffered = s.buffered := by
              intro app
              have hsum := buffered_insert hc app t.conn
              rw [hrbuf'] at hsum
              exact Nat.add_left_cancel hsum
            cases answered with
            | true =>
              have hone : Answers s 1 ⟨t.app, s.connections.insert waiter.id t.conn⟩ :=
                ⟨hkept _, by rw [hblocked']; omega, fun h => (by cases h)⟩
              rw [if_pos rfl, Act.sat_bind]
              refine Act.sat_mono (ih index e _ w') ?_ (fun _ h => h)
              intro woken s' _ hs'
              show Answers s (woken.length + 1) s'
              rw [Nat.add_comm]
              exact hone.trans hs'
            | false =>
              rw [if_neg Bool.false_ne_true, Act.sat_bind]
              refine hnext (index + 1) ⟨hkept _, ?_, fun _ => hunready rfl⟩
              show (t.app.blocked.insertIdx index waiter).length + 0 ≤ _
              rw [hblocked', List.length_insertIdx_of_le_length (by omega)]
              omega
      · exact ih (index + 1) e s w

/-- **The scan of the registry ends by itself**: rounds beyond the parked commands there are make no
difference. -/
theorem scan_enough (ready : List Bytes) : ∀ (n m index : Nat) (e : Env) (s : EventLoop) (w : World),
    s.app.blocked.length ≤ index + n → s.app.blocked.length ≤ index + m →
    scan ready n index e s w = scan ready m index e s w := by
  have hend : ∀ (n index : Nat) (e : Env) (s : EventLoop) (w : World), s.app.blocked.length ≤ index →
      scan ready n index e s w = .done [] s w := by
    intro n index e s w h
    cases n with
    | zero => rfl
    | succ n =>
      have hnone : s.app.blocked[index]? = none := List.getElem?_eq_none h
      unfold scan
      rw [Act.bind_apply]
      dsimp only [Act.get]
      rw [hnone]
      rfl
  intro n
  induction n with
  | zero =>
    intro m index e s w hn _
    rw [hend 0 index e s w hn, hend m index e s w hn]
  | succ n ih =>
    intro m index e s w hn hm
    cases m with
    | zero => rw [hend 0 index e s w hm, hend (n + 1) index e s w hm]
    | succ m =>
      conv_lhs => unfold scan
      conv_rhs => unfold scan
      rw [Act.bind_apply, Act.bind_apply]
      dsimp only [Act.get]
      cases hwaiter : s.app.blocked[index]? with
      | none => rfl
      | some waiter =>
        dsimp only
        obtain ⟨hlt, -⟩ := List.getElem?_eq_some_iff.mp hwaiter
        have hout : (s.app.blocked.eraseIdx index).length = s.app.blocked.length - 1 :=
          List.length_eraseIdx_of_lt hlt
        split
        · have hagain : ∀ {s₁ : EventLoop} {w₁ : World},
              s₁.app.blocked.length = s.app.blocked.length - 1 →
              scan ready n index e s₁ w₁ = scan ready m index e s₁ w₁ :=
            fun h => ih m index e _ _ (by omega) (by omega)
          refine Act.bind_congr_of_sat (P := fun _ s₁ _ => s₁ =
            { s with app := { s.app with blocked := s.app.blocked.eraseIdx index } })
            (R := fun _ => True) rfl ?_
          rintro _ _ w₁ rfl
          cases hc : s.connections.lookup waiter.id with
          | none => exact hagain hout
          | some conn =>
            dsimp only
            split
            · exact hagain hout
            · refine Act.bind_congr_of_sat (P := fun _ s₁ _ =>
                s₁.app.blocked.length = s.app.blocked.length - 1) (R := fun _ => True) ?_ ?_
              · unfold attend
                rw [Act.sat_zoom]
                refine Act.sat_mono (retryWaiter_rests waiter _) ?_ (fun _ h => h)
                rintro _ t _ ⟨-, hblocked, -⟩
                show t.app.blocked.length = _
                rw [hblocked]
                exact hout
              · intro answered s₁ w₂ hs₁
                cases answered with
                | true =>
                  rw [if_pos rfl, if_pos rfl, Act.bind_apply, Act.bind_apply, hagain hs₁]
                | false =>
                  rw [if_neg Bool.false_ne_true, if_neg Bool.false_ne_true]
                  refine Act.bind_congr_of_sat (P := fun _ s₂ _ =>
                    s₂.app.blocked.length = s.app.blocked.length) (R := fun _ => True) ?_ ?_
                  · show (s₁.app.blocked.insertIdx index waiter).length = _
                    rw [List.length_insertIdx_of_le_length (by omega)]
                    omega
                  · intro _ s₂ w₃ hs₂
                    exact ih m (index + 1) e s₂ w₃ (by omega) (by omega)
        · exact ih m (index + 1) e s w (by omega) (by omega)

/-! ## The loop -/

/-- A pass after which keys are ready has answered a client. -/
theorem drainPass_lowers (e : Env) (s : EventLoop) (w : World) :
    Act.Sat drainPass e s w (fun _ s' _ => s'.buffered ≤ s.buffered ∧ (s'.app.readyKeys ≠ [] →
      s'.buffered + s'.app.blocked.length < s.buffered + s.app.blocked.length)) (fun _ => True) := by
  unfold drainPass
  rw [Act.sat_bind, Act.sat_get, Act.sat_bind]
  show Act.Sat _ e { s with app := { s.app with readyKeys := [] } } w _ _
  rw [Act.sat_bind]
  refine Act.sat_mono (scan_answers _ _ 0 e _ w) ?_ (fun _ h => h)
  intro woken s₁ w₁ hs₁
  have hbytes : s₁.buffered = s.buffered := hs₁.bytes
  have hfewer : s₁.app.blocked.length + woken.length ≤ s.app.blocked.length := hs₁.fewer
  cases woken with
  | nil =>
    have hquiet : s₁.app.readyKeys = [] := hs₁.unready rfl
    exact ⟨hbytes.le, fun h => absurd hquiet h⟩
  | cons id woken =>
    refine Act.sat_mono (resume_lowers (id :: woken) e s₁ w₁) ?_ (fun _ h => h)
    rintro _ s' _ ⟨hdown, hparked⟩
    rw [List.length_cons] at hfewer
    exact ⟨by omega, fun _ => by omega⟩

theorem readyLoop_apply (n : Nat) (e : Env) (s : EventLoop) (w : World) :
    readyLoop (n + 1) e s w = if s.app.readyKeys.isEmpty then .done () s w
      else (drainPass >>= fun _ => readyLoop n) e s w := by
  have hloop : readyLoop (n + 1) = Act.get >>= fun s => if s.app.readyKeys.isEmpty then pure ()
      else onApp (Act.modify fun a => { a with readyKeys := [] }) >>= fun _ =>
        scan s.app.readyKeys s.app.blocked.length 0 >>= fun woken => resume woken >>= fun _ =>
          readyLoop n := rfl
  have hpass : (drainPass >>= fun _ => readyLoop n) = Act.get >>= fun s =>
      onApp (Act.modify fun a => { a with readyKeys := [] }) >>= fun _ =>
        scan s.app.readyKeys s.app.blocked.length 0 >>= fun woken => resume woken >>= fun _ =>
          readyLoop n := by
    unfold drainPass
    simp only [bind_assoc]
  rw [hloop, hpass]
  show (if s.app.readyKeys.isEmpty then _ else _ : Run EventLoop Unit) e s w = _
  split
  · rfl
  · rfl

theorem readyLoop_quiet (n : Nat) (e : Env) {s : EventLoop} (w : World) (h : s.app.readyKeys = []) :
    readyLoop n e s w = .done () s w := by
  cases n with
  | zero => rfl
  | succ n =>
    rw [readyLoop_apply, h]
    rfl

/-- With a pass for every byte and every parked command, and one more, the loop comes to its end. -/
theorem readyLoop_drains (n : Nat) : ∀ (e : Env) (s : EventLoop) (w : World),
    s.buffered + s.app.blocked.length < n → Drains e s w (readyLoop n e s w) := by
  induction n with
  | zero => exact fun _ _ _ h => absurd h (Nat.not_lt_zero _)
  | succ n ih =>
    intro e s w h
    by_cases hready : s.app.readyKeys = []
    · rw [readyLoop_quiet (n + 1) e w hready]
      exact .quiet hready
    · rw [readyLoop_apply, if_neg (by rwa [List.isEmpty_iff]), Act.bind_apply]
      have hlower := drainPass_lowers e s w
      unfold Act.Sat at hlower
      cases hpass : drainPass e s w with
      | panicked p => exact .panics hready hpass
      | done _ s' w' =>
        rw [hpass] at hlower
        obtain ⟨-, hless⟩ := hlower
        refine .pass hready hpass ?_
        dsimp only
        by_cases hagain : s'.app.readyKeys = []
        · rw [readyLoop_quiet n e w' hagain]
          exact .quiet hagain
        · have := hless hagain
          exact ih e s' w' (by omega)

/-- **Serving the ready keys terminates.**  For whatever parked commands, keyspace and read buffers,
the loop of the source comes to its end, which is the one computed here, with no key left ready; a
pass after which keys are ready has lowered the bytes buffered, or kept them and lowered the number
of parked commands; and the loops inside a pass, over the registry and over a read buffer, end by
themselves. -/
theorem ready_drained (e : Env) (s : EventLoop) (w : World) :
    Drains e s w (serveReadyKeys e s w) ∧
      Act.Sat serveReadyKeys e s w (fun _ s' _ => s'.app.readyKeys = []) (fun _ => True) ∧
      Act.Sat drainPass e s w (fun _ s' _ => s'.app.readyKeys = [] ∨
        toLex (s'.buffered, s'.app.blocked.length) < toLex (s.buffered, s.app.blocked.length))
        (fun _ => True) ∧
      (∀ ready n, scan ready (s.app.blocked.length + n) 0 e s w =
        scan ready s.app.blocked.length 0 e s w) ∧
      (∀ (t : Attended) (maxBulk limit n : Nat),
        processLoop maxBulk limit (t.conn.rbuf.length + 1 + n) e t w =
          processLoop maxBulk limit (t.conn.rbuf.length + 1) e t w) := by
  have hdrains : Drains e s w (serveReadyKeys e s w) := readyLoop_drains _ e s w (by omega)
  refine ⟨hdrains, ?_, ?_, fun ready n => ?_, fun t maxBulk limit n => ?_⟩
  · unfold Act.Sat
    split
    · exact hdrains.drained ‹_›
    · trivial
  · refine Act.sat_mono (drainPass_lowers e s w) ?_ (fun _ h => h)
    rintro _ s' _ ⟨hbytes, hless⟩
    by_cases hagain : s'.app.readyKeys = []
    · exact .inl hagain
    · have hsum := hless hagain
      rw [Prod.Lex.toLex_lt_toLex]
      dsimp only
      omega
  · exact scan_enough ready _ _ 0 e s w (by omega) (by omega)
  · exact processLoop_enough maxBulk limit _ _ e t w (by omega) (by omega)

end EventLoop

end Klyro
