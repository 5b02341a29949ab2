import Klyro.ByLive.Blocking
import Klyro.ByLive.Generic
import Klyro.ByLive.Memories
import Klyro.ByLive.Strings
import Klyro.Commands.Effects
import Klyro.Commands.Dispatch

/-!
# Requests that see the live keys only

As long as there is no memory limit, a request is answered from the live keys and what the server holds
beside the keyspace and the counters: the gates, the handlers, EXEC with its queue, the signals.

* `App.seen`, `Served.seen` — what can be seen.
* `OnRecord` — a request that shows nothing more.
* `runWith_seen`, `executeWith_seen` — a command, and with what surrounds it.
* `dispatch_seen` — a request of a client, executed or queued.
-/

set_option autoImplicit false

namespace Klyro

open Act Store

/-! ## What is seen -/

/-- The server beside the keyspace and the counters. -/
def App.beside (a : App) : App := { a with store := {}, stats := {} }

/-- What can be seen of the server at `t`. -/
def App.seen (t : SystemTime) (a : App) : Keyspace × App := (a.store.live t, a.beside)

/-- A keyspace in order, and no limit. -/
structure App.Unlimited (a : App) : Prop where
  indexed : Indexed a.store
  limit : a.config.maxmemory = 0

/-- A request that shows no more than the live keys. -/
def OnRecord (argv : List Bytes) : Prop :=
  toUpper (arg argv 0) ∉ offTheRecord ∧ toUpper (arg argv 0) ∉ ["INFO", "CONFIG", "SAVE"]

instance (argv : List Bytes) : Decidable (OnRecord argv) := inferInstanceAs (Decidable (_ ∧ _))

/-- What a client has queued is on record. -/
def Client.OnRecord (c : Client) : Prop :=
  ∀ transaction, c.transaction = some transaction → ∀ argv ∈ transaction.queued, Klyro.OnRecord argv

/-- What can be seen of the server and of the client it serves. -/
def Served.seen (t : SystemTime) (s : Served) : (Keyspace × App) × Client := (s.app.seen t, s.client)

/-- A server without limit, and a client whose queue is on record. -/
structure Served.Plain (s : Served) : Prop where
  app : s.app.Unlimited
  client : s.client.OnRecord

/-- What can be seen of the server settles how `m` ends. -/
abbrev App.BySeen {α : Type} (e : Env) (t : SystemTime) (m : Run App α) : Prop :=
  Act.Settled App.Unlimited (App.seen t) e m

/-- The same of what is run for a client. -/
abbrev BySeen {α : Type} (e : Env) (t : SystemTime) (m : Run Served α) : Prop :=
  Act.Settled Served.Plain (Served.seen t) e m

/-- What is run on a client alone. -/
abbrev ByClient {α : Type} (e : Env) (m : Run Client α) : Prop := Act.Settled Client.OnRecord id e m

variable {α : Type} {e : Env} {t : SystemTime} {u : Instant} {argv : List Bytes} {name : String}

/-! ## Rules -/

namespace App

theorem beside_eq {a b : App} (h : a.seen t = b.seen t) : a.beside = b.beside := congrArg Prod.snd h

theorem onStore_seen {m : Run Store α} (hm : ByLive e t m) : BySeen e t (onStore m) :=
  settled_zoom Prod.fst (fun K x => (K, x.2)) (fun _ ha => ha.indexed) (fun _ _ ha hs => ⟨hs, ha.limit⟩)
    (fun _ => rfl) (fun _ _ => rfl) hm

/-- A change beside the keyspace. -/
theorem modify_seen {g : App → App} (hstore : ∀ a, (g a).store = a.store)
    (hconfig : ∀ a, (g a).config = a.config) (hrest : ∀ a, (g a).beside = (g a.beside).beside) :
    BySeen e t (Act.modify g) := by
  refine settled_of (fun _ => ()) (fun x => (x.1, (g x.2).beside)) fun a c ha => ?_
  refine ⟨⟨by rw [hstore]; exact ha.indexed, by rw [hconfig]; exact ha.limit⟩, rfl, ?_⟩
  exact Prod.ext (congrArg (Store.live t) (hstore a)) (hrest a)

theorem get_seen {k : App → Run App α} (hk : ∀ a, k a = k a.beside) (h : ∀ a, BySeen e t (k a)) :
    BySeen e t (Act.get >>= k) :=
  settled_get_bind (fun a b _ _ hsee => by rw [hk a, hk b, beside_eq hsee]) fun a _ => h a

theorem onWatch_seen {m : Run Watch α} (hm : Steady e m) : BySeen e t (onWatch m) :=
  settled_zoom (fun x => x.2.watch) (fun w x => (x.1, { x.2 with watch := w })) (fun _ _ => trivial)
    (fun _ _ ha _ => ⟨ha.indexed, ha.limit⟩) (fun _ => rfl) (fun _ _ => rfl) hm

end App

section served

theorem onApp_seen {m : Run App α} (hm : App.BySeen e t m) : BySeen e t (Served.onApp m) :=
  settled_zoom Prod.fst (fun x y => (x, y.2)) (fun _ hs => hs.app) (fun _ _ hs ha => ⟨ha, hs.client⟩)
    (fun _ => rfl) (fun _ _ => rfl) hm

theorem onStore_seen {m : Run Store α} (hm : ByLive e t m) : BySeen e t (Served.onStore m) :=
  onApp_seen (App.onStore_seen hm)

theorem onClient_seen {m : Run Client α} (hm : ByClient e m) : BySeen e t (Served.onClient m) :=
  settled_zoom Prod.snd (fun c y => (y.1, c)) (fun _ hs => hs.client) (fun _ _ hs hc => ⟨hs.app, hc⟩)
    (fun _ => rfl) (fun _ _ => rfl) hm

/-- The server is looked at, but for its keyspace and its counters. -/
theorem get_seen {k : Served → Run Served α} (hk : ∀ s, k s = k { s with app := s.app.beside })
    (h : ∀ s, s.client.OnRecord → BySeen e t (k s)) : BySeen e t (Act.get >>= k) := by
  refine settled_get_bind (fun s s' _ _ hsee => ?_) fun s hs => h s hs.client
  have hclient : s.client = s'.client := congrArg Prod.snd hsee
  rw [hk s, hk s', App.beside_eq (congrArg Prod.fst hsee), hclient]

/-- A change beside the keyspace. -/
theorem modify_seen {g : Served → Served} (hstore : ∀ s, (g s).app.store = s.app.store)
    (hconfig : ∀ s, (g s).app.config = s.app.config)
    (htransaction : ∀ s, (g s).client.transaction = s.client.transaction)
    (hrest : ∀ s, (g s).app.beside = (g { s with app := s.app.beside }).app.beside)
    (hclient : ∀ s, (g s).client = (g { s with app := s.app.beside }).client) :
    BySeen e t (Act.modify g) := by
  refine settled_of (fun _ => ())
    (fun x => ((x.1.1, (g ⟨x.1.2, x.2⟩).app.beside), (g ⟨x.1.2, x.2⟩).client)) fun s c hs => ?_
  refine ⟨⟨⟨by rw [hstore]; exact hs.app.indexed, by rw [hconfig]; exact hs.app.limit⟩, ?_⟩, rfl, ?_⟩
  · intro transaction h
    rw [htransaction] at h
    exact hs.client transaction h
  · exact Prod.ext (Prod.ext (congrArg (Store.live t) (hstore s)) (hrest s)) (hclient s)

end served

/-! ## The keyspace -/

theorem answer_byLive {m : Cmd Reply} (hm : ByLiveE e t m) : ByLive e t (answer m) := by
  refine settled_bind hm fun r => ?_
  cases r with
  | ok reply => exact settled_pure reply
  | error reply => exact settled_pure reply

theorem Arms.run_byLive {arms : Arms} (h : ∀ handler, (name, handler) ∈ arms → ByLiveE e t (handler argv)) :
    ByLiveE e t (arms.run name argv) := by
  unfold Arms.run
  cases harm : arms.lookup name with
  | none => exact settledE_pure _
  | some handler => exact h handler (mem_of_lookup harm)

theorem onArms_seen {arms : Config → Arms}
    (h : ∀ config handler, (name, handler) ∈ arms config → ByLiveE e t (handler argv)) :
    BySeen e t (onArms arms name argv) :=
  get_seen (fun _ => rfl) fun s _ =>
    settled_bind (onStore_seen (answer_byLive (Arms.run_byLive (h s.app.config)))) fun _ => settled_pure _

theorem Blocking.dispatch_byLive (h : e.PausedAt t u) (client : Client) :
    ByLive e t (Blocking.dispatch client name argv) := by
  have hhandle : ByLiveE e t (Blocking.handle client name argv) := by
    unfold Blocking.handle
    cases harm : Blocking.arms.lookup name with
    | none => exact settledE_pure _
    | some handler => exact Blocking.byLive h (mem_of_lookup harm) client argv
  refine settled_bind hhandle fun r => ?_
  cases r with
  | ok response => exact settled_pure response
  | error error => exact settled_pure _

/-! ## Connection commands -/

theorem instantNow_byClient (h : e.PausedAt t u) : ByClient e instantNow :=
  settled_of (fun _ => u) id fun _ w hc => ⟨hc, h.instant w.instants, rfl⟩

theorem clientCommand_byClient (h : e.PausedAt t u) : ByClient e (Server.clientCommand argv) := by
  have hset : ∀ c : Client, c.OnRecord → ∀ name, ByClient e (Act.set { c with name := name }) :=
    fun c hc name => settled_of (fun _ => ()) (fun _ => { c with name := name }) fun _ _ _ => ⟨hc, rfl, rfl⟩
  unfold Server.clientCommand
  refine settled_ite (settled_pure _) ?_
  refine settled_get_bind (fun _ _ _ _ h => by cases h; rfl) fun c hc => ?_
  split
  · exact settled_pure _
  · exact settled_pure _
  · exact settled_ite (settled_pure _) <| settled_ite (settled_pure _) <|
      settled_bind (hset c hc _) fun _ => settled_pure _
  · exact settled_pure _
  · exact settled_bind (instantNow_byClient h) fun _ => settled_pure _
  · exact settled_pure _

theorem Server.dispatch_seen (h : e.PausedAt t u) (hname : name ∉ ["INFO", "CONFIG", "SAVE"]) :
    BySeen e t (Server.dispatch name argv) := by
  have harm : ∀ handler, (name, handler) ∈ Server.arms → BySeen e t (handler argv) := by
    intro handler hmem
    simp only [Server.arms, List.mem_cons, Prod.mk.injEq, List.not_mem_nil, or_false] at hmem
    rcases hmem with ⟨rfl, rfl⟩ | ⟨rfl, rfl⟩ | ⟨rfl, rfl⟩ | ⟨rfl, rfl⟩ | ⟨rfl, rfl⟩ | ⟨rfl, rfl⟩ |
      ⟨rfl, rfl⟩ | ⟨rfl, rfl⟩ | ⟨rfl, rfl⟩ | ⟨rfl, rfl⟩
    · exact settled_pure _
    · exact settled_pure _
    · exact get_seen (fun _ => rfl) fun _ _ => settled_pure _
    · exact onClient_seen (clientCommand_byClient h)
    · exact settled_pure _
    · exact absurd (by decide) hname
    · exact absurd (by decide) hname
    · exact absurd (by decide) hname
    · exact settled_pure _
    · exact settled_bind (onApp_seen (App.modify_seen (fun _ => rfl) (fun _ => rfl) fun _ => rfl)) fun _ =>
        settled_pure _
  unfold Server.dispatch
  cases hlookup : Server.arms.lookup name with
  | none => exact settled_bind (settled_pure _) fun _ => settled_pure _
  | some handler => exact settled_bind (harm handler (mem_of_lookup hlookup)) fun _ => settled_pure _

/-! ## Publish and subscribe -/

namespace PubSubs

theorem confirmed_seen {kind : String} {change : Bytes → Served → Served}
    (hchange : ∀ name, BySeen e t (Act.modify (change name))) (name : Bytes) :
    BySeen e t (confirmed kind change name) :=
  settled_bind (hchange name) fun _ => get_seen (fun _ => rfl) fun _ _ => settled_pure _

theorem subscribed_seen (patterns : Bool) (name : Bytes) :
    BySeen e t (Act.modify (subscribed patterns name)) := by
  apply modify_seen <;> intro s <;> cases patterns <;>
    simp only [subscribed, App.beside, if_true, Bool.false_eq_true, if_false] <;> split <;> rfl

theorem unsubscribed_seen (patterns : Bool) (name : Bytes) :
    BySeen e t (Act.modify (unsubscribed patterns name)) := by
  apply modify_seen <;> intro s <;> cases patterns <;>
    simp only [unsubscribed, App.beside, if_true, Bool.false_eq_true, if_false] <;> split <;> rfl

theorem subscribe_seen (patterns : Bool) (names : List Bytes) : BySeen e t (subscribe patterns names) :=
  settled_mapList (confirmed_seen (subscribed_seen patterns)) names

theorem unsubscribe_seen (patterns : Bool) (names : List Bytes) : BySeen e t (unsubscribe patterns names) :=
  get_seen (fun _ => rfl) fun _ _ =>
    settled_ite (settled_pure _) (settled_mapList (confirmed_seen (unsubscribed_seen patterns)) _)

theorem publish_seen (channel payload : Bytes) : BySeen e t (publish channel payload) :=
  get_seen (fun _ => rfl) fun _ _ =>
    settled_bind (onApp_seen (App.modify_seen (fun _ => rfl) (fun _ => rfl) fun _ => rfl)) fun _ => settled_pure _

theorem dispatch_seen : BySeen e t (dispatch name argv) := by
  have harm : ∀ arm, (name, arm) ∈ arms → BySeen e t (arm argv) := by
    intro arm hmem
    simp only [arms, List.mem_cons, Prod.mk.injEq, List.not_mem_nil, or_false] at hmem
    rcases hmem with ⟨rfl, rfl⟩ | ⟨rfl, rfl⟩ | ⟨rfl, rfl⟩ | ⟨rfl, rfl⟩ | ⟨rfl, rfl⟩ | ⟨rfl, rfl⟩
    · exact settled_ite (settled_pure _) (settled_map _ (subscribe_seen _ _))
    · exact settled_ite (settled_pure _) (settled_map _ (subscribe_seen _ _))
    · exact settled_map _ (unsubscribe_seen _ _)
    · exact settled_map _ (unsubscribe_seen _ _)
    · exact settled_ite (settled_pure _) (publish_seen _ _)
    · exact settled_ite (settled_pure _) (get_seen (fun _ => rfl) fun _ _ => settled_pure _)
  unfold dispatch
  cases hlookup : arms.lookup name with
  | none => exact settled_pure _
  | some arm => exact harm arm (mem_of_lookup hlookup)

end PubSubs

/-! ## Transactions -/

namespace Transactions

theorem queue_byClient (hargv : OnRecord argv) : ByClient e (queue name argv) := by
  refine settled_get_bind (fun _ _ _ _ h => by cases h; rfl) fun c hc => ?_
  cases hopen : c.transaction with
  | none => exact settled_panic _
  | some transaction =>
    have hset : ∀ next : Transaction, (∀ argv ∈ next.queued, OnRecord argv) →
        ByClient e (Act.set { c with transaction := some next }) := by
      intro next hnext
      refine settled_of (fun _ => ()) (fun _ => { c with transaction := some next }) fun _ _ _ => ⟨?_, rfl, rfl⟩
      rintro _ ⟨⟩
      exact hnext
    have hqueued := hc transaction hopen
    change ByClient e (pure transaction >>= _)
    rw [pure_bind]
    cases refusal name argv with
    | some error => exact settled_bind (hset _ hqueued) fun _ => settled_pure _
    | none =>
      refine settled_bind (hset _ fun argv' hmem => ?_) fun _ => settled_pure _
      rcases List.mem_append.mp hmem with hmem | hmem
      · exact hqueued argv' hmem
      · exact List.mem_singleton.mp hmem ▸ hargv

theorem modifyClient_seen {g : Client → Client} (hg : ∀ c, c.OnRecord → (g c).OnRecord) :
    BySeen e t (Served.onClient (Act.modify g)) :=
  onClient_seen (settled_of (fun _ => ()) g fun _ _ hc => ⟨hg _ hc, rfl, rfl⟩)

/-- What is remembered for the history is seen, and settled. -/
theorem logged_seen (event : WatchEvent) :
    BySeen e t (Served.onApp (Act.modify fun a => { a with history := event :: a.history })) :=
  onApp_seen (App.modify_seen (fun _ => rfl) (fun _ => rfl) fun _ => rfl)

theorem unwatch_steady (key : Bytes) : Steady e (Watch.unwatch key) := by
  refine settled_bind steady_get fun w => ?_
  cases w.keys.lookup key with
  | none => exact settled_pure _
  | some entry =>
    rcases entry with ⟨version, _ | _ | n⟩
    · exact settled_panic _
    · exact steady_set _
    · exact steady_set _

theorem unwatchAll_seen : BySeen e t unwatchAll := by
  have heq : unwatchAll = (do
      let s ← Act.get
      Served.onApp (Act.forList (fun p : Bytes × Nat => App.onWatch (Watch.unwatch p.1)) s.client.watched)
      Served.onApp (Act.modify fun a => { a with history := .dropped s.client.id :: a.history })
      Served.onClient (Act.set { s.client with watched := [] })) := by
    funext e s w
    simp only [unwatchAll, App.unwatchAll, Served.onApp, Served.onClient, bind_apply, zoom, Act.get]
    cases Act.forList (fun p : Bytes × Nat => App.onWatch (Watch.unwatch p.1)) s.client.watched e s.app w <;> rfl
  rw [heq]
  refine get_seen (fun _ => rfl) fun s hs => ?_
  refine settled_bind (onApp_seen (settled_forList (fun p : Bytes × Nat => App.onWatch_seen (unwatch_steady p.1)) _)) fun _ => ?_
  refine settled_bind (logged_seen _) fun _ => ?_
  exact modifyClient_seen fun _ _ => hs

theorem discard_seen : BySeen e t discard :=
  settled_bind (modifyClient_seen fun _ _ => by rintro _ ⟨⟩) fun _ => unwatchAll_seen

theorem watchOne_seen (key : Bytes) : BySeen e t (watchOne key) :=
  get_seen (fun _ => rfl) fun _ _ => settled_ite (settled_pure _) <|
    settled_bind (onApp_seen (App.onWatch_seen (steady_state _))) fun _ =>
      settled_bind (logged_seen _) fun _ => modifyClient_seen fun _ hc => hc

theorem unsubscribeEverything_seen : BySeen e t unsubscribeEverything :=
  modify_seen (fun _ => rfl) (fun _ => rfl) (fun _ => rfl) (fun _ => rfl) fun _ => rfl

/-- **EXEC**, if what runs the queue is settled. -/
theorem exec_seen {runQueued : List (List Bytes) → Run Served (List Response)}
    (hrun : ∀ queued, (∀ argv ∈ queued, OnRecord argv) → BySeen e t (runQueued queued)) :
    BySeen e t (exec runQueued) := by
  refine get_seen (fun _ => rfl) fun s hs => ?_
  cases hopen : s.client.transaction with
  | none => exact settled_pure _
  | some transaction =>
    refine settled_bind (modifyClient_seen fun _ _ => by rintro _ ⟨⟩) fun _ => ?_
    refine settled_bind unwatchAll_seen fun _ => ?_
    refine settled_ite (settled_pure _) (settled_ite (settled_pure _) ?_)
    refine settled_bind (onApp_seen (App.modify_seen (fun _ => rfl) (fun _ => rfl) fun _ => rfl)) fun _ => ?_
    refine settled_bind (modifyClient_seen fun _ hc => hc) fun _ => ?_
    refine settled_bind (hrun _ (hs transaction hopen)) fun _ => ?_
    exact settled_bind (modifyClient_seen fun _ hc => hc) fun _ => settled_pure _

theorem dispatch_seen {exec : Run Served Response} (hexec : BySeen e t exec) :
    BySeen e t (dispatch exec name argv) := by
  have harm : ∀ arm, (name, arm) ∈ arms exec → BySeen e t (arm argv) := by
    intro arm hmem
    simp only [arms, List.mem_cons, Prod.mk.injEq, List.not_mem_nil, or_false] at hmem
    rcases hmem with ⟨rfl, rfl⟩ | ⟨rfl, rfl⟩ | ⟨rfl, rfl⟩ | ⟨rfl, rfl⟩ | ⟨rfl, rfl⟩ | ⟨rfl, rfl⟩
    · refine get_seen (fun _ => rfl) fun _ _ => settled_ite (settled_pure _) (settled_ite (settled_pure _) ?_)
      refine settled_bind (modifyClient_seen fun _ _ => ?_) fun _ => settled_pure _
      rintro _ ⟨⟩ argv' ⟨⟩
    · exact get_seen (fun _ => rfl) fun _ _ => settled_ite (settled_pure _) <| settled_ite (settled_pure _) <|
        settled_bind discard_seen fun _ => settled_pure _
    · exact get_seen (fun _ => rfl) fun _ _ => settled_ite (settled_pure _) <| settled_ite (settled_pure _) <|
        settled_bind (settled_forList watchOne_seen _) fun _ => settled_pure _
    · exact settled_ite (settled_pure _) (settled_bind unwatchAll_seen fun _ => settled_pure _)
    · exact settled_ite (settled_pure _) hexec
    · exact settled_bind (settled_bind discard_seen fun _ => unsubscribeEverything_seen) fun _ => settled_pure _
  unfold dispatch
  cases hlookup : (arms exec).lookup name with
  | none => exact settled_pure _
  | some arm => exact harm arm (mem_of_lookup hlookup)

end Transactions

/-! ## Running a command -/

section running

variable (h : e.PausedAt t u)

include h

/-- **A command**, if EXEC is settled. -/
theorem runWith_seen {exec : Run Served Response} (hexec : BySeen e t exec) (hoff : name ∉ offTheRecord)
    (hserver : name ∉ ["INFO", "CONFIG", "SAVE"]) : BySeen e t (runWith exec name argv) := by
  have ht := h.clock
  unfold runWith
  cases family name with
  | none => exact settled_pure _
  | some group =>
    cases group with
    | server => exact Server.dispatch_seen h hserver
    | transaction => exact Transactions.dispatch_seen hexec
    | pubsub => exact PubSubs.dispatch_seen
    | blocking => exact get_seen (fun _ => rfl) fun s _ => onStore_seen (Blocking.dispatch_byLive h s.client)
    | generic => exact onArms_seen fun _ _ hmem => Generic.byLive ht hmem hoff argv
    | string => exact onArms_seen fun _ _ hmem => Strings.byLive ht hmem argv
    | list => exact onArms_seen fun _ _ hmem => Lists.byLive ht hmem argv
    | hash => exact onArms_seen fun _ _ hmem => Hashes.byLive ht hmem argv
    | set => exact onArms_seen fun _ _ hmem => Sets.byLive ht hmem hoff argv
    | zset => exact onArms_seen fun _ _ hmem => Zsets.byLive ht hmem argv
    | memory => exact onArms_seen fun _ _ hmem => Memories.byLive ht hmem hoff argv

theorem signalModified_seen (key : Bytes) : App.BySeen e t (App.signalModified key) := by
  refine settled_bind (App.modify_seen (fun _ => rfl) (fun _ => rfl) fun _ => rfl) fun _ => ?_
  refine App.get_seen (fun _ => rfl) fun a => settled_ite (settled_pure _) ?_
  refine settled_bind (App.onStore_seen (byLive_peekType h.clock key)) fun _ => settled_ite ?_ (settled_pure _)
  exact App.modify_seen (fun _ => rfl) (fun _ => rfl) fun _ => rfl

theorem signalWrites_seen (response : Response) : App.BySeen e t (signalWrites name argv response) := by
  unfold signalWrites
  refine settled_ite (settled_pure _) ?_
  cases writtenKeys name argv with
  | none => exact settled_pure _
  | some written =>
    cases written with
    | everything => exact App.modify_seen (fun _ => rfl) (fun _ => rfl) fun _ => rfl
    | keys keys => exact settled_forList (signalModified_seen h) keys

omit h in
/-- Without a limit there is room. -/
theorem memoryGate_seen : App.BySeen e t (memoryGate name) := by
  refine settled_of (fun _ => none) id fun a c ha => ?_
  unfold memoryGate
  rw [sat_bind, sat_get, if_pos ha.limit]
  exact ⟨ha, rfl, rfl⟩

omit h in
/-- The counters are not seen, whatever they were before. -/
theorem countLookups_seen :
    Act.SettledAll Served.Plain (Served.seen t) e fun before => Served.onApp (countLookups name before) := by
  refine fun x => ⟨.ok ((), x), ?_⟩
  rintro before s w hs rfl
  unfold Served.onApp countLookups
  rw [sat_zoom, sat_modify]
  dsimp only
  split
  · exact ⟨⟨⟨hs.app.indexed, hs.app.limit⟩, hs.client⟩, rfl⟩
  · exact ⟨hs, rfl⟩

/-- **A command with what surrounds it**: the gates before, the counters and the signals after. -/
theorem executeWith_seen {exec : Run Served Response} (hexec : BySeen e t exec) (hoff : name ∉ offTheRecord)
    (hserver : name ∉ ["INFO", "CONFIG", "SAVE"]) : BySeen e t (executeWith exec name argv) := by
  refine settled_bind (onApp_seen (App.modify_seen (fun _ => rfl) (fun _ => rfl) fun _ => rfl)) fun _ => ?_
  refine get_seen (fun _ => rfl) fun s _ => settled_ite (settled_pure _) ?_
  refine settled_bind (onApp_seen memoryGate_seen) fun refusal => ?_
  cases refusal with
  | some refusal => exact settled_pure _
  | none =>
    have hrest : Act.SettledAll Served.Plain (Served.seen t) e fun before => (do
        let response ← runWith exec name argv
        Served.onApp (countLookups name before)
        Served.onApp (signalWrites name argv response)
        pure response) := by
      refine settledAll_bind (runWith_seen h hexec hoff hserver).all fun response => ?_
      refine settledAll_bind countLookups_seen fun _ => Act.Settled.all ?_
      exact settled_bind (onApp_seen (signalWrites_seen h response)) fun _ => settled_pure _
    exact settled_get_bind_all (fun s : Served => s.app.store.lookupCounts) hrest

/-- **EXEC with its queue.** -/
theorem exec_seen : BySeen e t exec := by
  have hinner : BySeen e t innerExec := Transactions.exec_seen fun _ _ => settled_pure []
  refine Transactions.exec_seen fun queued hqueued => settled_mapList_mem fun argv hmem => ?_
  exact executeWith_seen h hinner (hqueued argv hmem).1 (hqueued argv hmem).2

/-- **A request of a client**, executed or queued. -/
theorem dispatch_seen (hargv : OnRecord argv) : BySeen e t (dispatch argv) := by
  unfold dispatch
  refine settled_ite (settled_pure _) (get_seen (fun _ => rfl) fun s _ => settled_ite ?_ ?_)
  · exact settled_bind (onClient_seen (Transactions.queue_byClient hargv)) fun _ => settled_pure _
  · exact settled_bind (executeWith_seen h (exec_seen h) hargv.1 hargv.2) fun _ => settled_pure _

end running

end Klyro
