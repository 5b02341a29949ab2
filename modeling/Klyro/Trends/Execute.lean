import Klyro.Commands.Execute
import Klyro.Evict
import Klyro.Trends.Blocking
import Klyro.Trends.Hashes
import Klyro.Trends.Memories
import Klyro.Trends.Strings

/-!
# Which way a request moves the server

* `Carries Q P` — a relation between servers that only their keyspaces, moved along `P`, decide.
* `makeRoom_within`, `signalWrites_within` — the gate before a command and the signals after it.
* `Server.within`, `PubSubs.within`, `Transactions.within` — the commands that reach no handler of
  the keyspace.
* `runWith_within`, `execute_within`, `dispatch_within`, `retry_within` — a whole request.
* `tick_within` — the sweeps and the save of a tick.
-/

set_option autoImplicit false

namespace Klyro

open Store Served

/-- A relation between servers that follows their keyspaces. -/
class Carries (Q : App → App → Prop) (P : outParam (Store → Store → Prop)) : Prop
    extends IsPreorder App Q where
  same : ∀ {a a' : App}, a'.store = a.store → a'.saved = a.saved → Q a a'
  moved : ∀ {a : App} {s : Store}, P a.store s → Q a { a with store := s }

/-- A relation between servers, of a server with the client it serves. -/
def Behind (Q : App → App → Prop) (s s' : Served) : Prop := Q s.app s'.app

instance {Q : App → App → Prop} [IsPreorder App Q] : IsPreorder Served (Behind Q) where
  refl s := refl_of Q s.app
  trans _ _ _ h h' := trans_of Q h h'

section carries

variable {Q : App → App → Prop} {P : Store → Store → Prop} {α : Type} {name : String}
  {argv : List Bytes}

/-! ## The parts of the state -/

theorem onStore_within [Carries Q P] {m : Run Store α} (h : Act.Within P m) :
    Act.Within Q (App.onStore m) :=
  Act.within_zoom h fun _ _ => Carries.moved

theorem onStore_look [Carries Q P] [Lookups P] {m : Run Store α} (h : Act.Within Glances m) :
    Act.Within Q (App.onStore m) :=
  onStore_within (h.mono fun _ _ => Lookups.of_glances)

theorem onApp_within {m : Run App α} (h : Act.Within Q m) : Act.Within (Behind Q) (onApp m) :=
  Act.within_zoom h fun _ _ hQ => hQ

theorem onClient_within [IsPreorder App Q] (m : Run Client α) : Act.Within (Behind Q) (onClient m) :=
  Act.within_zoom (R := fun _ _ => True) (fun _ _ _ => Act.sat_true _) fun s _ _ => refl_of Q s.app

/-- A change of the registries and the counters. -/
theorem aside_within [Carries Q P] {f : App → App}
    (h : ∀ a, (f a).store = a.store ∧ (f a).saved = a.saved) :
    Act.Within Q (Act.modify f : Run App Unit) :=
  Act.within_modify fun a => (Carries.same (h a).1 (h a).2 : Q a (f a))

/-! ## Signals and eviction -/

theorem signalModified_within [Carries Q P] [Lookups P] (key : Bytes) :
    Act.Within Q (App.signalModified key) := by
  refine Act.within_bind (aside_within fun _ => ⟨rfl, rfl⟩) fun _ => ?_
  refine Act.within_bind Act.within_get fun a => Act.within_ite (Act.within_pure _) ?_
  refine Act.within_bind (onStore_look (peekType_glances key)) fun type => ?_
  exact Act.within_ite (aside_within fun _ => ⟨rfl, rfl⟩) (Act.within_pure _)

theorem signalWrites_within [Carries Q P] [Lookups P] (response : Response) :
    Act.Within Q (signalWrites name argv response) := by
  unfold signalWrites
  refine Act.within_ite (Act.within_pure _) ?_
  split
  · exact Act.within_pure _
  · exact aside_within fun _ => ⟨rfl, rfl⟩
  · exact Act.within_forList signalModified_within _

theorem countLookups_within [Carries Q P] (before : Nat × Nat) :
    Act.Within Q (countLookups name before) := by
  refine aside_within fun a => ?_
  split <;> exact ⟨rfl, rfl⟩

theorem withinLimit_within [IsPreorder App Q] : Act.Within Q App.withinLimit :=
  Act.within_of_same fun _ _ _ => Act.sat_mono withinLimit_same (fun _ _ _ h => h.1) (fun _ _ => trivial)

theorem sample_glances (volatileOnly : Bool) (n : Nat) :
    Act.Within Glances (Store.sample volatileOnly n) :=
  Act.within_of_same fun _ s w =>
    Act.sat_mono (sample_live volatileOnly n s w) (fun _ _ _ h => h.1) (fun _ _ => trivial)

section evictions

variable [Carries Q P] [Lookups P] (hevict : ∀ key, Act.Within P (Store.evict key))
include hevict

theorem evictLoop_within (policy : Policy) (n : Nat) : Act.Within Q (App.evictLoop policy n) := by
  induction n with
  | zero => exact Act.within_pure _
  | succ n ih =>
    refine Act.within_bind Act.within_get fun a => Act.within_ite (Act.within_pure _) ?_
    refine Act.within_bind (onStore_look (sample_glances _ _)) fun candidates => ?_
    cases App.choose policy candidates with
    | none => exact Act.within_pure _
    | some victim =>
      refine Act.within_bind (onStore_within (hevict victim.key)) fun gone => ?_
      refine Act.within_ite ?_ ih
      refine Act.within_bind (aside_within fun _ => ⟨rfl, rfl⟩) fun _ => ?_
      refine Act.within_bind (signalModified_within _) fun _ => ?_
      exact Act.within_bind withinLimit_within fun fits => Act.within_ite (Act.within_pure _) ih

theorem makeRoom_within : Act.Within Q App.makeRoom :=
  Act.within_bind withinLimit_within fun _ => Act.within_ite (Act.within_pure _) <|
    Act.within_bind Act.within_get fun _ =>
      Act.within_ite (Act.within_pure _) (evictLoop_within hevict _ _)

theorem memoryGate_within : Act.Within Q (memoryGate name) :=
  Act.within_bind Act.within_get fun _ => Act.within_ite (Act.within_pure _) <|
    Act.within_bind (makeRoom_within hevict) fun _ => Act.within_pure _

end evictions

/-! ## The families behind no handler -/

theorem existingMemory_look {m : Run Memory α} (h : Peeks m) (key : Bytes) :
    Act.Within Glances (existingMemory key m) :=
  existingMemory_glances fun e v w => Act.sat_mono (h e v w) (fun _ _ _ h => h.1) (fun _ _ => trivial)

namespace Server

theorem memoryTotals_glances (keys : List Bytes) :
    ∀ totals, Act.Within Glances (memoryTotals keys totals) := by
  induction keys with
  | nil => exact fun _ => Act.within_pure _
  | cons key keys ih =>
    rintro ⟨records, vectors, terms, bytes⟩
    refine Act.within_bind (existingMemory_look ?_ key) fun found => ?_
    · exact peeks_bind peeks_get fun _ => peeks_bind peeks_heapBytes fun _ => peeks_pure _
    · cases found with
      | none => exact ih _
      | some _ => exact ih _

theorem sectionBody_within [Carries Q P] [Lookups P] (name : String) :
    Act.Within Q (sectionBody name) := by
  have hread : ∀ {β : Type} {m : Run App β}, (∀ e a w, Act.Sat m e a w (fun _ a' _ => a' = a)
      (fun _ => True)) → Act.Within Q m := fun h => Act.within_of_same h
  refine Act.within_bind Act.within_get fun a => ?_
  split
  · exact Act.within_bind (hread fun _ _ _ => rfl) fun _ =>
      Act.within_bind (hread fun _ _ _ => rfl) fun _ => Act.within_pure _
  · exact Act.within_pure _
  · exact Act.within_bind (hread fun _ _ _ => rfl) fun _ =>
      Act.within_bind (hread fun _ _ _ => rfl) fun _ => Act.within_pure _
  · exact Act.within_pure _
  · exact Act.within_pure _
  · exact Act.within_bind (onStore_look (Generic.ofNow_glances _)) fun _ =>
      Act.within_bind (onStore_look (memoryTotals_glances _ _)) fun _ => Act.within_pure _
  · exact Act.within_bind (onStore_look (Generic.ofNow_glances _)) fun _ =>
      Act.within_bind (onStore_look (Generic.ofNow_glances _)) fun _ =>
      Act.within_bind (onStore_look (Generic.ofNow_glances _)) fun _ => Act.within_pure _
  · exact Act.within_pure _

theorem appendSections_within [Carries Q P] [Lookups P] (names : List String) :
    ∀ out, Act.Within Q (appendSections names out) := by
  induction names with
  | nil => exact fun _ => Act.within_pure _
  | cons name names ih => exact fun _ => Act.within_bind (sectionBody_within name) fun _ => ih _

theorem config_within [Carries Q P] : Act.Within Q (config argv) := by
  unfold config
  refine Act.within_ite (Act.within_pure _) ?_
  split
  · refine Act.within_ite (Act.within_pure _) ?_
    exact Act.within_bind Act.within_get fun _ => Act.within_pure _
  · refine Act.within_ite (Act.within_pure _) (Act.within_bind Act.within_get fun a => ?_)
    refine Act.within_bind (aside_within fun _ => ⟨rfl, rfl⟩) fun _ => ?_
    split <;> exact Act.within_pure _
  · exact Act.within_bind (aside_within fun _ => ⟨rfl, rfl⟩) fun _ => Act.within_pure _
  · exact Act.within_pure _

/-- Server commands look at most; of `SAVE` the same is asked. -/
theorem within [Carries Q P] [Lookups P] (hsave : name = "SAVE" → Act.Within Q App.save) :
    Act.Within (Behind Q) (dispatch name argv) := by
  unfold dispatch
  have hend : ∀ reply : Reply, Act.Within (Behind Q) (pure
      { replies := [reply], close := name = "QUIT" || name = "SHUTDOWN",
        protocol := switchedProtocol name argv reply } : Run Served Response) :=
    fun _ => Act.within_pure _
  cases harm : arms.lookup name with
  | none => exact hend _
  | some handler =>
    refine Act.within_bind ?_ hend
    have hmem := mem_of_lookup harm
    simp only [arms, List.mem_cons, Prod.mk.injEq, List.not_mem_nil, or_false] at hmem
    rcases hmem with ⟨-, rfl⟩ | ⟨-, rfl⟩ | ⟨-, rfl⟩ | ⟨-, rfl⟩ | ⟨-, rfl⟩ | ⟨-, rfl⟩ | ⟨-, rfl⟩ |
      ⟨hname, rfl⟩ | ⟨-, rfl⟩ | ⟨-, rfl⟩
    · exact Act.within_pure _
    · exact Act.within_pure _
    · exact Act.within_bind Act.within_get fun _ => Act.within_pure _
    · exact onClient_within _
    · exact Act.within_pure _
    · refine onApp_within (Act.within_ite (Act.within_pure _) ?_)
      exact Act.within_bind (appendSections_within _ _) fun _ => Act.within_pure _
    · exact onApp_within config_within
    · exact Act.within_bind (onApp_within (hsave hname)) fun _ => Act.within_pure _
    · exact Act.within_pure _
    · exact Act.within_bind (onApp_within (aside_within fun _ => ⟨rfl, rfl⟩)) fun _ =>
        Act.within_pure _

end Server

namespace PubSubs

theorem confirmed_within [Carries Q P] {kind : String} {change : Bytes → Served → Served}
    (h : ∀ name s, (change name s).app.store = s.app.store ∧ (change name s).app.saved = s.app.saved)
    (name : Bytes) : Act.Within (Behind Q) (confirmed kind change name) := by
  refine Act.within_bind (Act.within_modify fun s => ?_) fun _ =>
    Act.within_bind Act.within_get fun _ => Act.within_pure _
  exact (Carries.same (h name s).1 (h name s).2 : Q s.app (change name s).app)

theorem subscribed_aside (patterns : Bool) (name : Bytes) (s : Served) :
    (subscribed patterns name s).app.store = s.app.store ∧
      (subscribed patterns name s).app.saved = s.app.saved := by
  unfold subscribed
  split
  · split <;> exact ⟨rfl, rfl⟩
  · split <;> exact ⟨rfl, rfl⟩

theorem unsubscribed_aside (patterns : Bool) (name : Bytes) (s : Served) :
    (unsubscribed patterns name s).app.store = s.app.store ∧
      (unsubscribed patterns name s).app.saved = s.app.saved := by
  unfold unsubscribed
  split
  · split <;> exact ⟨rfl, rfl⟩
  · split <;> exact ⟨rfl, rfl⟩

theorem unsubscribe_within [Carries Q P] (patterns : Bool) (names : List Bytes) :
    Act.Within (Behind Q) (unsubscribe patterns names) := by
  refine Act.within_bind Act.within_get fun s => Act.within_ite (Act.within_pure _) ?_
  exact Act.within_mapList (confirmed_within (unsubscribed_aside patterns)) _

/-- Pub/sub commands leave the keyspace alone. -/
theorem within [Carries Q P] : Act.Within (Behind Q) (dispatch name argv) := by
  unfold dispatch
  cases harm : arms.lookup name with
  | none => exact Act.within_pure _
  | some arm =>
    have hmem := mem_of_lookup harm
    simp only [arms, List.mem_cons, Prod.mk.injEq, List.not_mem_nil, or_false] at hmem
    rcases hmem with ⟨-, rfl⟩ | ⟨-, rfl⟩ | ⟨-, rfl⟩ | ⟨-, rfl⟩ | ⟨-, rfl⟩ | ⟨-, rfl⟩
    · exact Act.within_ite (Act.within_pure _)
        (Act.within_map (Act.within_mapList (confirmed_within (subscribed_aside false)) _))
    · exact Act.within_ite (Act.within_pure _)
        (Act.within_map (Act.within_mapList (confirmed_within (subscribed_aside true)) _))
    · exact Act.within_map (unsubscribe_within _ _)
    · exact Act.within_map (unsubscribe_within _ _)
    · refine Act.within_ite (Act.within_pure _) (Act.within_bind Act.within_get fun s => ?_)
      exact Act.within_bind (onApp_within (aside_within fun _ => ⟨rfl, rfl⟩)) fun _ =>
        Act.within_pure _
    · exact Act.within_ite (Act.within_pure _)
        (Act.within_bind Act.within_get fun _ => Act.within_pure _)

end PubSubs

namespace Transactions

theorem unwatchOne_within [Carries Q P] (key : Bytes) :
    Act.Within Q (App.onWatch (Watch.unwatch key)) :=
  Act.within_zoom (R := fun _ _ => True) (fun _ _ _ => Act.sat_true _) fun _ _ _ =>
    Carries.same rfl rfl

theorem unwatchAll_within [Carries Q P] : Act.Within (Behind Q) unwatchAll := by
  refine Act.within_bind Act.within_get fun s => Act.within_bind (onApp_within ?_) fun _ =>
    onClient_within _
  refine Act.within_bind (Act.within_forList (fun p : Bytes × Nat => unwatchOne_within p.1) _)
    fun _ => ?_
  exact Act.within_bind (aside_within fun _ => ⟨rfl, rfl⟩) fun _ => Act.within_pure _

theorem watchOne_within [Carries Q P] (key : Bytes) : Act.Within (Behind Q) (watchOne key) := by
  refine Act.within_bind Act.within_get fun s => Act.within_ite (Act.within_pure _) ?_
  refine Act.within_bind (onApp_within ?_) fun version => ?_
  · exact Act.within_zoom (R := fun _ _ => True) (fun _ _ _ => Act.sat_true _) fun _ _ _ =>
      Carries.same rfl rfl
  · exact Act.within_bind (onApp_within (aside_within fun _ => ⟨rfl, rfl⟩)) fun _ =>
      onClient_within _

theorem discard_within [Carries Q P] : Act.Within (Behind Q) discard :=
  Act.within_bind (onClient_within _) fun _ => unwatchAll_within

theorem answered_within [IsPreorder App Q] {reply : Reply} {m : Run Served Unit}
    (h : Act.Within (Behind Q) m) : Act.Within (Behind Q) (answered reply m) :=
  Act.within_bind h fun _ => Act.within_pure _

/-- EXEC moves the server as its queue does. -/
theorem exec_within [Carries Q P] {runQueued : List (List Bytes) → Run Served (List Response)}
    (h : ∀ queued, Act.Within (Behind Q) (runQueued queued)) : Act.Within (Behind Q) (exec runQueued) := by
  refine Act.within_bind Act.within_get fun s => ?_
  cases s.client.transaction with
  | none => exact Act.within_pure _
  | some transaction =>
    refine Act.within_bind (onClient_within _) fun _ => Act.within_bind unwatchAll_within fun _ => ?_
    refine Act.within_ite (Act.within_pure _) (Act.within_ite (Act.within_pure _) ?_)
    refine Act.within_bind (onApp_within (aside_within fun _ => ⟨rfl, rfl⟩)) fun _ => ?_
    refine Act.within_bind (onClient_within _) fun _ => Act.within_bind (h _) fun _ => ?_
    exact Act.within_bind (onClient_within _) fun _ => Act.within_pure _

/-- Transaction commands leave the keyspace alone; of EXEC what is asked of it. -/
theorem within [Carries Q P] {exec : Run Served Response}
    (hexec : name = "EXEC" → Act.Within (Behind Q) exec) :
    Act.Within (Behind Q) (dispatch exec name argv) := by
  unfold dispatch
  cases harm : (arms exec).lookup name with
  | none => exact Act.within_pure _
  | some arm =>
    have hmem := mem_of_lookup harm
    simp only [arms, List.mem_cons, Prod.mk.injEq, List.not_mem_nil, or_false] at hmem
    rcases hmem with ⟨-, rfl⟩ | ⟨-, rfl⟩ | ⟨-, rfl⟩ | ⟨-, rfl⟩ | ⟨hname, rfl⟩ | ⟨-, rfl⟩
    · exact Act.within_bind Act.within_get fun _ => Act.within_ite (Act.within_pure _)
        (Act.within_ite (Act.within_pure _) (answered_within (onClient_within _)))
    · exact Act.within_bind Act.within_get fun _ => Act.within_ite (Act.within_pure _)
        (Act.within_ite (Act.within_pure _) (answered_within discard_within))
    · exact Act.within_bind Act.within_get fun _ => Act.within_ite (Act.within_pure _)
        (Act.within_ite (Act.within_pure _)
          (answered_within (Act.within_forList watchOne_within _)))
    · exact Act.within_ite (Act.within_pure _) (answered_within unwatchAll_within)
    · exact Act.within_ite (Act.within_pure _) (hexec hname)
    · refine answered_within (Act.within_bind discard_within fun _ => Act.within_modify fun s => ?_)
      show Q s.app _
      exact Carries.same rfl rfl

end Transactions

/-! ## A request -/

/-- What a handler must do for the servers to follow. -/
def Follows (P : Store → Store → Prop) (name : String) : Prop :=
  ∀ {β : Type} {m : Cmd β}, Trend name m → Act.WithinE P m

theorem answer_within [IsPreorder Store P] {m : Cmd Reply} (h : Act.WithinE P m) :
    Act.Within P (answer m) := by
  refine Act.within_bind h fun r => ?_
  cases r with
  | ok _ => exact Act.within_pure _
  | error _ => exact Act.within_pure _

theorem onArms_within [Carries Q P] [IsPreorder Store P] {arms : Config → Arms} (hname : Follows P name)
    (h : ∀ {config handler}, (name, handler) ∈ arms config → Trend name (handler argv)) :
    Act.Within (Behind Q) (onArms arms name argv) := by
  refine Act.within_bind Act.within_get fun s => ?_
  refine Act.within_bind (onApp_within (onStore_within (answer_within ?_))) fun _ => Act.within_pure _
  unfold Arms.run
  cases harm : (arms s.app.config).lookup name with
  | none => exact Act.withinE_pure _
  | some handler => exact hname (h (mem_of_lookup harm))

theorem blocking_within [Carries Q P] [IsPreorder Store P] (hname : Follows P name) (client : Client) :
    Act.Within P (Blocking.dispatch client name argv) := by
  have hhandle : Act.WithinE P (Blocking.handle client name argv) := by
    unfold Blocking.handle
    cases harm : Blocking.arms.lookup name with
    | none => exact Act.withinE_pure _
    | some handler => exact hname (Blocking.trend (mem_of_lookup harm) client argv)
  refine Act.within_bind hhandle fun r => ?_
  cases r with
  | ok _ => exact Act.within_pure _
  | error _ => exact Act.within_pure _

/-- **Running a command** moves the server as its handler moves the keyspace; of `SAVE` and EXEC the
same is asked. -/
theorem runWith_within [Carries Q P] [Lookups P] {exec : Run Served Response}
    (hname : Follows P name) (hsave : name = "SAVE" → Act.Within Q App.save)
    (hexec : name = "EXEC" → Act.Within (Behind Q) exec) :
    Act.Within (Behind Q) (runWith exec name argv) := by
  unfold runWith
  split
  · exact Server.within hsave
  · exact Transactions.within hexec
  · exact PubSubs.within
  · exact Act.within_bind Act.within_get fun s =>
      onApp_within (onStore_within (blocking_within (Q := Q) hname _))
  · exact onArms_within hname fun h => Generic.trend h argv
  · exact onArms_within hname fun h => Strings.trend h argv
  · exact onArms_within hname fun h => Lists.trend h argv
  · exact onArms_within hname fun h => Hashes.trend h argv
  · exact onArms_within hname fun h => Sets.trend h argv
  · exact onArms_within hname fun h => Zsets.trend h argv
  · exact onArms_within hname fun h => Memories.trend h argv
  · exact Act.within_pure _

/-- **A command** behind its gate and with its signals. -/
theorem executeWith_within [Carries Q P] [Lookups P] {exec : Run Served Response}
    (hevict : ∀ key, Act.Within P (Store.evict key))
    (hrun : Act.Within (Behind Q) (runWith exec name argv)) :
    Act.Within (Behind Q) (executeWith exec name argv) := by
  refine Act.within_bind (onApp_within (aside_within fun _ => ⟨rfl, rfl⟩)) fun _ => ?_
  refine Act.within_bind Act.within_get fun s => Act.within_ite (Act.within_pure _) ?_
  refine Act.within_bind (onApp_within (memoryGate_within hevict)) fun refusal => ?_
  cases refusal with
  | some refusal => exact Act.within_pure _
  | none =>
    refine Act.within_bind Act.within_get fun s => ?_
    refine Act.within_bind hrun fun response => ?_
    refine Act.within_bind (onApp_within (countLookups_within _)) fun _ => ?_
    exact Act.within_bind (onApp_within (signalWrites_within _)) fun _ => Act.within_pure _

section requests

variable [Carries Q P] [Lookups P] (hevict : ∀ key, Act.Within P (Store.evict key))
  (hrun : ∀ (exec : Run Served Response) (name : String) (argv : List Bytes),
    (name = "EXEC" → Act.Within (Behind Q) exec) → Act.Within (Behind Q) (runWith exec name argv))
include hevict hrun

/-- A command of the queue of a transaction. -/
theorem runQueuedOne_within (argv : List Bytes) : Act.Within (Behind Q) (runQueuedOne argv) :=
  executeWith_within hevict (hrun _ _ _ fun _ => Transactions.exec_within fun _ => Act.within_pure _)

/-- EXEC, over any queue. -/
theorem exec_within : Act.Within (Behind Q) exec :=
  Transactions.exec_within fun queued => Act.within_mapList (runQueuedOne_within hevict hrun) queued

theorem execute_within (name : String) (argv : List Bytes) :
    Act.Within (Behind Q) (execute name argv) :=
  executeWith_within hevict (hrun _ _ _ fun _ => exec_within hevict hrun)

/-- A request of a client. -/
theorem dispatch_within (argv : List Bytes) : Act.Within (Behind Q) (dispatch argv) := by
  refine Act.within_ite (Act.within_pure _) ?_
  refine Act.within_bind Act.within_get fun s => Act.within_ite ?_ ?_
  · exact Act.within_bind (onClient_within _) fun _ => Act.within_pure _
  · exact Act.within_bind (execute_within hevict hrun _ _) fun _ => Act.within_pure _

/-- A parked command run again. -/
theorem retry_within (argv : List Bytes) : Act.Within (Behind Q) (retry argv) := by
  refine Act.within_bind (execute_within hevict hrun _ _) fun response => ?_
  exact Act.within_bind (onApp_within (aside_within fun _ => ⟨rfl, rfl⟩)) fun _ => Act.within_pure _

end requests

/-! ## Housekeeping -/

theorem autosaveDue_within [Carries Q P] (interval : Duration) (store : Store) :
    Act.Within Q (Act.zoom App.persist (fun p a => { a with persist := p })
      (Persist.autosaveDue interval store)) :=
  Act.within_zoom (R := fun _ _ => True) (fun _ _ _ => Act.sat_true _) fun _ _ _ =>
    Carries.same rfl rfl

/-- The sweeps, and a save when one is due. -/
theorem tick_within [Carries Q P] (hsweep : Act.Within P Store.sweepExpired)
    (hrecords : Act.Within Q App.sweepMemoryRecords) (hsave : Act.Within Q App.save) :
    Act.Within Q App.tick := by
  unfold App.tick
  refine Act.within_bind (Act.within_of_same fun _ _ _ => rfl) fun t => ?_
  refine Act.within_bind Act.within_get fun a => ?_
  have hrest : Act.Within Q (do
      let a ← Act.get
      let autosave ← Act.zoom App.persist (fun p a => { a with persist := p })
        (Persist.autosaveDue a.config.saveInterval a.store)
      if autosave then do
        let _ ← App.save
        pure ()
      else pure () : Run App Unit) := by
    refine Act.within_bind Act.within_get fun a => ?_
    refine Act.within_bind (autosaveDue_within _ _) fun autosave => ?_
    exact Act.within_ite (Act.within_bind hsave fun _ => Act.within_pure _) (Act.within_pure _)
  refine Act.within_ite ?_ hrest
  refine Act.within_bind (onStore_within hsweep) fun _ => ?_
  refine Act.within_bind hrecords fun _ => ?_
  exact Act.within_bind (aside_within fun _ => ⟨rfl, rfl⟩) fun _ => hrest

end carries

end Klyro
