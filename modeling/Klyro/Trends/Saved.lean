import Klyro.Trends.OutOfMemory

/-!
# Autosave misses no change

* `Accounted` — a keyspace that differs from the one last saved has a change counted.
* `save_settles` — a save that succeeds leaves the keyspace it saved; one that fails only looks.
* `Event`, `step`, `run` — requests, retries, evictions, sweeps and saves.
* `Balanced` — a command that only reads counts what expired or was evicted, and nothing else.
-/

set_option autoImplicit false

namespace Klyro

open Store Served

/-! ## The invariant -/

/-- **A change since the last successful save is counted.** -/
def Accounted (a : App) : Prop := ∀ s ∈ a.saved, a.store.stored ≠ s.stored → 0 < a.store.dirty

/-- The invariant is kept. -/
def Accounts (a a' : App) : Prop := Accounted a → Accounted a'

instance : Carries Accounts Marked where
  refl _ h := h
  trans _ _ _ h h' ha := h' (h ha)
  same {a a'} hstore hsaved ha := by
    unfold Accounted
    rw [hstore, hsaved]
    exact ha
  moved {a s} hmarked ha s₀ hs₀ hdiffers := by
    have hle : a.store.dirty ≤ s.dirty := hmarked.le
    by_cases hsame : a.store.stored = s₀.stored
    · have hdirty : s.dirty ≠ a.store.dirty := fun h =>
        hdiffers ((hmarked.same h).trans hsame)
      show 0 < s.dirty
      omega
    · exact Nat.lt_of_lt_of_le (ha s₀ hs₀ hsame) hle

theorem accounts_of_marked {a : App} {s : Store} (h : Marked a.store s) :
    Accounts a { a with store := s } :=
  Carries.moved h

theorem follows_marked (name : String) : Follows Marked name := fun htrend => htrend.marks

/-! ## Saving -/

section saving

variable {α β : Type}

theorem fileOp_glances (f : Assoc String Bytes → Assoc String Bytes) :
    Act.WithinE Glances (fileOp f : Io Store Unit) := by
  refine Act.withinE_bind (Act.withinE_lift (Act.within_of_same fun _ _ _ => rfl)) fun ok => ?_
  exact Act.withinE_ite (Act.withinE_lift (Act.within_of_same fun _ _ _ => rfl)) (Act.withinE_throw _)

theorem writePieces_glances (path : String) (pieces : List Piece) :
    Act.WithinE Glances (writePieces path pieces : Io Store Unit) := by
  induction pieces with
  | nil => exact Act.withinE_pure _
  | cons p ps ih => exact Act.withinE_bind (fileOp_glances _) fun _ => ih

theorem payloadOf_glances (key : Bytes) (kind : StoreType) :
    Act.Within Glances (payloadOf key kind) := by
  cases kind with
  | string => exact Act.within_bind (getString_glances key) fun _ => Act.within_pure _
  | list => exact Act.within_bind (read_glances _ key) fun _ => Act.within_pure _
  | hash => exact Act.within_bind (read_glances _ key) fun _ => Act.within_pure _
  | set => exact Act.within_bind (read_glances _ key) fun _ => Act.within_pure _
  | zset => exact Act.within_bind (read_glances _ key) fun _ => Act.within_pure _
  | memory =>
    exact existingMemory_look (peeks_bind Memory.recordsForDump_peeks fun _ =>
      peeks_bind peeks_get fun _ => peeks_pure _) key

theorem recordOf_glances (key : Bytes) (kind : StoreType) :
    Act.Within Glances (recordOf key kind) := by
  refine Act.within_bind (pttlMs_glances key) fun ttl => Act.within_bind ?_ fun _ =>
    Act.within_bind (payloadOf_glances key kind) fun _ => Act.within_pure _
  exact Act.within_ite (Act.within_pure _)
    (Act.within_bind (Act.within_bind now_glances fun _ => Act.within_pure _) fun _ => Act.within_pure _)

theorem saveEntries_glances (tmp : String) (entries : List (Bytes × StoreType)) :
    Act.WithinE Glances (saveEntries tmp entries) := by
  induction entries with
  | nil => exact Act.withinE_pure _
  | cons entry entries ih =>
    obtain ⟨key, kind⟩ := entry
    refine Act.withinE_bind (Act.withinE_lift (recordOf_glances key kind)) fun record => ?_
    cases record with
    | none => exact ih
    | some record => exact Act.withinE_bind (writePieces_glances _ _) fun _ => ih

/-- A part of a save that ends with nothing left to save, or fails and only looked. -/
def Settles (x : Io Store α) : Prop := ∀ (e : Env) (s : Store) (w : World),
  Act.SatE x e s w (fun _ s' _ => s'.dirty = 0) (fun _ s' _ => Glances s s') (fun _ => True)

theorem settles_bind {x : Io Store α} {f : α → Io Store β} (hx : Act.WithinE Glances x)
    (hf : ∀ a, Settles (f a)) : Settles (x >>= f) := by
  intro e s w
  rw [Act.satE_bind]
  refine Act.satE_mono (Act.withinE_iff.mp hx e s w) ?_ (fun _ _ _ h => h) (fun _ h => h)
  intro a s' w' hlooked
  exact Act.satE_mono (hf a e s' w') (fun _ _ _ h => h) (fun _ _ _ h => trans_of Glances hlooked h)
    (fun _ h => h)

theorem saveInner_settles (path : String) : Settles (saveInner path) := by
  refine settles_bind (fileOp_glances _) fun _ => settles_bind (fileOp_glances _) fun _ => ?_
  refine settles_bind (Act.withinE_lift (Generic.ofNow_glances _)) fun entries => ?_
  refine settles_bind (saveEntries_glances _ entries) fun _ => settles_bind (fileOp_glances _) fun _ => ?_
  exact settles_bind (fileOp_glances _) fun _ => fun _ _ _ => rfl

/-- **What a save leaves.**  One that succeeds has saved the keyspace it leaves; one that fails
counts on. -/
theorem save_settles (e : Env) (a : App) (w : World) :
    Act.Sat App.save e a w (fun ok a' _ => (ok = true → a'.saved = some a'.store) ∧
      (ok = false → a'.saved = a.saved ∧ Glances a.store a'.store)) (fun _ => True) := by
  unfold App.save
  rw [Act.sat_bind, Act.sat_get, Act.sat_bind, App.onStore, Act.sat_zoom]
  unfold Persist.saveTo
  rw [Act.sat_bind]
  refine Act.sat_mono (saveInner_settles a.config.dbfilename e a.store w) ?_ (fun _ h => h)
  intro result s' w' hs'
  cases result with
  | ok _ => exact ⟨fun _ => rfl, fun h => (by cases h)⟩
  | error _ => exact ⟨fun h => (by cases h), fun _ => ⟨rfl, hs'⟩⟩

theorem save_accounts : Act.Within Accounts App.save := by
  intro e a w
  refine Act.sat_mono (save_settles e a w) ?_ (fun _ h => h)
  rintro ok a' w' ⟨hdone, hfailed⟩ ha
  cases ok with
  | true =>
    intro s hs hdiffers
    rw [hdone rfl] at hs
    cases hs
    exact absurd rfl hdiffers
  | false =>
    obtain ⟨hsaved, hlooked⟩ := hfailed rfl
    have hmoved : Accounted { a with store := a'.store } :=
      accounts_of_marked hlooked.marked ha
    unfold Accounted
    rw [hsaved]
    exact hmoved

end saving

/-! ## Sweeping -/

theorem memorySweep_refused (maxTerms : Nat) (e : Env) (m : Memory) (w : World) :
    Act.Sat (Memory.sweepExpired maxTerms) e m w (fun dropped m' _ => dropped = 0 → m.Untouched m')
      (fun _ => True) := by
  unfold Memory.sweepExpired
  intro hnone
  have hdead : (m.records.pairs.filter fun p => !p.2.isLive (e.clock w.ticks)).map (fun p => p.2.id) =
      [] := List.eq_nil_of_length_eq_zero hnone
  show m.Untouched (Memory.delAll maxTerms _ m).2
  rw [hdead]
  rfl

theorem sweepMemoryRecords_accounts : Act.Within Accounts App.sweepMemoryRecords := by
  refine Act.within_bind (onStore_look (Generic.ofNow_glances _)) fun keys => ?_
  refine Act.within_forList (fun key => ?_) keys
  refine Act.within_bind Act.within_get fun a₀ => ?_
  intro e a w
  rw [Act.sat_bind, App.onStore, Act.sat_zoom]
  refine Act.sat_mono (existingMemory_edits (memorySweep_refused a₀.config.memMaxTermsPerDoc)) ?_
    (fun _ h => h)
  rintro found s w₁ ⟨hrises, hmarks⟩
  cases found with
  | none => exact accounts_of_marked (hmarks fun _ h => (by cases h))
  | some dropped =>
    show Act.Sat (if 0 < dropped then _ else _) e { a with store := s } w₁ _ _
    split
    · have hless : a.store.dirty < s.dirty + 1 := Nat.lt_succ_of_le hrises
      have hmarked : Marked a.store s.bumpDirty := .of_lt hless
      exact trans_of Accounts (accounts_of_marked hmarked) (Carries.same rfl rfl)
    · rename_i hnone
      have hmarked : Marked a.store s := hmarks fun _ h => by
        cases h
        omega
      exact accounts_of_marked hmarked

theorem tick_accounts : Act.Within Accounts App.tick :=
  tick_within sweepExpired_marks sweepMemoryRecords_accounts save_accounts

/-! ## Runs -/

/-- What can happen to the keyspace. -/
inductive Event where
  /-- A request of a client, whatever the client's state. -/
  | request (client : Client) (argv : List Bytes)
  /-- A parked command is run again. -/
  | retry (client : Client) (argv : List Bytes)
  /-- Eviction down to the memory limit. -/
  | eviction
  /-- Housekeeping: the sweeps, and a save when one is due. -/
  | tick
  /-- A save. -/
  | save

/-- Serve a client. -/
def serving {α : Type} (client : Client) (m : Run Served α) : Run App α :=
  Act.zoom (fun a => ⟨a, client⟩) (fun s _ => s.app) m

/-- One event. -/
def Event.step : Event → Run App Unit
  | .request client argv => do
    let _ ← serving client (dispatch argv)
    pure ()
  | .retry client argv => do
    let _ ← serving client (Klyro.retry argv)
    pure ()
  | .eviction => do
    let _ ← App.makeRoom
    pure ()
  | .tick => App.tick
  | .save => do
    let _ ← App.save
    pure ()

/-- Events one after the other. -/
def Event.run (events : List Event) : Run App Unit := Act.forList Event.step events

theorem serving_within {Q : App → App → Prop} {α : Type} {m : Run Served α} (client : Client)
    (h : Act.Within (Behind Q) m) : Act.Within Q (serving client m) :=
  Act.within_zoom h fun _ _ hQ => hQ

theorem runWith_accounts (exec : Run Served Response) (name : String) (argv : List Bytes)
    (hexec : name = "EXEC" → Act.Within (Behind Accounts) exec) :
    Act.Within (Behind Accounts) (runWith exec name argv) :=
  runWith_within (follows_marked name) (fun _ => save_accounts) hexec

theorem step_accounts (event : Event) : Act.Within Accounts event.step := by
  have hend : ∀ {α : Type} {m : Run App α}, Act.Within Accounts m → Act.Within Accounts (do
      let _ ← m
      pure ()) := fun h => Act.within_bind h fun _ => Act.within_pure _
  cases event with
  | request client argv =>
    exact hend (serving_within client (dispatch_within evict_marks runWith_accounts argv))
  | retry client argv =>
    exact hend (serving_within client (retry_within evict_marks runWith_accounts argv))
  | eviction => exact hend (makeRoom_within evict_marks)
  | tick => exact tick_accounts
  | save => exact hend save_accounts

theorem run_accounts (events : List Event) : Act.Within Accounts (Event.run events) :=
  Act.within_forList step_accounts events

/-! ## Commands that only read -/

/-- What was counted expired or was evicted. -/
def Balanced (a a' : App) : Prop :=
  a'.store.dirty + a.store.expired + a.stats.evictedKeys =
    a.store.dirty + a'.store.expired + a'.stats.evictedKeys

instance : IsPreorder App Balanced where
  refl _ := rfl
  trans a a' a'' h h' := by
    unfold Balanced at *
    omega

section balanced

variable {α : Type} {name : String} {argv : List Bytes}

theorem aside_balanced {f : App → App}
    (h : ∀ a, (f a).store = a.store ∧ (f a).stats.evictedKeys = a.stats.evictedKeys) :
    Act.Within Balanced (Act.modify f : Run App Unit) := by
  refine Act.within_modify fun a => ?_
  obtain ⟨hstore, hevicted⟩ := h a
  unfold Balanced
  rw [hstore, hevicted]

theorem look_balanced {m : Run Store α} (h : Act.Within Glances m) :
    Act.Within Balanced (App.onStore m) := by
  refine Act.within_zoom h fun a s hlooked => ?_
  have hcounted : s.dirty + a.store.expired = a.store.dirty + s.expired := hlooked.counted
  show s.dirty + a.store.expired + a.stats.evictedKeys =
    a.store.dirty + s.expired + a.stats.evictedKeys
  omega

theorem signalModified_balanced (key : Bytes) : Act.Within Balanced (App.signalModified key) := by
  refine Act.within_bind (aside_balanced fun _ => ⟨rfl, rfl⟩) fun _ => ?_
  refine Act.within_bind Act.within_get fun a => Act.within_ite (Act.within_pure _) ?_
  refine Act.within_bind (look_balanced (peekType_glances key)) fun type => ?_
  exact Act.within_ite (aside_balanced fun _ => ⟨rfl, rfl⟩) (Act.within_pure _)

theorem signalWrites_balanced (response : Response) :
    Act.Within Balanced (signalWrites name argv response) := by
  unfold signalWrites
  refine Act.within_ite (Act.within_pure _) ?_
  split
  · exact Act.within_pure _
  · exact aside_balanced fun _ => ⟨rfl, rfl⟩
  · exact Act.within_forList signalModified_balanced _

/-- An eviction counts one change, when there is a key to evict. -/
theorem evict_counts {e : Env} {s : Store} {w : World} (key : Bytes) :
    Act.Sat (Store.evict key) e s w (fun gone s' _ =>
      s'.dirty = s.dirty + (if gone then 1 else 0) ∧ s'.expired = s.expired) (fun _ => True) := by
  unfold Store.evict
  rw [Act.sat_bind]
  refine Act.sat_mono (counts_removeEntry key e s w) ?_ (fun _ h => h)
  intro found s' w' hcounts
  obtain ⟨hdirty, hexpired⟩ := Prod.mk.inj hcounts
  cases found with
  | none => exact ⟨hdirty, hexpired⟩
  | some _ => exact ⟨congrArg (· + 1) hdirty, hexpired⟩

theorem evictLoop_balanced (policy : Policy) (n : Nat) :
    Act.Within Balanced (App.evictLoop policy n) := by
  induction n with
  | zero => exact Act.within_pure _
  | succ n ih =>
    refine Act.within_bind Act.within_get fun a => Act.within_ite (Act.within_pure _) ?_
    refine Act.within_bind (look_balanced (sample_glances _ _)) fun candidates => ?_
    cases App.choose policy candidates with
    | none => exact Act.within_pure _
    | some victim =>
      have hrest : Act.Within Balanced (do
          App.signalModified victim.key
          let fits ← App.withinLimit
          if fits then pure true else App.evictLoop policy n) :=
        Act.within_bind (signalModified_balanced _) fun _ =>
          Act.within_bind withinLimit_within fun fits => Act.within_ite (Act.within_pure _) ih
      intro e a w
      dsimp only
      rw [Act.sat_bind, App.onStore, Act.sat_zoom]
      refine Act.sat_mono (evict_counts victim.key) ?_ (fun _ h => h)
      rintro gone s w₁ ⟨hdirty, hexpired⟩
      cases gone with
      | false =>
        have hsame : Balanced a { a with store := s } := by
          show s.dirty + a.store.expired + a.stats.evictedKeys =
            a.store.dirty + s.expired + a.stats.evictedKeys
          rw [hdirty, hexpired]
          rfl
        exact Act.sat_mono (ih e _ w₁) (fun _ _ _ h => trans_of Balanced hsame h) (fun _ h => h)
      | true =>
        have hsame : Balanced a { a with
            store := s, stats := { a.stats with evictedKeys := a.stats.evictedKeys + 1 } } := by
          show s.dirty + a.store.expired + a.stats.evictedKeys =
            a.store.dirty + s.expired + (a.stats.evictedKeys + 1)
          rw [hdirty, hexpired, if_pos rfl]
          omega
        exact Act.sat_mono (hrest e _ w₁) (fun _ _ _ h => trans_of Balanced hsame h) (fun _ h => h)

theorem memoryGate_balanced : Act.Within Balanced (memoryGate name) := by
  refine Act.within_bind Act.within_get fun a => Act.within_ite (Act.within_pure _) ?_
  refine Act.within_bind ?_ fun fits => Act.within_pure _
  refine Act.within_bind withinLimit_within fun fits => Act.within_ite (Act.within_pure _) ?_
  exact Act.within_bind Act.within_get fun a =>
    Act.within_ite (Act.within_pure _) (evictLoop_balanced _ _)

theorem onArms_balanced {arms : Config → Arms} (hread : readCommands.contains name = true)
    (h : ∀ {config handler}, (name, handler) ∈ arms config → Trend name (handler argv)) :
    Act.Within (Behind Balanced) (onArms arms name argv) := by
  refine Act.within_bind Act.within_get fun s => ?_
  refine Act.within_bind (onApp_within (look_balanced (answer_within ?_))) fun _ => Act.within_pure _
  unfold Arms.run
  cases harm : (arms s.app.config).lookup name with
  | none => exact Act.withinE_pure _
  | some handler => exact (h (mem_of_lookup harm)).glances hread

/-- Reading is left to the handlers of the keyspace. -/
theorem family_of_read (hread : readCommands.contains name = true) :
    family name ∈ [some .generic, some .string, some .list, some .hash, some .set, some .zset,
      some .memory] := by
  have hall : ∀ n ∈ readCommands, family n ∈ [some .generic, some .string, some .list, some .hash,
      some .set, some .zset, some .memory] := by decide +kernel
  exact hall name (List.contains_iff_mem.mp hread)

theorem runWith_balanced (exec : Run Served Response) (hread : readCommands.contains name = true) :
    Act.Within (Behind Balanced) (runWith exec name argv) := by
  have hfamily := family_of_read hread
  simp only [List.mem_cons, List.not_mem_nil, or_false] at hfamily
  unfold runWith
  rcases hfamily with h | h | h | h | h | h | h <;> rw [h]
  · exact onArms_balanced hread fun h => Generic.trend h argv
  · exact onArms_balanced hread fun h => Strings.trend h argv
  · exact onArms_balanced hread fun h => Lists.trend h argv
  · exact onArms_balanced hread fun h => Hashes.trend h argv
  · exact onArms_balanced hread fun h => Sets.trend h argv
  · exact onArms_balanced hread fun h => Zsets.trend h argv
  · exact onArms_balanced hread fun h => Memories.trend h argv

/-- **A command that only reads** counts what expired or was evicted on its way. -/
theorem execute_balanced (hread : readCommands.contains name = true) :
    Act.Within (Behind Balanced) (execute name argv) := by
  refine Act.within_bind (onApp_within (aside_balanced fun _ => ⟨rfl, rfl⟩)) fun _ => ?_
  refine Act.within_bind Act.within_get fun s => Act.within_ite (Act.within_pure _) ?_
  refine Act.within_bind (onApp_within memoryGate_balanced) fun refusal => ?_
  cases refusal with
  | some refusal => exact Act.within_pure _
  | none =>
    refine Act.within_bind Act.within_get fun s => ?_
    refine Act.within_bind (runWith_balanced exec hread) fun response => ?_
    refine Act.within_bind (onApp_within (aside_balanced fun a => ?_)) fun _ => ?_
    · split <;> exact ⟨rfl, rfl⟩
    · exact Act.within_bind (onApp_within (signalWrites_balanced _)) fun _ => Act.within_pure _

end balanced

/-! ## Autosave -/

/-- **Autosave misses no change.**  Over any run that starts before the first successful save, a
keyspace that differs from the one last saved has a change counted; a save that fails takes none of
the count back; a command that only reads raises it only when a key expires or is evicted. -/
theorem changes_accounted :
    (∀ (events : List Event) (e : Env) (a : App) (w : World), a.saved = none →
      Act.Sat (Event.run events) e a w (fun _ a' _ => Accounted a') (fun _ => True)) ∧
    (∀ (e : Env) (a : App) (w : World), Act.Sat App.save e a w
      (fun ok a' _ => ok = false → a.store.dirty ≤ a'.store.dirty) (fun _ => True)) ∧
    ∀ name ∈ readCommands, ∀ (argv : List Bytes) (e : Env) (s : Served) (w : World),
      Act.Sat (execute name argv) e s w (fun _ s' _ => s.app.store.dirty < s'.app.store.dirty →
        s.app.store.expired < s'.app.store.expired ∨
          s.app.stats.evictedKeys < s'.app.stats.evictedKeys) (fun _ => True) := by
  refine ⟨fun events e a w hfresh => ?_, fun e a w => ?_, fun name hname argv e s w => ?_⟩
  · refine Act.sat_mono (run_accounts events e a w) (fun _ a' _ h => h ?_) (fun _ h => h)
    intro s hs
    rw [hfresh] at hs
    cases hs
  · refine Act.sat_mono (save_settles e a w) ?_ (fun _ h => h)
    exact fun ok a' w' h hfailed => (h.2 hfailed).2.marked.le
  · refine Act.sat_mono (execute_balanced (List.contains_iff_mem.mpr hname) e s w) ?_ (fun _ h => h)
    intro r s' w' hbalanced hmore
    have hsum : s'.app.store.dirty + s.app.store.expired + s.app.stats.evictedKeys =
      s.app.store.dirty + s'.app.store.expired + s'.app.stats.evictedKeys := hbalanced
    omega

/-- Over the memory limit, the gate before `GET j` evicts `k`: a change is counted though no key
expires. -/
theorem execute_get_evicts :
    Act.Sat (execute "GET" [[71, 69, 84], [106]]) tightEnv { freshServed with app := fullApp } {}
      (fun _ s' _ => "GET" ∈ readCommands ∧ fullApp.store.dirty < s'.app.store.dirty ∧
        s'.app.store.expired = fullApp.store.expired) (fun _ => False) := by
  decide +kernel

section

attribute [local irreducible] Event.run

/-- `SET k v`, a save, `SET k w`: the second write is counted. -/
theorem changes_accounted_rewritten :
    Act.Sat (Event.run [.request freshServed.client [[83, 69, 84], [107], [118]], .save,
        .request freshServed.client [[83, 69, 84], [107], [119]]]) (stillEnv 5) {} {}
      (fun _ a' _ => Accounted a' ∧ a'.saved.isSome = true ∧ a'.store.dirty = 1) (fun _ => False) := by
  have hcounted : Act.Sat (Event.run [.request freshServed.client [[83, 69, 84], [107], [118]], .save,
        .request freshServed.client [[83, 69, 84], [107], [119]]]) (stillEnv 5) {} {}
      (fun _ a' _ => a'.saved.isSome = true ∧ a'.store.dirty = 1) (fun _ => False) := by
    decide +kernel
  have haccounted := changes_accounted.1 [.request freshServed.client [[83, 69, 84], [107], [118]],
    .save, .request freshServed.client [[83, 69, 84], [107], [119]]] (stillEnv 5) {} {} rfl
  exact Act.sat_mono (Act.sat_and hcounted haccounted) (fun _ _ _ h => ⟨h.2, h.1⟩) (fun _ h => h.1)

end

end Klyro
