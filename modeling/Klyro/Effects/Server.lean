import Klyro.Commands.Dispatch
import Klyro.Commands.Keeps

/-!
# The commands that write no key

Server, pub/sub and transaction commands look keys up at most (`SAVE`, `INFO`).

* `Idles` — a computation that leaves the keyspace alone but for what a lookup drops.
* `Server.idles`, `PubSubs.idles`, `Transactions.idles` — the three families; of EXEC the same is
  asked.
* `App.save_idles` — writing the dump.
-/

set_option autoImplicit false

namespace Klyro

open Keyspace

/-! ## Idle computations -/

section idles

variable {α β σ : Type}

/-- A computation over a state with a keyspace in it that writes no key. -/
def Idles (store : σ → Store) (m : Run σ α) : Prop := ∀ (e : Env) (s : σ) (w : World),
  Act.Sat m e s w (fun _ s' w' => Quiet e (store s) w (store s') w') NoExpect

variable {store : σ → Store}

theorem idles_pure (a : α) : Idles store (pure a) := fun _ _ _ => .refl

theorem idles_bind {m : Run σ α} {f : α → Run σ β} (hm : Idles store m)
    (hf : ∀ a, Idles store (f a)) : Idles store (m >>= f) := by
  intro e s w
  rw [Act.sat_bind]
  refine Act.sat_mono (hm e s w) ?_ (fun _ h => h)
  intro a s' w' hq
  exact Act.sat_mono (hf a e s' w') (fun _ _ _ hq' => hq.trans hq') (fun _ h => h)

theorem idles_map {m : Run σ α} {f : α → β} (hm : Idles store m) : Idles store (f <$> m) := by
  intro e s w
  rw [Act.sat_map]
  exact hm e s w

theorem idles_ite {p : Prop} [Decidable p] {m m' : Run σ α} (h : Idles store m)
    (h' : Idles store m') : Idles store (if p then m else m') := by
  split
  · exact h
  · exact h'

/-- A computation that leaves the keyspace as it is. -/
theorem idles_of_same {m : Run σ α}
    (h : ∀ e s w, Act.Sat m e s w (fun _ s' w' => store s' = store s ∧ w.ticks ≤ w'.ticks) NoExpect) :
    Idles store m := by
  intro e s w
  refine Act.sat_mono (h e s w) ?_ (fun _ h => h)
  rintro a s' w' ⟨hs, hw⟩
  rw [hs]
  exact ⟨hw, fun _ _ => .inl rfl, id, id⟩

theorem idles_get : Idles store Act.get := idles_of_same fun _ _ _ => ⟨rfl, le_rfl⟩

theorem idles_modify {f : σ → σ} (h : ∀ s, store (f s) = store s) : Idles store (Act.modify f) :=
  idles_of_same fun _ s _ => ⟨h s, le_rfl⟩

theorem idles_now : Idles store now := idles_of_same fun _ _ _ => ⟨rfl, Nat.le_succ _⟩

theorem idles_instantNow : Idles store instantNow := idles_of_same fun _ _ _ => ⟨rfl, le_rfl⟩

theorem idles_usedBytes : Idles store usedBytes := idles_of_same fun _ _ _ => ⟨rfl, le_rfl⟩

theorem idles_env : Idles store env := idles_of_same fun _ _ _ => ⟨rfl, le_rfl⟩

/-- Running on a part of the state that holds the keyspace. -/
theorem idles_zoom {τ : Type} {get : σ → τ} {put : τ → σ → σ} {m : Run τ α} {g : τ → Store}
    (hm : Idles g m) (hget : ∀ s, g (get s) = store s)
    (hput : ∀ t s, store (put t s) = g t) : Idles store (Act.zoom get put m) := by
  intro e s w
  rw [Act.sat_zoom]
  refine Act.sat_mono (hm e (get s) w) ?_ (fun _ h => h)
  intro a t w' hq
  rw [hput, ← hget]
  exact hq

theorem idles_mapList {f : α → Run σ β} (hf : ∀ a, Idles store (f a)) (as : List α) :
    Idles store (Act.mapList f as) := by
  induction as with
  | nil => exact idles_pure _
  | cons a as ih => exact idles_bind (hf a) fun _ => idles_bind ih fun _ => idles_pure _

theorem idles_forList {f : α → Run σ Unit} (hf : ∀ a, Idles store (f a)) (as : List α) :
    Idles store (Act.forList f as) := by
  induction as with
  | nil => exact idles_pure _
  | cons a as ih => exact idles_bind (hf a) fun _ => ih

end idles

/-- The keyspace behind a command. -/
abbrev Served.store (s : Served) : Store := s.app.store

section lifts

variable {α : Type}

theorem Reads.onStore {m : Run Store α} (h : Reads m) : Idles App.store (App.onStore m) :=
  idles_zoom (g := id) h (fun _ => rfl) fun _ _ => rfl

theorem Idles.onApp {m : Run App α} (h : Idles App.store m) : Idles Served.store (Served.onApp m) :=
  idles_zoom h (fun _ => rfl) fun _ _ => rfl

/-- Running on the client only moves the clocks. -/
theorem idles_onClient {m : Run Client α} (h : Mild m) : Idles Served.store (Served.onClient m) := by
  refine idles_of_same fun e s w => ?_
  rw [Served.onClient, Act.sat_zoom]
  exact Act.sat_mono (h e s.client w) (fun _ _ _ hw => ⟨rfl, hw⟩) (fun _ h => h)

theorem reads_existingMemory {key : Bytes} {use : Run Memory α} (huse : Peeks use) :
    Reads (Store.existingMemory key use) := by
  intro e s w
  refine Store.sat_existingMemory (fun _ h => .of_outOfRange h) ?_ ?_
  · exact fun s' w' hw _ hview hidx => .of_expire hw hview hidx
  · intro m d s' w' hw hlive hview hidx
    refine Act.sat_mono (huse e m w') ?_ (fun _ h => h)
    rintro a m' w'' ⟨rfl, hw''⟩
    have hq : Quiet e s w s' w' := .of_expire hw hview hidx
    have hsame : (Store.setValue key (.memory m') s').view = s'.view := by
      rw [Store.view_setValue]
      funext k
      by_cases hk : k = key
      · subst hk
        rw [Function.update_self, hview, expire_self, hlive]
        rfl
      · rw [Function.update_of_ne hk]
    refine hq.trans (.of_kept hw'' (fun k => .inl (by rw [hsame])) fun h => h.setValue)

end lifts

/-! ## Saving -/

section saving

variable {α β : Type}

theorem reads_run_bind {x : Io Store α} {f : α → Io Store β} (hx : Reads x.run)
    (hf : ∀ a, Reads (f a).run) : Reads (x >>= f).run := by
  rw [ExceptT.run_bind]
  refine reads_bind hx fun r => ?_
  cases r with
  | ok a => exact hf a
  | error _ => exact reads_pure _

theorem reads_run_lift {m : Run Store α} (h : Reads m) : Reads (liftM m : Io Store α).run := by
  rw [ExceptT.run_liftM]
  exact reads_map _ h

theorem reads_fileOp (f : Assoc String Bytes → Assoc String Bytes) : Reads (fileOp f : Io Store Unit).run := by
  refine reads_run_bind (reads_run_lift (reads_of_same fun _ _ _ => ⟨rfl, le_rfl⟩)) fun ok => ?_
  cases ok with
  | true => exact reads_run_lift (reads_of_same fun _ _ _ => ⟨rfl, le_rfl⟩)
  | false => exact reads_pure _

theorem reads_writePieces (path : String) (pieces : List Piece) :
    Reads (writePieces path pieces : Io Store Unit).run := by
  induction pieces with
  | nil => exact reads_pure _
  | cons p ps ih => exact reads_run_bind (reads_fileOp _) fun _ => ih

theorem reads_payloadOf (key : Bytes) (kind : StoreType) : Reads (payloadOf key kind) := by
  cases kind with
  | string => exact reads_bind (reads_getString key) fun _ => reads_pure _
  | list => exact reads_bind (reads_read _ key) fun _ => reads_pure _
  | hash => exact reads_bind (reads_read _ key) fun _ => reads_pure _
  | set => exact reads_bind (reads_read _ key) fun _ => reads_pure _
  | zset => exact reads_bind (reads_read _ key) fun _ => reads_pure _
  | memory =>
    refine reads_existingMemory (peeks_bind ?_ fun _ => peeks_bind peeks_get fun _ => peeks_pure _)
    exact peeks_bind peeks_now fun _ => peeks_bind (peeks_bind peeks_now fun _ =>
      peeks_bind peeks_get fun _ => peeks_pure _) fun _ => peeks_bind peeks_get fun _ => peeks_pure _

theorem reads_recordOf (key : Bytes) (kind : StoreType) : Reads (recordOf key kind) := by
  refine reads_bind (reads_pttlMs key) fun ttl => reads_bind ?_ fun _ =>
    reads_bind (reads_payloadOf key kind) fun _ => reads_pure _
  exact reads_ite (fun _ => reads_pure _) fun _ =>
    reads_bind (reads_bind reads_now fun _ => reads_pure _) fun _ => reads_pure _

theorem reads_saveEntries (tmp : String) (entries : List (Bytes × StoreType)) :
    Reads (saveEntries tmp entries).run := by
  induction entries with
  | nil => exact reads_pure _
  | cons entry entries ih =>
    obtain ⟨key, kind⟩ := entry
    refine reads_run_bind (reads_run_lift (reads_recordOf key kind)) fun record => ?_
    cases record with
    | none => exact ih
    | some record => exact reads_run_bind (reads_writePieces _ _) fun _ => ih

theorem reads_foreachEntry : Reads Store.foreachEntry :=
  reads_bind reads_now fun _ => reads_bind reads_get fun _ => reads_pure _

theorem reads_saveInner (path : String) : Reads (saveInner path).run := by
  refine reads_run_bind (reads_fileOp _) fun _ => reads_run_bind (reads_fileOp _) fun _ => ?_
  refine reads_run_bind (reads_run_lift reads_foreachEntry) fun entries => ?_
  refine reads_run_bind (reads_saveEntries _ entries) fun _ => reads_run_bind (reads_fileOp _) fun _ => ?_
  refine reads_run_bind (reads_fileOp _) fun _ => reads_run_lift ?_
  exact fun _ _ _ => ⟨le_rfl, fun _ _ => .inl rfl, fun h => h.congr rfl rfl rfl, id⟩

theorem App.save_idles : Idles App.store App.save := by
  refine idles_bind idles_get fun a => idles_bind (Reads.onStore ?_) fun saved => ?_
  · exact reads_bind (reads_saveInner _) fun _ => reads_pure _
  · exact idles_bind idles_now fun _ => idles_bind (idles_modify fun _ => rfl) fun _ => idles_pure _

end saving

/-! ## The families -/

namespace Server

theorem memoryTotals_reads (keys : List Bytes) : ∀ totals, Reads (memoryTotals keys totals) := by
  induction keys with
  | nil => exact fun _ => reads_pure _
  | cons key keys ih =>
    rintro ⟨records, vectors, terms, bytes⟩
    refine reads_bind (reads_existingMemory ?_) fun found => ?_
    · exact peeks_bind peeks_get fun _ => peeks_bind peeks_heapBytes fun _ => peeks_pure _
    · cases found with
      | none => exact ih _
      | some _ => exact ih _

theorem reads_ofNow {α : Type} (f : SystemTime → Store → α) : Reads (do
    let t ← now
    let s ← Act.get
    pure (f t s)) :=
  reads_bind reads_now fun _ => reads_bind reads_get fun _ => reads_pure _

theorem sectionBody_idles (name : String) : Idles App.store (sectionBody name) := by
  refine idles_bind idles_get fun a => ?_
  split
  · exact idles_bind idles_env fun _ => idles_bind idles_instantNow fun _ => idles_pure _
  · exact idles_pure _
  · exact idles_bind idles_usedBytes fun _ => idles_bind idles_usedBytes fun _ => idles_pure _
  · exact idles_pure _
  · exact idles_pure _
  · exact idles_bind (reads_ofNow _).onStore fun _ =>
      idles_bind (memoryTotals_reads _ _).onStore fun _ => idles_pure _
  · exact idles_bind (reads_ofNow _).onStore fun _ => idles_bind (reads_ofNow _).onStore fun _ =>
      idles_bind (reads_ofNow _).onStore fun _ => idles_pure _
  · exact idles_pure _

theorem appendSections_idles (names : List String) : ∀ out, Idles App.store (appendSections names out) := by
  induction names with
  | nil => exact fun _ => idles_pure _
  | cons name names ih => exact fun _ => idles_bind (sectionBody_idles name) fun _ => ih _

theorem config_idles (argv : List Bytes) : Idles App.store (config argv) := by
  unfold config
  refine idles_ite (idles_pure _) ?_
  split
  · refine idles_ite (idles_pure _) ?_
    exact idles_bind idles_get fun _ => idles_pure _
  · refine idles_ite (idles_pure _) (idles_bind idles_get fun a => ?_)
    refine idles_bind (idles_modify fun _ => rfl) fun _ => ?_
    split <;> exact idles_pure _
  · exact idles_bind (idles_modify fun _ => rfl) fun _ => idles_pure _
  · exact idles_pure _

theorem clientCommand_mild (argv : List Bytes) : Mild (clientCommand argv) := by
  unfold clientCommand
  refine mild_ite (mild_pure _) (mild_bind mild_get fun c => ?_)
  split
  · exact mild_pure _
  · exact mild_pure _
  · refine mild_ite (mild_pure _) (mild_ite (mild_pure _) ?_)
    exact mild_bind (mild_modify _) fun _ => mild_pure _
  · exact mild_pure _
  · exact mild_bind (fun _ _ _ => le_rfl) fun _ => mild_pure _
  · exact mild_pure _

/-- **Server commands** write no key. -/
theorem idles (name : String) (argv : List Bytes) : Idles Served.store (dispatch name argv) := by
  unfold dispatch
  have hend : ∀ reply : Reply, Idles Served.store (pure
      { replies := [reply], close := name = "QUIT" || name = "SHUTDOWN",
        protocol := switchedProtocol name argv reply } : Run Served Response) :=
    fun _ => idles_pure _
  cases harm : arms.lookup name with
  | none => exact hend _
  | some handler =>
    refine idles_bind ?_ hend
    have hmem := mem_of_lookup harm
    simp only [arms, List.mem_cons, Prod.mk.injEq, List.not_mem_nil, or_false] at hmem
    rcases hmem with ⟨-, rfl⟩ | ⟨-, rfl⟩ | ⟨-, rfl⟩ | ⟨-, rfl⟩ | ⟨-, rfl⟩ | ⟨-, rfl⟩ | ⟨-, rfl⟩ |
      ⟨-, rfl⟩ | ⟨-, rfl⟩ | ⟨-, rfl⟩
    · exact idles_pure _
    · exact idles_pure _
    · exact idles_bind idles_get fun _ => idles_pure _
    · exact idles_onClient (clientCommand_mild argv)
    · exact idles_pure _
    · refine Idles.onApp (idles_ite (idles_pure _) ?_)
      exact idles_bind (appendSections_idles _ _) fun _ => idles_pure _
    · exact (config_idles argv).onApp
    · exact idles_bind App.save_idles.onApp fun _ => idles_pure _
    · exact idles_pure _
    · exact idles_bind (Idles.onApp (idles_modify fun _ => rfl)) fun _ => idles_pure _

end Server

namespace PubSubs

theorem confirmed_idles {kind : String} {change : Bytes → Served → Served}
    (h : ∀ name s, (change name s).app.store = s.app.store) (name : Bytes) :
    Idles Served.store (confirmed kind change name) :=
  idles_bind (idles_modify (h name)) fun _ => idles_bind idles_get fun _ => idles_pure _

theorem store_subscribed (patterns : Bool) (name : Bytes) (s : Served) :
    (subscribed patterns name s).app.store = s.app.store := by
  unfold subscribed
  split
  · split <;> rfl
  · split <;> rfl

theorem store_unsubscribed (patterns : Bool) (name : Bytes) (s : Served) :
    (unsubscribed patterns name s).app.store = s.app.store := by
  unfold unsubscribed
  split
  · split <;> rfl
  · split <;> rfl

theorem unsubscribe_idles (patterns : Bool) (names : List Bytes) :
    Idles Served.store (unsubscribe patterns names) := by
  refine idles_bind idles_get fun s => idles_ite (idles_pure _) ?_
  exact idles_mapList (confirmed_idles (store_unsubscribed patterns)) _

/-- **Pub/sub commands** write no key. -/
theorem idles (name : String) (argv : List Bytes) : Idles Served.store (dispatch name argv) := by
  unfold dispatch
  cases harm : arms.lookup name with
  | none => exact idles_pure _
  | some arm =>
    have hmem := mem_of_lookup harm
    simp only [arms, List.mem_cons, Prod.mk.injEq, List.not_mem_nil, or_false] at hmem
    rcases hmem with ⟨-, rfl⟩ | ⟨-, rfl⟩ | ⟨-, rfl⟩ | ⟨-, rfl⟩ | ⟨-, rfl⟩ | ⟨-, rfl⟩
    · exact idles_ite (idles_pure _)
        (idles_map (idles_mapList (confirmed_idles (store_subscribed false)) _))
    · exact idles_ite (idles_pure _)
        (idles_map (idles_mapList (confirmed_idles (store_subscribed true)) _))
    · exact idles_map (unsubscribe_idles _ _)
    · exact idles_map (unsubscribe_idles _ _)
    · refine idles_ite (idles_pure _) (idles_bind idles_get fun s => ?_)
      exact idles_bind (Idles.onApp (idles_modify fun _ => rfl)) fun _ => idles_pure _
    · exact idles_ite (idles_pure _) (idles_bind idles_get fun _ => idles_pure _)

end PubSubs

namespace Transactions

theorem unwatchOne_idles (key : Bytes) : Idles App.store (App.onWatch (Watch.unwatch key)) := by
  refine idles_of_same fun e a w => ?_
  rw [App.onWatch, Act.sat_zoom]
  unfold Watch.unwatch
  rw [Act.sat_bind, Act.sat_get]
  cases a.watch.keys.lookup key with
  | none => exact ⟨rfl, le_rfl⟩
  | some entry =>
    dsimp only
    split
    · exact fun _ h => by cases h
    · exact ⟨rfl, le_rfl⟩
    · exact ⟨rfl, le_rfl⟩

theorem unwatchAll_idles : Idles Served.store unwatchAll := by
  refine idles_bind idles_get fun s => idles_bind (Idles.onApp ?_) fun _ =>
    idles_onClient (mild_modify _)
  refine idles_bind (idles_forList (fun p : Bytes × Nat => unwatchOne_idles p.1) _) fun _ => ?_
  exact idles_bind (idles_modify fun _ => rfl) fun _ => idles_pure _

theorem watchOne_idles (key : Bytes) : Idles Served.store (watchOne key) := by
  refine idles_bind idles_get fun s => idles_ite (idles_pure _) ?_
  refine idles_bind (Idles.onApp (idles_of_same fun _ _ _ => ⟨rfl, le_rfl⟩)) fun _ => ?_
  exact idles_bind (Idles.onApp (idles_modify fun _ => rfl)) fun _ => idles_onClient (mild_modify _)

theorem discard_idles : Idles Served.store discard :=
  idles_bind (idles_onClient (mild_modify _)) fun _ => unwatchAll_idles

theorem answered_idles {reply : Reply} {m : Run Served Unit} (h : Idles Served.store m) :
    Idles Served.store (answered reply m) :=
  idles_bind h fun _ => idles_pure _

/-- **Transaction commands** but EXEC write no key. -/
theorem idles {exec : Run Served Response} {name : String} (hname : name ≠ "EXEC")
    (argv : List Bytes) : Idles Served.store (dispatch exec name argv) := by
  unfold dispatch
  cases harm : (arms exec).lookup name with
  | none => exact idles_pure _
  | some arm =>
    have hmem := mem_of_lookup harm
    simp only [arms, List.mem_cons, Prod.mk.injEq, List.not_mem_nil, or_false] at hmem
    rcases hmem with ⟨-, rfl⟩ | ⟨-, rfl⟩ | ⟨-, rfl⟩ | ⟨-, rfl⟩ | ⟨rfl, -⟩ | ⟨-, rfl⟩
    · exact idles_bind idles_get fun _ => idles_ite (idles_pure _) (idles_ite (idles_pure _)
        (answered_idles (idles_onClient (mild_modify _))))
    · exact idles_bind idles_get fun _ => idles_ite (idles_pure _) (idles_ite (idles_pure _)
        (answered_idles discard_idles))
    · exact idles_bind idles_get fun _ => idles_ite (idles_pure _) (idles_ite (idles_pure _)
        (answered_idles (idles_forList watchOne_idles _)))
    · exact idles_ite (idles_pure _) (answered_idles unwatchAll_idles)
    · exact absurd rfl hname
    · exact answered_idles (idles_bind discard_idles fun _ => idles_modify fun _ => rfl)

end Transactions

end Klyro
