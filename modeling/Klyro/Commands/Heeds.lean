import Klyro.Commands.Changes
import Klyro.Commands.Waits
import Klyro.Trends.NonEmpty

/-!
# No write goes unnoticed by the parked commands

* `Fewer` — a change of the keyspace that only drops keys.
* `Noted key` — a list or a sorted set under `key` has made the key ready.
* `Heeds` — what a request does for the parked commands: a key one of them waits for that it leaves
  holding a list or a sorted set is ready, or held one before.
* `executeWith_heeds`, `execute_heeds`, `retry_heeds` — every request does, the queue of an EXEC
  included.
* `execute_waits`, `retry_waits` — a command that parks has found its keys absent.
-/

set_option autoImplicit false

namespace Klyro

open Store Keyspace Served

/-! ## Keys that go -/

/-- Every key is as it was, or gone. -/
def Fewer (s s' : Store) : Prop := ∀ k, s'.view k = s.view k ∨ s'.view k = none

instance : Lookups Fewer where
  refl _ _ := .inl rfl
  trans _ _ _ h h' k := by
    rcases h' k with hk | hk
    · rw [hk]
      exact h k
    · exact .inr hk
  of_glances h := h.kept

theorem Fewer.of_quiet {e : Env} {s s' : Store} {w w' : World} (h : Quiet e s w s' w') : Fewer s s' :=
  fun k => (h.kept k id).imp id And.left

theorem Fewer.stored {s s' : Store} (h : Fewer s s') {k : Bytes} {p : Value × Option SystemTime}
    (hp : s'.view k = some p) : s.view k = some p := by
  rcases h k with hk | hk
  · rw [← hk, hp]
  · rw [hk] at hp
    cases hp

theorem evict_fewer (key : Bytes) : Act.Within Fewer (Store.evict key) := fun _ _ _ =>
  Act.sat_mono (evict_spec key) (fun _ s' _ h k => by
    rw [h.2.2.1]
    by_cases hk : k = key
    · rw [hk, Function.update_self]
      exact .inr rfl
    · rw [Function.update_of_ne hk]
      exact .inl rfl) (fun _ _ => trivial)

/-! ## What a request does for the parked commands -/

/-- If the key holds a list or a sorted set, it is ready. -/
def Noted (key : Bytes) (a : App) : Prop :=
  ∀ x d, a.store.view key = some (x, d) → Poppable x.typeOf → key ∈ a.readyKeys

/-- **What a change of the server does for the parked commands**: it makes every key ready that it
leaves poppable and that was not. -/
structure Heeds (a a' : App) : Prop where
  blocked : a'.blocked = a.blocked
  ready : ∀ key ∈ a.readyKeys, key ∈ a'.readyKeys
  fresh : ∀ waiter ∈ a.blocked, ∀ key ∈ waiter.keys, ∀ x d, a'.store.view key = some (x, d) →
    Poppable x.typeOf →
      key ∈ a'.readyKeys ∨ ∃ x' d', a.store.view key = some (x', d') ∧ Poppable x'.typeOf
  nonEmpty : NonEmpty a.store → NonEmpty a'.store

instance : IsPreorder App Heeds where
  refl _ := ⟨rfl, fun _ h => h, fun _ _ _ _ x d hx hpop => .inr ⟨x, d, hx, hpop⟩, id⟩
  trans a a' a'' h h' := by
    refine ⟨h'.blocked.trans h.blocked, fun key hk => h'.ready key (h.ready key hk),
      fun waiter hw key hk x d hx hpop => ?_, fun hn => h'.nonEmpty (h.nonEmpty hn)⟩
    rcases h'.fresh waiter (h.blocked ▸ hw) key hk x d hx hpop with hready | ⟨x', d', hx', hpop'⟩
    · exact .inl hready
    · rcases h.fresh waiter hw key hk x' d' hx' hpop' with hready | hbefore
      · exact .inl (h'.ready key hready)
      · exact .inr hbefore

/-- The registry of parked commands stays and no ready key is forgotten. -/
structure Remembers (a a' : App) : Prop where
  blocked : a'.blocked = a.blocked
  ready : ∀ key ∈ a.readyKeys, key ∈ a'.readyKeys

instance : IsPreorder App Remembers where
  refl _ := ⟨rfl, fun _ h => h⟩
  trans _ _ _ h h' := ⟨h'.blocked.trans h.blocked, fun key hk => h'.ready key (h.ready key hk)⟩

theorem Change.remembers {s s' : Served} (h : Change s s') : Remembers s.app s'.app := by
  cases h with
  | aside h => exact ⟨h.blocked, fun key hk => h.readyKeys ▸ hk⟩
  | readied => exact ⟨rfl, fun _ hk => List.mem_append_left _ hk⟩
  | flushed => exact ⟨rfl, fun _ hk => List.mem_append_left _ hk⟩
  | joined patterns name =>
    unfold PubSubs.subscribed
    split <;> split <;> exact ⟨rfl, fun _ hk => hk⟩
  | parted patterns name =>
    unfold PubSubs.unsubscribed
    split <;> split <;> exact ⟨rfl, fun _ hk => hk⟩
  | _ => exact ⟨rfl, fun _ hk => hk⟩

theorem Changes.remembers {s s' : Served} (h : Changes s s') : Remembers s.app s'.app :=
  h.keep (I := fun m => Remembers s.app m.app)
    (fun hstep hm => trans_of Remembers hm hstep.remembers) (refl_of Remembers s.app)

theorem AppChanges.remembers {a a' : App} (h : AppChanges a a') : Remembers a a' :=
  (h freshServed.client).remembers

/-- Keys go, and nothing else happens that a parked command waits for. -/
structure Trims (a a' : App) : Prop where
  remembers : Remembers a a'
  fewer : Fewer a.store a'.store

instance : IsPreorder App Trims where
  refl a := ⟨refl_of Remembers a, refl_of Fewer a.store⟩
  trans _ _ _ h h' := ⟨trans_of Remembers h.remembers h'.remembers, trans_of Fewer h.fewer h'.fewer⟩

theorem Trims.heeds {a a' : App} (h : Trims a a') : Heeds a a' :=
  ⟨h.remembers.blocked, h.remembers.ready,
    fun _ _ _ _ x d hx hpop => .inr ⟨x, d, h.fewer.stored hx, hpop⟩,
    fun hn k x d hx => hn k x d (h.fewer.stored hx)⟩

theorem Noted.of_trims {key : Bytes} {a a' : App} (hkey : Noted key a) (h : Trims a a') :
    Noted key a' :=
  fun x d hx hpop => h.remembers.ready key (hkey x d (h.fewer.stored hx) hpop)

section requests

variable {name : String} {argv : List Bytes} {e : Env} {α : Type}

theorem trims_of {m : Run App α} (hchanges : Act.Within AppChanges m)
    (hstore : Act.Within (Following Fewer) m) : Act.Within Trims m := by
  intro e a w
  refine Act.sat_mono (Act.sat_and (hchanges e a w) (hstore e a w)) ?_ (fun _ _ => trivial)
  exact fun _ a' _ h => ⟨AppChanges.remembers h.1, h.2⟩

theorem memoryGate_trims : Act.Within Trims (memoryGate name) :=
  trims_of memoryGate_changes (memoryGate_within evict_fewer)

/-! ## Signals -/

theorem signalModified_trims (key : Bytes) : Act.Within Trims (App.signalModified key) :=
  trims_of (signalModified_changes key) (signalModified_within key)

/-- While somebody is parked, a key that is signalled is noted. -/
theorem signalModified_notes (key : Bytes) (a : App) (w : World) (hblocked : a.blocked ≠ []) :
    Act.Sat (App.signalModified key) e a w (fun _ a' _ => Noted key a') (fun _ => True) := by
  have hsome : a.blocked.isEmpty = false := by
    cases h : a.blocked with
    | nil => exact absurd h hblocked
    | cons _ _ => rfl
  unfold App.signalModified
  rw [Act.sat_bind, Act.sat_modify, Act.sat_bind, Act.sat_get]
  show Act.Sat (if a.blocked.isEmpty then _ else _) _ _ _ _ _
  rw [hsome, if_neg Bool.false_ne_true, Act.sat_bind, App.onStore, Act.sat_zoom]
  refine Act.sat_mono (peekType_spec key) ?_ (fun _ _ => trivial)
  rintro type s' w' ⟨-, htype, hview, -⟩
  rw [← expire_self, ← hview] at htype
  rw [Act.sat_ite]
  refine ⟨fun _ => fun _ _ _ _ => List.mem_append_right _ List.mem_cons_self, fun hno => ?_⟩
  intro x d hx hpop
  refine absurd ?_ hno
  have hsome : type = some x.typeOf := by
    rw [htype]
    show (s'.view key).map _ = _
    rw [show s'.view key = some (x, d) from hx]
    rfl
  rw [hsome]
  rcases hpop with h | h
  · exact .inl (congrArg some h)
  · exact .inr (congrArg some h)

theorem signalAll_notes (keys : List Bytes) : ∀ (a : App) (w : World), a.blocked ≠ [] →
    Act.Sat (Act.forList App.signalModified keys) e a w (fun _ a' _ => ∀ key ∈ keys, Noted key a')
      (fun _ => True) := by
  induction keys with
  | nil => exact fun _ _ _ _ hk => (by cases hk)
  | cons key keys ih =>
    intro a w hblocked
    unfold Act.forList
    rw [Act.sat_bind]
    refine Act.sat_mono (Act.sat_and (signalModified_notes key a w hblocked)
      (signalModified_trims key e a w)) ?_ (fun _ _ => trivial)
    rintro _ a₁ w₁ ⟨hnoted, htrims⟩
    have hblocked₁ : a₁.blocked ≠ [] := by rwa [htrims.remembers.blocked]
    refine Act.sat_mono (Act.sat_and (ih a₁ w₁ hblocked₁)
      (Act.within_forList signalModified_trims keys e a₁ w₁)) ?_ (fun _ _ => trivial)
    rintro _ a₂ w₂ ⟨hrest, htrims'⟩ k hk
    rcases List.mem_cons.mp hk with rfl | hk
    · exact hnoted.of_trims htrims'
    · exact hrest k hk

theorem signalWrites_trims (r : Response) : Act.Within Trims (signalWrites name argv r) :=
  trims_of (signalWrites_changes r) (signalWrites_within r)

/-- What a command that succeeds says it writes is noted. -/
theorem signalWrites_notes {r : Response} (hr : r.silent = false) (a : App) (w : World) :
    Act.Sat (signalWrites name argv r) e a w
      (fun _ a' _ => ∀ waiter ∈ a.blocked, ∀ key ∈ waiter.keys, Named name argv key → Noted key a')
      (fun _ => True) := by
  unfold signalWrites Named
  rw [hr, if_neg Bool.false_ne_true]
  cases writtenKeys name argv with
  | none => exact fun _ _ _ _ h => h.elim
  | some written =>
    cases written with
    | everything =>
      intro waiter hw key hk _ _ _ _ _
      exact List.mem_append_right _ (List.mem_flatMap.mpr ⟨waiter, hw, hk⟩)
    | keys keys =>
      by_cases hblocked : a.blocked = []
      · refine Act.sat_mono (Act.sat_true _) ?_ (fun _ h => h)
        intro _ a' _ _ waiter hw
        rw [hblocked] at hw
        cases hw
      · exact Act.sat_mono (signalAll_notes keys a w hblocked)
          (fun _ _ _ h _ _ key _ hk => h key hk) (fun _ h => h)

/-! ## Requests -/

/-- A command and its signals. -/
theorem heeds_of_ran {a a₁ a₂ : App} {w w₁ : World} {silent : Bool}
    (hran : Ran e name argv a.store w silent a₁.store w₁) (hremembers : Remembers a a₁)
    (htrims : Trims a₁ a₂) (hnoted : silent = false → ∀ waiter ∈ a₁.blocked, ∀ key ∈ waiter.keys,
      Named name argv key → Noted key a₂) : Heeds a a₂ := by
  refine ⟨htrims.remembers.blocked.trans hremembers.blocked,
    fun key hk => htrims.remembers.ready key (hremembers.ready key hk),
    fun waiter hw key hk x d hx hpop => ?_, fun hn => htrims.heeds.nonEmpty (hran.moves.nonEmpty hn)⟩
  have hx₁ := htrims.fewer.stored hx
  cases hs : silent with
  | true =>
    obtain ⟨x', d', hx', htype⟩ := hran.shy hs key x d hx₁ hpop
    exact .inr ⟨x', d', hx', htype ▸ hpop⟩
  | false =>
    by_cases hname : Named name argv key
    · exact .inl (hnoted hs waiter (hremembers.blocked ▸ hw) key hk hname x d hx hpop)
    · refine .inr ⟨x, d, ?_, hpop⟩
      rcases hran.moves.kept key hname with hkept | ⟨hgone, -⟩
      · rw [← hkept, hx₁]
      · rw [hgone] at hx₁
        cases hx₁

theorem heeds_of_idles {m : Run Served α} (hidles : Idles Served.store m)
    (hchanges : Act.Within Changes m) : Act.Within (Behind Heeds) m := by
  intro e s w
  refine Act.sat_mono (Act.sat_and (hidles e s w) (hchanges e s w)) ?_ (fun _ _ => trivial)
  exact fun _ s' _ h => Trims.heeds ⟨Changes.remembers h.2, .of_quiet h.1⟩

theorem counted_trims (s : Served) : Trims s.app s.counted.app :=
  ⟨⟨rfl, fun _ h => h⟩, refl_of Fewer s.app.store⟩

/-- A command other than EXEC. -/
theorem executeWith_heeds_of_ne {exec : Run Served Response} (hname : name ≠ "EXEC")
    (hexec : Act.Within Changes exec) : Act.Within (Behind Heeds) (executeWith exec name argv) := by
  intro e s w
  refine sat_executeWith (fun _ _ => (counted_trims s).heeds) fun _ => ?_
  refine Act.sat_mono (memoryGate_trims e s.counted.app w) ?_ (fun _ h => h)
  intro refusal a w₁ hgate
  have hbefore : Trims s.app a := trans_of Trims (counted_trims s) hgate
  refine ⟨fun _ _ => hbefore.heeds, fun _ => ?_⟩
  refine Act.sat_mono (Act.sat_and (runWith_ran exec hname { s with app := a } w₁)
    (runWith_changes hexec e { s with app := a } w₁)) ?_ (fun _ _ => trivial)
  rintro r s₂ w₂ ⟨hran, hchanges⟩ stats -
  have hremembers : Remembers a s₂.app := Changes.remembers hchanges
  have hrest : ∀ a₃, Trims { s₂.app with stats := stats } a₃ →
      (r.silent = false → ∀ waiter ∈ s₂.app.blocked, ∀ key ∈ waiter.keys,
        Named name argv key → Noted key a₃) → Heeds s.app a₃ := by
    intro a₃ htrims hnoted
    have hcounted : Trims s₂.app a₃ :=
      ⟨⟨htrims.remembers.blocked, htrims.remembers.ready⟩, htrims.fewer⟩
    exact trans_of Heeds hbefore.heeds (heeds_of_ran hran hremembers hcounted hnoted)
  cases hs : r.silent with
  | true =>
    refine Act.sat_mono (signalWrites_trims r e _ w₂) ?_ (fun _ h => h)
    exact fun _ a₃ _ htrims => hrest a₃ htrims fun h => (by rw [hs] at h; cases h)
  | false =>
    refine Act.sat_mono (Act.sat_and (signalWrites_trims r e _ w₂) (signalWrites_notes hs _ w₂)) ?_
      (fun _ _ => trivial)
    exact fun _ a₃ _ h => hrest a₃ h.1 fun _ => h.2

namespace Transactions

theorem exec_heeds {runQueued : List (List Bytes) → Run Served (List Response)}
    (h : ∀ queued, Act.Within (Behind Heeds) (runQueued queued)) :
    Act.Within (Behind Heeds) (exec runQueued) := by
  refine Act.within_bind Act.within_get fun s => ?_
  cases s.client.transaction with
  | none => exact Act.within_pure _
  | some transaction =>
    refine Act.within_bind (onClient_within _) fun _ => ?_
    refine Act.within_bind (heeds_of_idles unwatchAll_idles unwatchAll_changes) fun _ => ?_
    refine Act.within_ite (Act.within_pure _) (Act.within_ite (Act.within_pure _) ?_)
    refine Act.within_bind (onApp_within (Act.within_modify fun a => ?_)) fun _ => ?_
    · exact Trims.heeds ⟨⟨rfl, fun _ h => h⟩, refl_of Fewer a.store⟩
    refine Act.within_bind (onClient_within _) fun _ => Act.within_bind (h _) fun _ => ?_
    exact Act.within_bind (onClient_within _) fun _ => Act.within_pure _

theorem dispatch_exec (exec : Run Served Response) (argv : List Bytes) : dispatch exec "EXEC" argv =
    if argv.length ≠ 1 then pure (.new (.wrongArity "EXEC")) else exec := rfl

end Transactions

/-- **A command heeds the parked ones**, given that EXEC does. -/
theorem executeWith_heeds {exec : Run Served Response} (hchanges : Act.Within Changes exec)
    (hexec : name = "EXEC" → Act.Within (Behind Heeds) exec) :
    Act.Within (Behind Heeds) (executeWith exec name argv) := by
  by_cases hname : name = "EXEC"
  · subst hname
    have hrun : Act.Within (Behind Heeds) (runWith exec "EXEC" argv) := by
      show Act.Within (Behind Heeds) (Transactions.dispatch exec "EXEC" argv)
      rw [Transactions.dispatch_exec]
      exact Act.within_ite (Act.within_pure _) (hexec rfl)
    refine Act.within_bind (onApp_within (Act.within_modify fun a => ?_)) fun _ => ?_
    · exact Trims.heeds ⟨⟨rfl, fun _ h => h⟩, refl_of Fewer a.store⟩
    refine Act.within_bind Act.within_get fun s => Act.within_ite (Act.within_pure _) ?_
    refine Act.within_bind (onApp_within (memoryGate_trims.mono fun _ _ => Trims.heeds)) fun refusal => ?_
    cases refusal with
    | some refusal => exact Act.within_pure _
    | none =>
      refine Act.within_bind Act.within_get fun s => Act.within_bind hrun fun r => ?_
      refine Act.within_bind (onApp_within (Act.within_modify fun a => ?_)) fun _ => ?_
      · refine Trims.heeds ?_
        dsimp only
        split <;> exact ⟨⟨rfl, fun _ h => h⟩, refl_of Fewer a.store⟩
      · exact Act.within_bind (onApp_within ((signalWrites_trims r).mono fun _ _ => Trims.heeds)) fun _ =>
          Act.within_pure _
  · exact executeWith_heeds_of_ne hname hchanges

theorem runQueuedOne_heeds (argv : List Bytes) : Act.Within (Behind Heeds) (runQueuedOne argv) :=
  executeWith_heeds (Transactions.exec_changes fun _ => Act.within_pure _) fun _ =>
    Transactions.exec_heeds fun _ => Act.within_pure _

theorem execute_heeds (name : String) (argv : List Bytes) :
    Act.Within (Behind Heeds) (execute name argv) :=
  executeWith_heeds exec_changes fun _ =>
    Transactions.exec_heeds fun queued => Act.within_mapList runQueuedOne_heeds queued

theorem dispatch_heeds (argv : List Bytes) : Act.Within (Behind Heeds) (dispatch argv) := by
  refine Act.within_ite (Act.within_pure _) ?_
  refine Act.within_bind Act.within_get fun s => Act.within_ite ?_ ?_
  · exact Act.within_bind (onClient_within _) fun _ => Act.within_pure _
  · exact Act.within_bind (execute_heeds _ _) fun _ => Act.within_pure _

theorem retry_heeds (argv : List Bytes) : Act.Within (Behind Heeds) (retry argv) := by
  refine Act.within_bind (execute_heeds _ _) fun response => ?_
  refine Act.within_bind (onApp_within (Act.within_modify fun a => ?_)) fun _ => Act.within_pure _
  exact Trims.heeds ⟨⟨rfl, fun _ h => h⟩, refl_of Fewer a.store⟩

/-! ## Parking -/

theorem runWith_waits {exec : Run Served Response} (hexec : Awake exec) (s : Served) (w : World)
    (hn : NonEmpty s.app.store) : Act.Sat (runWith exec name argv) e s w (fun r s' _ =>
      ∀ block ∈ r.block, block.keys = Blocking.waits name argv ∧
        Blocking.Absent (Blocking.waits name argv) s'.app.store) (fun _ => True) := by
  by_cases hfamily : family name = some .blocking
  · unfold runWith
    rw [hfamily]
    dsimp only
    rw [Act.sat_bind, Act.sat_get, sat_onStore]
    exact Blocking.dispatch_waits e s.app.store w hn
  · refine Act.sat_mono (runWith_awake hexec hfamily e s w) ?_ (fun _ h => h)
    intro r s' w' hnone block hb
    rw [hnone] at hb
    cases hb

/-- **A command parks for keys it has found absent**, and nothing brings one back. -/
theorem executeWith_waits {exec : Run Served Response} (hexec : Awake exec) (s : Served) (w : World)
    (hn : NonEmpty s.app.store) : Act.Sat (executeWith exec name argv) e s w (fun r s' _ =>
      ∀ block ∈ r.block, block.keys = Blocking.waits name argv ∧
        Blocking.Absent (Blocking.waits name argv) s'.app.store) (fun _ => True) := by
  refine sat_executeWith (fun _ _ _ hb => (by cases hb)) fun _ => ?_
  refine Act.sat_mono (memoryGate_trims e s.counted.app w) ?_ (fun _ h => h)
  intro refusal a w₁ hgate
  refine ⟨fun _ _ _ hb => (by cases hb), fun _ => ?_⟩
  refine Act.sat_mono (runWith_waits hexec { s with app := a } w₁ (hgate.heeds.nonEmpty hn)) ?_
    (fun _ h => h)
  intro r s₂ w₂ hwaits stats _
  refine Act.sat_mono (signalWrites_trims r e _ w₂) ?_ (fun _ h => h)
  intro _ a' w' htrims block hb
  obtain ⟨hkeys, habsent⟩ := hwaits block hb
  refine ⟨hkeys, fun k hk => ?_⟩
  rcases htrims.fewer k with h | h
  · exact h.trans (habsent k hk)
  · exact h

end requests

end Klyro
