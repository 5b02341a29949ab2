import Klyro.Persist.Install
import Klyro.Trends.Keeping

/-!
# Empty collections do not exist

* `Firm` — no empty collection appears.
* `runWith_firm` — every command, by what it may do to the keyspace.
* `Besides key` — a relation between keyspaces: only `key` is written.
* `install_firm`, `load_firm` — an entry of a dump may bring an empty collection, which the last
  step of its installation takes away.
* `Happening`, `step` — the events of a server, the queue of an EXEC up to any of its commands, and
  the load of any file.
-/

set_option autoImplicit false

namespace Klyro

open Store Keyspace Served

/-- No empty collection appears. -/
abbrev Firm : Store → Store → Prop := Keeping fun x => x.isEmptyCollection = false

theorem tick_firm : Act.Within (Following Firm) App.tick := tick_keeping fun _ => rfl

/-! ## Commands -/

theorem runWith_firm (exec : Run Served Response) (name : String) (argv : List Bytes)
    (hexec : name = "EXEC" → Act.Within (Behind (Following Firm)) exec) :
    Act.Within (Behind (Following Firm)) (runWith exec name argv) := by
  by_cases hname : name = "EXEC"
  · subst hname
    exact Transactions.within hexec
  · intro e s w
    exact Act.sat_mono (runWith_ran exec hname s w) (fun _ _ _ h => h.moves.nonEmpty)
      (fun _ _ => trivial)

/-! ## Loading -/

/-- Only `key` is written. -/
def Besides (key : Bytes) (s s' : Store) : Prop := ∀ k ≠ key, s'.view k = s.view k

instance {key : Bytes} : IsPreorder Store (Besides key) where
  refl _ _ _ := rfl
  trans _ _ _ h h' k hk := (h' k hk).trans (h k hk)

theorem besides_of_update {s s' : Store} {key : Bytes} {x : Option (Value × Option SystemTime)}
    (hview : s'.view = Function.update s.view key x) : Besides key s s' := by
  intro k hk
  rw [hview, Function.update_of_ne hk]

theorem besides_of_expire {s s' : Store} {key : Bytes} {t : SystemTime}
    (hview : s'.view = s.view.expire t key) : Besides key s s' :=
  besides_of_update hview

theorem getOrCreate_besides {τ α : Type} (V : Variant τ) (key : Bytes) (use : Run τ α) :
    Act.Within (Besides key) (getOrCreate V key use) := by
  intro e s w
  refine sat_getOrCreate (fun _ _ => trivial) (fun _ _ _ _ _ _ _ hview _ => besides_of_expire hview) ?_
  intro v d s' w' _ _ hview _
  refine Act.sat_mono (Act.sat_true use) ?_ (fun _ _ => trivial)
  intro _ v' _ _
  exact trans_of (Besides key) (besides_of_update hview) (besides_of_update view_setValue)

theorem installValue_besides (key : Bytes) (value : LoadedValue) :
    Act.Within (Besides key) (LoadedEntry.installValue key value) := by
  have hend : ∀ {α : Type} {m : Run Store α}, Act.Within (Besides key) m →
      Act.Within (Besides key) (do
        let _ ← m
        pure ()) := fun h => Act.within_bind h fun _ => Act.within_pure _
  cases value with
  | str v =>
    exact fun _ _ _ => Act.sat_mono (setString_spec key v) (fun _ _ _ h => besides_of_update h.2.1)
      (fun _ _ => trivial)
  | list items => exact hend (getOrCreate_besides _ key _)
  | set members => exact hend (getOrCreate_besides _ key _)
  | hash pairs => exact hend (getOrCreate_besides _ key _)
  | zset pairs => exact hend (getOrCreate_besides _ key _)
  | memory m =>
    refine hend fun _ _ _ => Act.sat_mono (createMemory_spec key m) ?_ (fun _ _ => trivial)
    rintro _ s' _ ⟨-, -, -, hview⟩
    split at hview
    · exact besides_of_expire hview
    · exact besides_of_update hview

theorem addDuration_within {P : Store → Store → Prop} [IsPreorder Store P] (t : SystemTime)
    (d : Duration) : Act.Within P (addDuration t d) := by
  unfold addDuration
  exact Act.within_ite (Act.within_pure _) (Act.within_panic _)

theorem installExpiry_besides (key : Bytes) (expireAt : Int) :
    Act.Within (Besides key) (LoadedEntry.installExpiry key expireAt) := by
  have hsets : ∀ t d, Act.Within (Besides key) (do
      let deadline ← addDuration t d
      let _ ← Store.setExpireAt key (some deadline)
      pure ()) := by
    intro t d
    refine Act.within_bind (addDuration_within t d) fun deadline => ?_
    refine Act.within_bind (fun _ _ _ => ?_) fun _ => Act.within_pure _
    exact Act.sat_mono (setExpireAt_spec key _) (fun _ _ _ h => besides_of_update h.2.2.1)
      (fun _ _ => trivial)
  exact Act.within_ite (hsets _ _) (Act.within_pure _)

/-- What is installed at a key is looked at once more, and an empty collection goes. -/
theorem install_firm (entry : LoadedEntry) : Act.Within Firm entry.install := by
  have hwrites : Act.Within (Besides entry.key) (do
      LoadedEntry.installValue entry.key entry.value
      LoadedEntry.installExpiry entry.key entry.expireAt) :=
    Act.within_bind (installValue_besides _ _) fun _ => installExpiry_besides _ _
  intro e s w
  unfold LoadedEntry.install
  rw [← bind_assoc, Act.sat_bind]
  refine Act.sat_mono (hwrites e s w) ?_ (fun _ h => h)
  intro _ s₁ w₁ hbesides
  refine Act.sat_mono (deleteIfEmpty_spec entry.key) ?_ (fun _ _ => trivial)
  rintro _ s₂ w₂ ⟨-, hview, -⟩ hs k x d hx
  rw [hview] at hx
  by_cases hk : k = entry.key
  · rw [hk, Function.update_self] at hx
    exact not_empty_of_unlessEmpty hx
  · rw [Function.update_of_ne hk, hbesides k hk] at hx
    exact hs k x d hx

/-- **Loading**, whatever the file says. -/
theorem load_firm (persist : Persist) (maxTerms : Nat) : Act.Within Firm (persist.load maxTerms) := by
  refine Act.within_bind (Act.within_of_same fun _ _ _ => rfl) fun files => ?_
  cases files.lookup persist.path with
  | none => exact Act.within_pure _
  | some content =>
    refine Act.within_bind ?_ fun loaded => ?_
    · exact Act.within_zoom (R := fun _ _ => True) (fun _ _ _ => Act.sat_true _) fun s _ _ =>
        refl_of Firm s
    · cases loaded with
      | ok entries => exact Act.within_forList install_firm entries
      | error _ => exact Act.within_pure _

/-! ## Runs -/

/-- What can happen to the keyspace of a server. -/
inductive Happening where
  /-- A request, a retry, an eviction, a tick or a save. -/
  | event (happened : Event)
  /-- The queue of an EXEC, up to one of its commands. -/
  | queue (client : Client) (queued : List (List Bytes))
  /-- A load from the disk, whatever is on it by then. -/
  | load (files : Assoc String Bytes) (persist : Persist) (maxTerms : Nat)

/-- The disk as somebody left it. -/
def leaveFiles (files : Assoc String Bytes) : Run App Unit := fun _ a w => .done () a { w with files }

/-- What happens. -/
def Happening.step : Happening → Run App Unit
  | .event happened => happened.step
  | .queue client queued => do
    let _ ← serving client (Act.mapList runQueuedOne queued)
    pure ()
  | .load files persist maxTerms => do
    leaveFiles files
    App.onStore (persist.load maxTerms)

theorem step_firm (happening : Happening) : Act.Within (Following Firm) happening.step := by
  have hend : ∀ {α : Type} {m : Run App α}, Act.Within (Following Firm) m →
      Act.Within (Following Firm) (do
        let _ ← m
        pure ()) := fun h => Act.within_bind h fun _ => Act.within_pure _
  cases happening with
  | event happened =>
    cases happened with
    | request client argv =>
      exact hend (serving_within client (dispatch_within evict_keeping runWith_firm argv))
    | retry client argv =>
      exact hend (serving_within client (retry_within evict_keeping runWith_firm argv))
    | eviction => exact hend (makeRoom_within evict_keeping)
    | tick => exact tick_firm
    | save => exact hend save_keeping
  | queue client queued =>
    exact hend (serving_within client
      (Act.within_mapList (runQueuedOne_within evict_keeping runWith_firm) queued))
  | load files persist maxTerms =>
    exact Act.within_bind (Act.within_of_same fun _ _ _ => rfl) fun _ =>
      onStore_within (load_firm persist maxTerms)

theorem run_firm (happenings : List Happening) :
    Act.Within (Following Firm) (Act.forList Happening.step happenings) :=
  Act.within_forList step_firm happenings

/-- **Empty collections do not exist.**  Whatever a server that starts with an empty keyspace runs,
retries, evicts, sweeps and loads, no key holds a collection without an element. -/
theorem happenings_nonEmpty (happenings : List Happening) (e : Env) (a : App) (w : World)
    (started : Instant) :
    Act.Sat (Act.forList Happening.step happenings) e
      { a with store := { started := started } } w (fun _ a' _ => NonEmpty a'.store)
      (fun _ => True) := by
  refine Act.sat_mono (run_firm happenings e _ w) (fun _ a' _ h => h ?_) (fun _ h => h)
  intro k x d hx
  cases hx

/-- A dump says that `k` is a list of no elements: it is loaded, and `k` is not there. -/
example :
    Act.Sat (Happening.step (.load ((∅ : Assoc String Bytes).insert "dump"
        (magicBytes ++ Record.bytes ⟨[107], -1, .list []⟩)) ⟨"dump", none⟩ 8))
      (stillEnv 5) {} {} (fun _ a' w' => w'.files.size = 1 ∧ a'.store.map.pairs = [])
      (fun _ => False) := by
  decide +kernel

end Klyro
