import Klyro.Trends.NonEmpty
import Klyro.Types.Zset.Order

/-!
# Sorted sets stay sorted

* `Ordered` — no sorted set gets out of order.
* `zincrby_ordered` — `ZINCRBY` files its sum before it looks at it; what is not finite is taken out
  again.
* `runWith_ordered` — the commands that write sorted sets.
* `happenings_zsets` — every sorted set, after any of them.
-/

set_option autoImplicit false

namespace Klyro

open Store Keyspace Served

/-! ## The invariant -/

/-- A sorted set is sorted. -/
def SortedZset (x : Value) : Prop := ∀ z, x = .zset z → z.Sorted

/-- No sorted set gets out of order. -/
abbrev Ordered : Store → Store → Prop := Keeping SortedZset

theorem sortedZset_zset {z : Zset} : SortedZset (.zset z) ↔ z.Sorted :=
  ⟨fun h => h z rfl, fun h _ heq => by cases heq; exact h⟩

theorem sorted_of_liveAt {s : Store} {t : SystemTime} {key : Bytes} {z : Zset} {d : Option SystemTime}
    (hs : Holds SortedZset s) (h : s.view.liveAt t key = some (.zset z, d)) : z.Sorted :=
  sortedZset_zset.mp (hs.liveAt h)

/-- A use of a sorted set that leaves a sorted set. -/
abbrev Sorting : Zset → Zset → Prop := Leaving .zset SortedZset

theorem sorted_none : SortedZset (.zset Variant.zset.empty) := sortedZset_zset.mpr Zset.sorted_empty

theorem sorting_of {z z' : Zset} (h : z.Sorted → z'.Sorted) : Sorting z z' := fun hz =>
  sortedZset_zset.mpr (h (sortedZset_zset.mp hz))

/-! ## Sorted set commands -/

namespace Zsets

variable {argv : List Bytes}

/-- What takes entries away leaves a sorted set. -/
theorem sorting_of_sublist {z z' : Zset} (h : z'.entries.Sublist z.entries) : Sorting z z' :=
  sorting_of fun hz => Zset.sorted_of_sublist hz h

theorem take_ordered {α : Type} {key : Bytes} {g : Zset → α × Zset} {f : Option α → Reply}
    (hg : ∀ z, (g z).2.entries.Sublist z.entries) : Act.WithinE Ordered (do
      checkType key .zset
      let taken ← Store.writeZset key (Act.state g)
      Store.deleteIfEmpty key
      return f taken : Cmd Reply) := by
  refine Act.withinE_bind (withinE_checkType _ _) fun _ => ?_
  refine Act.withinE_bind (Act.withinE_lift (write_keeping (fun _ z _ => ?_) _)) fun _ => ?_
  · exact sorting_of_sublist (hg z)
  · exact Act.withinE_bind (Act.withinE_lift (deleteIfEmpty_keeping _)) fun _ => Act.withinE_pure _

/-- What is read as a score is a number. -/
theorem isNan_parseF64 {bytes : Bytes} {score : F64} (h : parseF64 bytes = some score) :
    score.isNan = false := by
  unfold parseF64 at h
  rw [Option.filter_eq_some_iff] at h
  simpa using h.2

theorem sorted_addPairs : ∀ (pairs : List (F64 × Bytes)) {z : Zset},
    (∀ p ∈ pairs, p.1.isNan = false) → z.Sorted → (addPairs pairs z).2.Sorted
  | [], _, _, hz => hz
  | p :: pairs, _, hpairs, hz =>
    sorted_addPairs pairs (fun q hq => hpairs q (List.mem_cons_of_mem p hq))
      (Zset.sorted_add hz (hpairs p List.mem_cons_self))

/-- The scores of a request are numbers. -/
theorem sat_parsePairs_numbers (e : Env) (s : Store) (w : World) (pairs : List (Bytes × Bytes)) :
    Act.SatE (parsePairs pairs) e s w
      (fun r s' _ => s' = s ∧ ∀ p ∈ r, p.1.isNan = false) (fun _ s' _ => s' = s) (fun _ => True) := by
  induction pairs with
  | nil => exact ⟨rfl, fun p hp => by cases hp⟩
  | cons p pairs ih =>
    obtain ⟨score, member⟩ := p
    unfold parsePairs floatArg
    cases hparse : parseF64 score with
    | none => exact rfl
    | some number =>
      simp only [Act.satE_bind, Act.satE_pure]
      show Act.SatE (parsePairs pairs) e s w _ _ _
      refine Act.satE_mono ih ?_ (fun _ _ _ h => h) (fun _ h => h)
      rintro r s' w' ⟨rfl, hr⟩
      refine ⟨rfl, fun q hq => ?_⟩
      rcases List.mem_cons.mp hq with rfl | hq
      · exact isNan_parseF64 hparse
      · exact hr q hq

theorem zadd_ordered (config : Config) : Act.WithinE Ordered (zadd config argv) := by
  unfold zadd
  refine Act.withinE_bind (withinE_minArgs _ _) fun _ => withinE_guard (withinE_guard ?_)
  refine Act.withinE_iff.mpr fun e s w => ?_
  dsimp only
  rw [Act.satE_bind]
  refine Act.satE_mono (sat_parsePairs_numbers e s w _) ?_ ?_ (fun _ h => h)
  · rintro pairs s' w' ⟨rfl, hpairs⟩
    have hrest : Act.WithinE Ordered (do
        checkType (arg argv 1) .zset
        let added ← Store.getOrCreateZset (arg argv 1) (Act.state (addPairs pairs))
        let added ← expect "type checked" added
        return .integer added : Cmd Reply) := by
      refine Act.withinE_bind (withinE_checkType _ _) fun _ => ?_
      refine Act.withinE_bind (Act.withinE_lift (getOrCreate_keeping sorted_none (fun _ z _ => ?_) _)) fun _ => ?_
      · exact sorting_of (sorted_addPairs pairs hpairs)
      · exact Act.withinE_bind (withinE_expect _ _) fun _ => Act.withinE_pure _
    exact Act.withinE_iff.mp hrest e s' w'
  · rintro r s' w' rfl
    exact refl_of Ordered s'

/-- The member that was added is all that may be out of order. -/
theorem sorted_undone {z : Zset} (hz : z.Sorted) (member : Bytes) (score : F64) :
    ((z.add member score).2.rem member).2.Sorted := by
  have hothers : Zset.Sorted ⟨z.others member⟩ := Zset.sorted_of_sublist hz (Zset.others_sublist z member)
  have hnone : (⟨z.others member⟩ : Zset).findIndex member = none := by
    refine Zset.findIndex_none ?_
    rw [List.mem_map]
    rintro ⟨p, hp, hm⟩
    exact ((Zset.mem_others hz.members).mp hp).2 hm
  have hagain : (⟨z.others member⟩ : Zset).others member = z.others member := by
    rw [Zset.others_eq, hnone]
  have hadd : (z.add member score).2 = ((⟨z.others member⟩ : Zset).add member score).2 := by
    have hentries := Zset.entries_add ⟨z.others member⟩ member score
    rw [hagain, ← Zset.entries_add] at hentries
    exact congrArg Zset.mk hentries.symm
  rw [hadd, rem_add score hnone]
  exact hothers

/-- **`ZINCRBY`** leaves a sorted set, whatever the sum is. -/
theorem zincrby_ordered : Act.WithinE Ordered (zincrby argv) := by
  refine Act.withinE_iff.mpr fun e s w => ?_
  refine sat_zincrby (fun _ _ => trivial) (fun _ _ _ _ hq _ => keeping_of_quiet hq) ?_
  intro increment z d s₁ s₂ w₁ w₂ _ _ _ hview₁ _ hfound _ hview₂ _
  have hz : Holds SortedZset s → z.Sorted := by
    intro hs
    rcases hfound with hlive | ⟨-, rfl, -⟩
    · exact sorted_of_liveAt (keeping_of_expire hview₁ hs) hlive
    · exact Zset.sorted_empty
  refine ⟨fun hfinite => keeping_of_update hview₂ fun hs _ _ hnew => ?_,
    fun _ => ⟨fun _ => trivial, fun _ s' w₃ _ _ _ hview' _ => keeping_of_update hview' ?_⟩⟩
  · cases hnew
    exact sortedZset_zset.mpr (Zset.sorted_add (hz hs) (isNan_of_isFinite hfinite))
  · intro hs v d' hnew
    have hcell := eq_of_unlessEmpty hnew
    split at hcell
    · cases hcell
    · cases hcell
      exact sortedZset_zset.mpr (sorted_undone (hz hs) _ _)

/-- Sorted set commands. -/
theorem arm_ordered {config : Config} {name : String} {handler : Handler}
    (h : (name, handler) ∈ arms config) (argv : List Bytes) : Act.WithinE Ordered (handler argv) := by
  have hreads : ∀ {m : Cmd Reply}, Act.WithinE Glances m → Act.WithinE Ordered m := fun hm =>
    Act.Within.mono hm fun _ _ => Lookups.of_glances
  simp only [arms, List.mem_cons, Prod.mk.injEq, List.not_mem_nil, or_false] at h
  rcases h with ⟨rfl, rfl⟩ | ⟨rfl, rfl⟩ | ⟨rfl, rfl⟩ | ⟨rfl, rfl⟩ | ⟨rfl, rfl⟩ | ⟨rfl, rfl⟩ |
    ⟨rfl, rfl⟩ | ⟨rfl, rfl⟩ | ⟨rfl, rfl⟩ | ⟨rfl, rfl⟩ | ⟨rfl, rfl⟩ | ⟨rfl, rfl⟩ | ⟨rfl, rfl⟩ |
    ⟨rfl, rfl⟩ | ⟨rfl, rfl⟩ | ⟨rfl, rfl⟩ | ⟨rfl, rfl⟩
  · exact zadd_ordered config
  · exact hreads (answer_glances (withinE_exactArgs _ _) (read_glances _ _))
  · exact hreads (answer_glances (withinE_minArgs _ _) (read_glances _ _))
  · exact zincrby_ordered
  · exact Act.withinE_bind (withinE_minArgs _ _) fun _ => take_ordered (sublist_removeMembers _)
  · exact hreads (answer_glances (withinE_exactArgs _ _) (read_glances _ _))
  · exact hreads (answer_glances (withinE_exactArgs _ _) (read_glances _ _))
  · exact hreads (answer_glances (withinE_exactArgs _ _) (read_glances _ _))
  · exact hreads (zrange_glances _ _)
  · exact hreads (zrange_glances _ _)
  · exact hreads (zrangebyscore_glances _ _)
  · exact hreads (zrangebyscore_glances _ _)
  · exact hreads zcount_glances
  · exact Act.withinE_bind (withinE_exactArgs _ _) fun _ =>
      Act.withinE_bind (scoreBounds_within _ _) fun _ => take_ordered fun _ => List.filter_sublist
  · exact Act.withinE_bind (withinE_exactArgs _ _) fun _ =>
      Act.withinE_bind (withinE_intArg _) fun _ => Act.withinE_bind (withinE_intArg _) fun _ =>
      take_ordered fun z => sublist_removeRangeByRank z _ _
  · exact Act.withinE_bind (withinE_minArgs _ _) fun _ =>
      Act.withinE_bind (Lists.popCount_within _) fun _ => take_ordered fun z => sublist_pop z _ _
  · exact Act.withinE_bind (withinE_minArgs _ _) fun _ =>
      Act.withinE_bind (Lists.popCount_within _) fun _ => take_ordered fun z => sublist_pop z _ _

end Zsets

/-! ## The pops that may block -/

namespace Blocking

variable {argv : List Bytes}

theorem popOneScored_ordered (key : Bytes) (edge : Edge) (count : Nat) :
    Act.Within Ordered (popOneScored key edge count) := by
  refine Act.within_bind (write_keeping (fun _ z _ => ?_) key) fun popped => ?_
  · exact Zsets.sorting_of_sublist (Zsets.sublist_pop z count _)
  · exact Act.within_ite (Act.within_pure _)
      (Act.within_bind (deleteIfEmpty_keeping key) fun _ => Act.within_pure _)

theorem popFirstZset_ordered (edge : Edge) (keys : List Bytes) :
    Act.WithinE Ordered (popFirstZset edge keys) := by
  induction keys with
  | nil => exact Act.withinE_pure _
  | cons key keys ih =>
    refine Act.withinE_bind (withinE_checkType _ _) fun _ => ?_
    refine Act.withinE_bind (Act.withinE_lift (popOneScored_ordered _ _ _)) fun popped => ?_
    cases popped with
    | cons p _ => exact Act.withinE_pure _
    | nil => exact ih

theorem mpopZsets_ordered (edge : Edge) (count : Nat) (keys : List Bytes) :
    Act.WithinE Ordered (mpopZsets edge count keys) := by
  induction keys with
  | nil => exact Act.withinE_pure _
  | cons key keys ih =>
    refine Act.withinE_bind (withinE_checkType _ _) fun _ => ?_
    refine Act.withinE_bind (Act.withinE_lift (popOneScored_ordered _ _ _)) fun popped => ?_
    exact Act.withinE_ite (Act.withinE_pure _) ih

theorem bzpop_ordered (name : String) (edge : Edge) (client : Client) :
    Act.WithinE Ordered (bzpop name edge client argv) :=
  Act.withinE_bind (withinE_minArgs _ _) fun _ => Act.withinE_bind (parseTimeout_within _) fun _ =>
    Act.withinE_bind (popFirstZset_ordered _ _) fun _ => Act.withinE_pure _

theorem multi_ordered {name : String} {pos : Nat} {f : MultiKey → Option Reply → Response} :
    Act.WithinE Ordered (do
      let request ← parseMultiKey argv pos name
      let edge ← orThrow syntaxError (Edge.parse request.direction)
      let found ← mpopZsets edge request.count request.keys
      return f request found) :=
  Act.withinE_bind (parseMultiKey_within _ _) fun _ => Act.withinE_bind (withinE_orThrow _ _) fun _ =>
    Act.withinE_bind (mpopZsets_ordered _ _ _) fun _ => Act.withinE_pure _

/-- The pops of sorted sets among the blocking commands. -/
theorem arm_ordered {name : String} {handler : Client → List Bytes → Cmd Response}
    (h : (name, handler) ∈ arms) (hname : name ∈ ["BZPOPMIN", "BZPOPMAX", "ZMPOP", "BZMPOP"])
    (client : Client) (argv : List Bytes) : Act.WithinE Ordered (handler client argv) := by
  simp only [arms, List.mem_cons, Prod.mk.injEq, List.not_mem_nil, or_false] at h
  rcases h with ⟨rfl, rfl⟩ | ⟨rfl, rfl⟩ | ⟨rfl, rfl⟩ | ⟨rfl, rfl⟩ | ⟨rfl, rfl⟩ | ⟨rfl, rfl⟩ |
    ⟨-, rfl⟩ | ⟨-, rfl⟩ | ⟨-, rfl⟩ | ⟨-, rfl⟩
  iterate 6 exact absurd hname (by decide)
  · exact bzpop_ordered _ _ _
  · exact bzpop_ordered _ _ _
  · exact Act.withinE_bind (withinE_minArgs _ _) fun _ => multi_ordered
  · exact Act.withinE_bind (withinE_minArgs _ _) fun _ =>
      Act.withinE_bind (parseTimeout_within _) fun _ => multi_ordered

end Blocking

/-! ## Requests -/

/-- The commands that write sorted sets. -/
def zsetWrites : List String :=
  ["ZADD", "ZINCRBY", "ZREM", "ZPOPMIN", "ZPOPMAX", "ZREMRANGEBYRANK", "ZREMRANGEBYSCORE", "ZMPOP",
    "BZPOPMIN", "BZPOPMAX", "BZMPOP"]

theorem family_zsetWrites {name : String} (h : name ∈ zsetWrites) : family name = some .zset ∨
    family name = some .blocking ∧ name ∈ ["BZPOPMIN", "BZPOPMAX", "ZMPOP", "BZMPOP"] := by
  simp only [zsetWrites, List.mem_cons, List.not_mem_nil, or_false] at h
  rcases h with rfl | rfl | rfl | rfl | rfl | rfl | rfl | rfl | rfl | rfl | rfl
  all_goals decide +kernel

theorem runWith_ordered (exec : Run Served Response) {name : String} (hname : name ∈ zsetWrites)
    (argv : List Bytes) : Act.Within (Behind (Following Ordered)) (runWith exec name argv) := by
  unfold runWith
  rcases family_zsetWrites hname with h | ⟨h, hblocking⟩
  · rw [h]
    refine Act.within_bind Act.within_get fun s => ?_
    refine Act.within_bind (onApp_within (onStore_within (answer_within ?_))) fun _ => Act.within_pure _
    unfold Arms.run
    cases harm : (Zsets.arms s.app.config).lookup name with
    | none => exact Act.withinE_pure _
    | some handler => exact Zsets.arm_ordered (mem_of_lookup harm) argv
  · rw [h]
    refine Act.within_bind Act.within_get fun s => onApp_within (onStore_within ?_)
    have hhandle : Act.WithinE Ordered (Blocking.handle s.client name argv) := by
      unfold Blocking.handle
      cases harm : Blocking.arms.lookup name with
      | none => exact Act.withinE_pure _
      | some handler => exact Blocking.arm_ordered (mem_of_lookup harm) hblocking s.client argv
    refine Act.within_bind hhandle fun r => ?_
    cases r with
    | ok _ => exact Act.within_pure _
    | error _ => exact Act.within_pure _

/-! ## Runs -/

/-- Only the commands that write sorted sets run, in requests or in the queue of an EXEC; there is
also housekeeping. -/
def Happening.OnZsets : Happening → Prop
  | .event (.request _ argv) => toUpper (arg argv 0) ∈ zsetWrites
  | .event (.retry _ argv) => toUpper (arg argv 0) ∈ zsetWrites
  | .event _ => True
  | .queue _ queued => ∀ argv ∈ queued, toUpper (arg argv 0) ∈ zsetWrites
  | .load .. => False

theorem step_ordered {happening : Happening} (h : happening.OnZsets) :
    Act.Within (Following Ordered) happening.step := by
  have hend : ∀ {α : Type} {m : Run App α}, Act.Within (Following Ordered) m →
      Act.Within (Following Ordered) (do
        let _ ← m
        pure ()) := fun h => Act.within_bind h fun _ => Act.within_pure _
  have hexecute : ∀ (exec : Run Served Response) {argv : List Bytes},
      toUpper (arg argv 0) ∈ zsetWrites → Act.Within (Behind (Following Ordered))
        (executeWith exec (toUpper (arg argv 0)) argv) :=
    fun exec _ hname => executeWith_within evict_keeping (runWith_ordered exec hname _)
  cases happening with
  | event happened =>
    cases happened with
    | request client argv =>
      refine hend (serving_within client (Act.within_ite (Act.within_pure _) ?_))
      refine Act.within_bind Act.within_get fun s => Act.within_ite ?_ ?_
      · exact Act.within_bind (onClient_within _) fun _ => Act.within_pure _
      · exact Act.within_bind (hexecute _ h) fun _ => Act.within_pure _
    | retry client argv =>
      refine hend (serving_within client (Act.within_bind (hexecute _ h) fun _ => ?_))
      exact Act.within_bind (onApp_within (aside_within fun _ => ⟨rfl, rfl⟩)) fun _ => Act.within_pure _
    | eviction => exact hend (makeRoom_within evict_keeping)
    | tick => exact tick_keeping fun m z heq => by cases heq
    | save => exact hend save_keeping
  | queue client queued =>
    refine hend (serving_within client ?_)
    have hqueue : ∀ argv ∈ queued, Act.Within (Behind (Following Ordered)) (runQueuedOne argv) :=
      fun argv hargv => hexecute _ (h argv hargv)
    clear h
    induction queued with
    | nil => exact Act.within_pure []
    | cons argv queued ih =>
      have hrest := ih fun argv hargv => hqueue argv (List.mem_cons_of_mem _ hargv)
      exact Act.within_bind (hqueue argv List.mem_cons_self) fun _ =>
        Act.within_bind hrest fun _ => Act.within_pure _
  | load files persist maxTerms => exact h.elim

/-- **Sorted sets.**  Whatever commands write them, every sorted set of a server that starts with
none out of order ascends by score and member, has no member twice and no NaN, and its operations
answer as they should. -/
theorem happenings_zsets (happenings : List Happening) (h : ∀ happening ∈ happenings, happening.OnZsets)
    (e : Env) (a : App) (w : World) (ha : ∀ k z d, a.store.view k = some (.zset z, d) → z.Sorted) :
    Act.Sat (Act.forList Happening.step happenings) e a w
      (fun _ a' _ => ∀ k z d, a'.store.view k = some (.zset z, d) → z.Sorted ∧ z.Answers)
      (fun _ => True) := by
  have hrun : ∀ {happenings : List Happening}, (∀ happening ∈ happenings, happening.OnZsets) →
      Act.Within (Following Ordered) (Act.forList Happening.step happenings) := by
    intro happenings
    induction happenings with
    | nil => exact fun _ => Act.within_pure _
    | cons happening happenings ih =>
      intro h
      exact Act.within_bind (step_ordered (h happening List.mem_cons_self)) fun _ =>
        ih fun other hother => h other (List.mem_cons_of_mem _ hother)
  have hstart : Holds SortedZset a.store := by
    rintro k v d hv z rfl
    exact ha k z d hv
  refine Act.sat_mono (hrun h e a w) (fun _ a' _ hkeeping k z d hz => ?_) (fun _ h => h)
  have hsorted : z.Sorted := hkeeping hstart k _ d hz z rfl
  exact ⟨hsorted, hsorted.answers⟩

/-- A ZADD with an infinite score and a ZINCRBY that would make it a NaN. -/
def infiniteScore (client : Client) : List Happening :=
  [.event (.request client [Text.bytes "ZADD", [122], Text.bytes "inf", [97]]),
    .event (.request client [Text.bytes "ZINCRBY", [122], Text.bytes "-inf", [97]])]

theorem infiniteScore_onZsets (client : Client) :
    ∀ happening ∈ infiniteScore client, happening.OnZsets := by
  intro happening hhappening
  simp only [infiniteScore, List.mem_cons, List.not_mem_nil, or_false] at hhappening
  rcases hhappening with rfl | rfl
  · show toUpper (Text.bytes "ZADD") ∈ zsetWrites
    decide +kernel
  · show toUpper (Text.bytes "ZINCRBY") ∈ zsetWrites
    decide +kernel

section instances

attribute [local irreducible] Act.Sat

theorem happenings_zsets_infiniteScore :
    Act.Sat (Act.forList Happening.step (infiniteScore { id := 1, addr := "", created := 0 }))
      (stillEnv 5) {} {} (fun _ a' _ => ∀ k z d, a'.store.view k = some (.zset z, d) →
        z.Sorted ∧ z.Answers) (fun _ => True) :=
  happenings_zsets (infiniteScore { id := 1, addr := "", created := 0 }) (infiniteScore_onZsets _)
    (stillEnv 5) {} {} fun _ _ _ hz => nomatch hz

end instances

end Klyro
