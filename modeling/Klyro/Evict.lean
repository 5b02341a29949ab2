import Klyro.App
import Klyro.Store.Runs

/-!
# What an eviction pass takes (`evict.rs`)

* `Took` — what a pass did: the keys it took, each with the reading of the clock at which its
  sample was drawn, and that nothing else of the keyspace changed.
* `sample_live`, `mem_of_choose` — a victim is one of the sampled keys, and those were live.
* `evictLoop_took`, `makeRoom_took` — one pass over any readings of the allocator and any draws.
-/

set_option autoImplicit false

namespace Klyro

open Store Keyspace

/-- **What an eviction pass did.**  `victims` lists the keys it took, in order, each with the number
of the clock reading of its sample. -/
structure Took (e : Env) (a : App) (w : World) (victims : List (Bytes × Nat)) (a' : App) (w' : World) :
    Prop where
  /-- The victims are gone, every other key has its value and its deadline. -/
  view : ∀ k, a'.store.view k = if k ∈ victims.map Prod.fst then none else a.store.view k
  /-- Nothing is taken twice. -/
  nodup : (victims.map Prod.fst).Nodup
  /-- Each victim was live when it was sampled. -/
  live : ∀ p ∈ victims, w.ticks ≤ p.2 ∧ p.2 < w'.ticks ∧
    (a.store.view.liveAt (e.clock p.2) p.1).isSome = true
  /-- A `volatile-*` policy takes only keys with a deadline. -/
  volatile : a.config.maxmemoryPolicy.volatileOnly = true →
    ∀ p ∈ victims, hasDeadline a.store.view p.1 = true
  /-- `noeviction` takes nothing. -/
  noeviction : a.config.maxmemoryPolicy = .noEviction → victims = []
  /-- Each victim is counted once. -/
  counted : a'.stats.evictedKeys = a.stats.evictedKeys + victims.length
  /-- The watchers of the victims, and only they, are told. -/
  told : ∀ k, a'.watch.version k =
    (a.watch.version k).map fun v => if k ∈ victims.map Prod.fst then v + 1 else v
  config : a'.config = a.config
  later : w.ticks ≤ w'.ticks

variable {e : Env} {a a' a'' : App} {w w' w'' : World}

theorem Took.nil (hs : a'.store.view = a.store.view) (hstats : a'.stats = a.stats)
    (hwatch : a'.watch = a.watch) (hconfig : a'.config = a.config) (hw : w.ticks ≤ w'.ticks) :
    Took e a w [] a' w' where
  view k := by rw [hs]; rfl
  nodup := List.nodup_nil
  live p hp := by cases hp
  volatile _ p hp := by cases hp
  noeviction _ := rfl
  counted := by rw [hstats]; rfl
  told k := by rw [hwatch]; simp
  config := hconfig
  later := hw

/-- What a later part of a pass takes had not been taken yet. -/
theorem Took.notMem {first rest : List (Bytes × Nat)} (h : Took e a w first a' w')
    (h' : Took e a' w' rest a'' w'') {p : Bytes × Nat} (hp : p ∈ rest) : p.1 ∉ first.map Prod.fst := by
  intro hmem
  have hlive := (h'.live p hp).2.2
  unfold liveAt at hlive
  rw [h.view p.1, if_pos hmem] at hlive
  cases hlive

theorem Took.trans {first rest : List (Bytes × Nat)} (h : Took e a w first a' w')
    (h' : Took e a' w' rest a'' w'') : Took e a w (first ++ rest) a'' w'' where
  view k := by
    rw [h'.view, h.view, List.map_append]
    by_cases hrest : k ∈ rest.map Prod.fst
    · rw [if_pos hrest, if_pos (List.mem_append_right _ hrest)]
    · rw [if_neg hrest]
      simp only [List.mem_append, hrest, or_false]
  nodup := by
    rw [List.map_append, List.nodup_append]
    refine ⟨h.nodup, h'.nodup, ?_⟩
    rintro k hk _ hk' rfl
    obtain ⟨p, hp, rfl⟩ := List.mem_map.mp hk'
    exact h.notMem h' hp hk
  live p hp := by
    rcases List.mem_append.mp hp with hfirst | hrest
    · obtain ⟨hle, hlt, hlive⟩ := h.live p hfirst
      exact ⟨hle, Nat.lt_of_lt_of_le hlt h'.later, hlive⟩
    · obtain ⟨hle, hlt, hlive⟩ := h'.live p hrest
      refine ⟨Nat.le_trans h.later hle, hlt, ?_⟩
      unfold liveAt at hlive ⊢
      rwa [h.view p.1, if_neg (h.notMem h' hrest)] at hlive
  volatile hpolicy p hp := by
    rcases List.mem_append.mp hp with hfirst | hrest
    · exact h.volatile hpolicy p hfirst
    · have hdeadline := h'.volatile (by rw [h.config]; exact hpolicy) p hrest
      unfold hasDeadline at hdeadline ⊢
      rwa [h.view p.1, if_neg (h.notMem h' hrest)] at hdeadline
  noeviction hpolicy := by
    rw [h.noeviction hpolicy, h'.noeviction (by rw [h.config]; exact hpolicy)]
    rfl
  counted := by
    rw [h'.counted, h.counted, List.length_append]
    omega
  told k := by
    rw [h'.told, h.told, Option.map_map, List.map_append]
    congr 1
    funext v
    have hdisjoint : k ∈ rest.map Prod.fst → k ∉ first.map Prod.fst := by
      intro hk
      obtain ⟨p, hp, rfl⟩ := List.mem_map.mp hk
      exact h.notMem h' hp
    simp only [Function.comp_apply, List.mem_append]
    by_cases hrest : k ∈ rest.map Prod.fst
    · simp only [hrest, hdisjoint hrest, if_true, if_false, or_true]
    · simp only [hrest, if_false, or_false]
  config := h'.config.trans h.config
  later := Nat.le_trans h.later h'.later

/-! ## Samples -/

/-- What `sample` says of a key: it is in the pool and live at `t`. -/
def Sampled (pool : List Bytes) (s : Store) (t : SystemTime) (c : Candidate) : Prop :=
  c.key ∈ pool ∧ (s.view.liveAt t c.key).isSome = true

theorem isSome_liveAt_of_isLive {s : Store} {key : Bytes} {entry : Entry} {t : SystemTime}
    (hentry : s.map.lookup key = some entry) (hlive : entry.isLive t = true) :
    (s.view.liveAt t key).isSome = true := by
  have hnot : due t (s.view key) = false := by
    rw [due_view, hentry, Option.any_some, hlive]
    rfl
  unfold liveAt
  rw [hnot, if_neg (by simp), isSome_view, hentry]
  rfl

theorem sampleLoop_live (pool : List Bytes) (hpool : pool ≠ []) (t : SystemTime) (m : Nat) :
    ∀ (n : Nat) (s : Store) (w : World),
      Act.Sat (sampleLoop pool t m n) e s w
        (fun cs s' w' => s' = s ∧ w'.ticks = w.ticks ∧ ∀ c ∈ cs, Sampled pool s t c) (fun _ => False)
  | 0, s, w => by
    refine ⟨rfl, rfl, ?_⟩
    intro c hc
    cases hc
  | n + 1, s, w => by
    unfold sampleLoop
    simp only [Act.sat_bind]
    refine Act.sat_mono (below_spec _) ?_ (fun _ h => h)
    rintro i s' w₁ ⟨rfl, hw₁, hi⟩
    have hlt := hi (List.length_pos_iff.mpr hpool)
    rw [List.getElem?_eq_getElem hlt]
    simp only [Act.sat_bind, Act.sat_get]
    refine Act.sat_mono (sampleLoop_live pool hpool t m n s' w₁) ?_ (fun _ h => h)
    rintro rest s'' w₂ ⟨rfl, hw₂, hrest⟩
    rw [Act.sat_pure]
    refine ⟨rfl, hw₂.trans hw₁.ticks, ?_⟩
    intro c hc
    cases hentry : s''.map.lookup pool[i] with
    | none =>
      rw [hentry] at hc
      exact hrest c hc
    | some entry =>
      rw [hentry] at hc
      simp only at hc
      split at hc
      · rename_i hlive
        rcases List.mem_cons.mp hc with rfl | hc
        · exact ⟨List.getElem_mem hlt, isSome_liveAt_of_isLive hentry hlive⟩
        · exact hrest c hc
      · exact hrest c hc

/-- The room a sample asks for is more than an allocation may have. -/
def TooLarge (count : Nat) (p : Panic) : Prop := p = .capacity ∧ isizeMax < count * candidateSize

/-- Every key of a sample was live at the one reading of the clock that `sample` takes. -/
theorem sample_live (volatileOnly : Bool) (count : Nat) (s : Store) (w : World) :
    Act.Sat (sample volatileOnly count) e s w
      (fun cs s' w' => s' = s ∧ w.ticks ≤ w'.ticks ∧ ∀ c ∈ cs, w.ticks < w'.ticks ∧
        Sampled (if volatileOnly then s.volatile else s.keys) s (e.clock w.ticks) c)
      (TooLarge count) := by
  unfold sample
  simp only [Act.sat_bind, Act.sat_get, Act.sat_ite, Act.sat_pure, sat_now]
  refine ⟨fun _ => ⟨trivial, le_rfl, fun c hc => by cases hc⟩, fun hne => ?_⟩
  refine Act.sat_mono minute_spec ?_ (fun _ h => h.elim)
  rintro m s' w₁ ⟨rfl, hw₁⟩
  refine ⟨fun hlarge => ⟨rfl, hlarge⟩, fun _ => ?_⟩
  have hpool : (if volatileOnly = true then s'.volatile else s'.keys) ≠ [] := by
    intro hnil
    rw [hnil] at hne
    exact hne (.inl rfl)
  refine Act.sat_mono (sampleLoop_live _ hpool _ m count s' w₁) ?_ (fun _ h => h.elim)
  rintro cs s'' w₂ ⟨rfl, hw₂, hcs⟩
  have hticks : w₂.ticks = w.ticks + 1 := hw₂.trans hw₁.ticks
  exact ⟨rfl, by omega, fun c hc => ⟨by omega, hcs c hc⟩⟩

theorem mem_of_minBy {lt : Candidate → Candidate → Bool} {cs : List Candidate} {c : Candidate}
    (h : App.minBy lt cs = some c) : c ∈ cs := by
  cases cs with
  | nil => cases h
  | cons first rest =>
    have hfold : ∀ (rest : List Candidate) (best : Candidate),
        rest.foldl (fun best c => if lt c best then c else best) best ∈ best :: rest := by
      intro rest
      induction rest with
      | nil =>
        intro best
        exact List.mem_singleton.mpr rfl
      | cons next rest ih =>
        intro best
        rw [List.foldl_cons]
        split
        · exact List.mem_cons_of_mem _ (ih next)
        · rcases List.mem_cons.mp (ih best) with hbest | hrest
          · rw [hbest]
            exact List.mem_cons_self
          · exact List.mem_cons_of_mem _ (List.mem_cons_of_mem _ hrest)
    unfold App.minBy at h
    rw [Option.some.injEq] at h
    rw [← h]
    exact hfold rest first

/-- A victim is one of the candidates. -/
theorem mem_of_choose {policy : Policy} {cs : List Candidate} {c : Candidate}
    (h : App.choose policy cs = some c) : c ∈ cs := by
  cases policy with
  | noEviction => cases h
  | allkeysRandom => exact List.mem_of_mem_head? h
  | volatileRandom => exact List.mem_of_mem_head? h
  | allkeysLru => exact mem_of_minBy h
  | volatileLru => exact mem_of_minBy h
  | allkeysLfu => exact mem_of_minBy h
  | volatileLfu => exact mem_of_minBy h
  | volatileTtl => exact mem_of_minBy h

/-! ## One eviction -/

theorem version_touch (watch : Watch) (key k : Bytes) :
    (watch.touch key).version k = (watch.version k).map fun v => if k = key then v + 1 else v := by
  unfold Watch.version Watch.touch
  rw [Assoc.lookup_adjust]
  by_cases hk : k = key
  · subst hk
    simp only [if_true, Option.map_map]
    rfl
  · simp only [hk, if_false, Option.map_id']

/-- What a signal for a key that is gone leaves. -/
structure Signalled (key : Bytes) (a : App) (w : World) (a' : App) (w' : World) : Prop where
  view : a'.store.view = a.store.view
  indexed : Indexed a.store → Indexed a'.store
  watch : a'.watch = a.watch.touch key
  stats : a'.stats = a.stats
  config : a'.config = a.config
  later : w.ticks ≤ w'.ticks

theorem signalModified_gone {key : Bytes} (hgone : a.store.view key = none) :
    Act.Sat (App.signalModified key) e a w (fun _ a' w' => Signalled key a w a' w')
      (OutOfRange a.store) := by
  unfold App.signalModified
  simp only [Act.sat_bind, Act.sat_modify, Act.sat_get, Act.sat_ite, Act.sat_pure]
  refine ⟨fun _ => ⟨rfl, id, rfl, rfl, rfl, le_rfl⟩, fun _ => ?_⟩
  simp only [App.onStore, Act.sat_zoom]
  refine Act.sat_mono (peekType_spec key) ?_ (fun _ h => h)
  rintro type s' w' ⟨hw, -, hview, hidx⟩
  have hsame : s'.view = a.store.view := by
    rw [hview]
    apply expire_of_not_due
    rw [hgone]
    rfl
  have hlater : w.ticks ≤ w'.ticks := by
    rw [hw.ticks]
    omega
  exact ⟨fun _ => ⟨hsame, hidx, rfl, rfl, rfl, hlater⟩, fun _ => ⟨hsame, hidx, rfl, rfl, rfl, hlater⟩⟩

theorem withinLimit_same :
    Act.Sat App.withinLimit e a w (fun _ a' w' => a' = a ∧ w'.ticks = w.ticks) (fun _ => False) := by
  unfold App.withinLimit
  simp only [Act.sat_bind, Act.sat_get, Act.sat_ite, Act.sat_pure, sat_usedBytes]
  exact ⟨fun _ => ⟨trivial, trivial⟩, fun _ => ⟨trivial, trivial⟩⟩

/-- A key of the volatile index has a deadline. -/
theorem hasDeadline_of_mem {s : Store} (hs : Indexed s) {k : Bytes} (h : k ∈ s.volatile) :
    hasDeadline s.view k = true := by
  obtain ⟨entry, hentry, hdeadline⟩ := (hs.mem_volatile k).mp h
  rw [hasDeadline_view hentry]
  exact hdeadline

/-- One victim is taken, counted and told about. -/
theorem Took.one {a₁ a₂ : App} {w₁ w₂ : World} {c : Candidate}
    (hs : Indexed a.store) (hpolicy : a.config.maxmemoryPolicy.evicts = true)
    (hsampled : Sampled (if a.config.maxmemoryPolicy.volatileOnly then a.store.volatile
      else a.store.keys) a.store (e.clock w.ticks) c)
    (htick : w.ticks < w₁.ticks) (hview : a₁.store.view = Function.update a.store.view c.key none)
    (hstats : a₁.stats = { a.stats with evictedKeys := a.stats.evictedKeys + 1 })
    (hwatch : a₁.watch = a.watch) (hconfig : a₁.config = a.config)
    (hsignal : Signalled c.key a₁ w₁ a₂ w₂) : Took e a w [(c.key, w.ticks)] a₂ w₂ where
  view k := by
    rw [hsignal.view, hview, Function.update_apply]
    simp only [List.map_cons, List.map_nil, List.mem_singleton]
  nodup := List.nodup_singleton _
  live p hp := by
    rw [List.mem_singleton] at hp
    subst hp
    exact ⟨le_rfl, Nat.lt_of_lt_of_le htick hsignal.later, hsampled.2⟩
  volatile hvolatile p hp := by
    rw [List.mem_singleton] at hp
    subst hp
    have hmem := hsampled.1
    rw [hvolatile, if_pos rfl] at hmem
    exact hasDeadline_of_mem hs hmem
  noeviction hno := by
    rw [hno] at hpolicy
    cases hpolicy
  counted := by
    rw [hsignal.stats, hstats]
    rfl
  told k := by
    rw [hsignal.watch, hwatch, version_touch]
    simp only [List.map_cons, List.map_nil, List.mem_singleton]
  config := hsignal.config.trans hconfig
  later := Nat.le_trans (Nat.le_of_lt htick) hsignal.later

/-! ## A pass -/

/-- The loop of `make_room`, by induction on the evictions it may still make; the index invariant
carries it. -/
theorem evictLoop_took (n : Nat) : ∀ (a : App) (w : World), Indexed a.store →
    a.config.maxmemoryPolicy.evicts = true →
    Act.Sat (App.evictLoop a.config.maxmemoryPolicy n) e a w
      (fun _ a' w' => ∃ victims, Took e a w victims a' w')
      (TooLarge a.config.maxmemorySamples) := by
  induction n with
  | zero => exact fun a w _ _ => ⟨[], .nil rfl rfl rfl rfl le_rfl⟩
  | succ n ih =>
    intro a w hs hpolicy
    unfold App.evictLoop
    simp only [Act.sat_bind, Act.sat_get, Act.sat_ite, Act.sat_pure]
    refine ⟨fun _ => ⟨[], .nil rfl rfl rfl rfl le_rfl⟩, fun _ => ?_⟩
    simp only [App.onStore, Act.sat_zoom]
    refine Act.sat_mono (sample_live _ _ a.store w) ?_ (fun _ h => h)
    rintro cs s' w₁ ⟨rfl, hw₁, hcs⟩
    cases hchoice : App.choose a.config.maxmemoryPolicy cs with
    | none => exact ⟨[], .nil rfl rfl rfl rfl hw₁⟩
    | some c =>
      obtain ⟨htick, hsampled⟩ := hcs c (mem_of_choose hchoice)
      simp only [Act.sat_bind, Act.sat_zoom]
      refine Act.sat_mono (evict_spec c.key) ?_ (fun p hp => absurd hs hp.2)
      rintro gone s₁ w₂ ⟨rfl, hgone, hview₁, hidx₁⟩
      rw [Act.sat_ite]
      refine ⟨fun _ => ?_, fun hnot => ?_⟩
      · simp only [Act.sat_bind, Act.sat_modify]
        refine Act.sat_mono (signalModified_gone ?_) ?_ (fun p hp => absurd (hidx₁ hs) hp.2)
        · show s₁.view c.key = none
          rw [hview₁, Function.update_self]
        · intro _ a₂ w₃ hsignal
          have htook : Took e a w [(c.key, w.ticks)] a₂ w₃ := by
            apply Took.one hs hpolicy hsampled htick ?_ ?_ ?_ ?_ hsignal
            · exact hview₁
            · rfl
            · rfl
            · rfl
          refine Act.sat_mono withinLimit_same ?_ (fun _ h => h.elim)
          rintro fits a₃ w₄ ⟨rfl, hw₄⟩
          have htook₄ : Took e a w [(c.key, w.ticks)] a₃ w₄ :=
            htook.trans (.nil rfl rfl rfl rfl (le_of_eq hw₄.symm))
          rw [Act.sat_ite]
          refine ⟨fun _ => ⟨_, htook₄⟩, fun _ => ?_⟩
          rw [← htook.config] at hpolicy ⊢
          refine Act.sat_mono (ih a₃ w₄ (hsignal.indexed (hidx₁ hs)) hpolicy) ?_ (fun _ h => h)
          rintro _ a' w' ⟨victims, hrest⟩
          exact ⟨_, htook₄.trans hrest⟩
      · -- a key that was live when it was sampled is there to be taken
        have hthere : (a.store.view c.key).isSome = true := by
          have hlive := hsampled.2
          unfold liveAt at hlive
          split at hlive
          · cases hlive
          · exact hlive
        exact absurd (hgone.trans hthere) hnot

/-- **Eviction takes only what the policy allows and tells the watchers**, whatever the allocator
says and whatever is drawn.  The only panic is the sample that is too large to allocate. -/
theorem makeRoom_took (e : Env) (a : App) (hs : Indexed a.store) (w : World) :
    Act.Sat App.makeRoom e a w (fun _ a' w' => ∃ victims, Took e a w victims a' w')
      (· = .capacity) := by
  unfold App.makeRoom
  rw [Act.sat_bind]
  refine Act.sat_mono withinLimit_same ?_ (fun _ h => h.elim)
  rintro fits a₁ w₁ ⟨rfl, hw₁⟩
  simp only [Act.sat_ite, Act.sat_bind, Act.sat_pure, Act.sat_get]
  have hnone : Took e a₁ w [] a₁ w₁ := .nil rfl rfl rfl rfl (le_of_eq hw₁.symm)
  refine ⟨fun _ => ⟨[], hnone⟩, fun _ => ⟨fun _ => ⟨[], hnone⟩, fun hevicts => ?_⟩⟩
  have hpolicy : a₁.config.maxmemoryPolicy.evicts = true := by simpa using hevicts
  refine Act.sat_mono (evictLoop_took _ a₁ w₁ hs hpolicy) ?_ (fun _ h => h.1)
  rintro _ a' w' ⟨victims, htook⟩
  exact ⟨_, hnone.trans htook⟩

/-- A server over its limit of 10 bytes: `j` has no deadline, `k` has one. -/
def fullApp : App where
  store :=
    { map := ((∅ : Assoc Bytes Entry).insert [106] ⟨.str [], none, 0, none, ⟨0, 5, 0⟩⟩).insert [107]
        ⟨.str [], some 50, 1, some 0, ⟨0, 5, 0⟩⟩
      keys := [[106], [107]]
      volatile := [[107]] }
  config := { maxmemory := 10, maxmemoryPolicy := .volatileLru }

/-- An allocator that is relieved by the first eviction. -/
def tightEnv : Env := { stillEnv 5 with used := fun i => if i = 0 then 100 else 1 }

theorem fullApp_indexed : Indexed fullApp.store := (indexesAgree_iff _).mp (by decide +kernel)

/-- The one key with a deadline is taken. -/
theorem fullApp_relieved : Act.Sat App.makeRoom tightEnv fullApp {}
    (fun fits a' _ => fits = true ∧ (a'.store.view [106]).isSome = true ∧
      a'.store.view [107] = none) (fun _ => False) := by
  decide +kernel

section

attribute [local irreducible] App.makeRoom

theorem makeRoom_took_volatile :
    Act.Sat App.makeRoom tightEnv fullApp {}
      (fun _ a' w' => a'.store.view [107] = none ∧
        ∃ victims, Took tightEnv fullApp {} victims a' w') (fun _ => True) := by
  refine Act.sat_mono (Act.sat_and fullApp_relieved
    (makeRoom_took tightEnv fullApp fullApp_indexed {})) ?_ (fun _ _ => trivial)
  rintro _ a' w' ⟨⟨-, -, hgone⟩, htook⟩
  exact ⟨hgone, htook⟩

end

end Klyro
