import Klyro.Evict

/-!
# When an eviction pass gives up (`evict.rs`)

* `App.evictRound` — one round of the loop of `make_room`.
* `Missed` — no draw of a round lands on a live key.
* `RoundEnd` — what a round leaves; it finds no victim exactly when its draws miss.
* `makeRoom_givesUp_iff` — a pass gives up early exactly when a round misses while a key the policy
  may take is live.
-/

set_option autoImplicit false

namespace Klyro

open Store Keyspace

/-- One round of the loop of `make_room`: `none` goes on. -/
def App.evictRound (policy : Policy) : Run App (Option Bool) := do
  let a ← Act.get
  if policy.volatileOnly ∧ a.store.volatileIsEmpty then pure (some false)
  else do
    let candidates ← onStore (Store.sample policy.volatileOnly a.config.maxmemorySamples)
    match choose policy candidates with
    | none => pure (some false)
    | some victim => do
      let gone ← onStore (Store.evict victim.key)
      if gone then do
        Act.modify fun a =>
          { a with stats := { a.stats with evictedKeys := a.stats.evictedKeys + 1 } }
        signalModified victim.key
        let fits ← withinLimit
        pure (if fits then some true else none)
      else pure none

variable {e : Env} {a a' : App} {w w' : World}

theorem App.evictLoop_succ (policy : Policy) (n : Nat) : App.evictLoop policy (n + 1) =
    App.evictRound policy >>= fun r => match r with
      | some fits => pure fits
      | none => App.evictLoop policy n := by
  conv_lhs => unfold App.evictLoop
  unfold App.evictRound
  rw [bind_assoc]
  congr 1
  funext a
  split
  · rfl
  · rw [bind_assoc]
    congr 1
    funext candidates
    cases App.choose policy candidates with
    | none => rfl
    | some victim =>
      dsimp only
      rw [bind_assoc]
      congr 1
      funext gone
      cases gone with
      | false => simp only [Bool.false_eq_true, if_false, pure_bind]
      | true =>
        simp only [if_true, bind_assoc]
        congr 1
        funext _
        congr 1
        funext _
        congr 1
        funext fits
        cases fits with
        | false => rfl
        | true => rfl

/-- The keys a policy draws from. -/
def App.pool (a : App) : List Bytes :=
  if a.config.maxmemoryPolicy.volatileOnly then a.store.volatile else a.store.keys

/-- The instant of a round's sample; without samples the clock is not read. -/
def sampleTime (e : Env) (a : App) (w : World) : SystemTime :=
  e.clock (if a.config.maxmemorySamples = 0 then w.ticks - 1 else w.ticks)

/-- The key that draw `i` of a round lands on. -/
def drawn (e : Env) (pool : List Bytes) (w : World) (i : Nat) : Option Bytes :=
  pool[(e.draw (w.draws + i)).toNat % pool.length]?

/-- No draw of a round lands on a live key. -/
def Missed (e : Env) (a : App) (w : World) : Prop :=
  ∀ i, i < a.config.maxmemorySamples → ∀ k, drawn e a.pool w i = some k →
    (a.store.view.liveAt (sampleTime e a w) k).isSome = false

/-- No key that the policy may take is live. -/
def NoneLeft (a : App) (t : SystemTime) : Prop :=
  ∀ k, (a.store.view.liveAt t k).isSome = true →
    ¬ (a.config.maxmemoryPolicy.volatileOnly = true → hasDeadline a.store.view k = true)

/-! ## A sample -/

theorem isLive_iff {s : Store} {k : Bytes} {entry : Entry} {t : SystemTime}
    (hentry : s.map.lookup k = some entry) :
    entry.isLive t = (s.view.liveAt t k).isSome := by
  unfold liveAt
  rw [due_view, hentry, Option.any_some]
  cases hlive : entry.isLive t with
  | true =>
    rw [if_neg (by simp), isSome_view, hentry]
    rfl
  | false => rfl

theorem sampleLoop_nil_iff (pool : List Bytes) (hpool : pool ≠ []) (t : SystemTime) (m : Nat) :
    ∀ (n : Nat) (s : Store) (w : World), Act.Sat (sampleLoop pool t m n) e s w
      (fun cs s' w' => s' = s ∧ w'.ticks = w.ticks ∧ (cs = [] ↔ ∀ i, i < n → ∀ k,
        drawn e pool w i = some k → (s.view.liveAt t k).isSome = false)) (fun _ => False)
  | 0, s, w => ⟨rfl, rfl, fun _ i hi => absurd hi (Nat.not_lt_zero i), fun _ => rfl⟩
  | n + 1, s, w => by
    have hpos : 0 < pool.length := List.length_pos_iff.mpr hpool
    have hlt : (e.draw w.draws).toNat % pool.length < pool.length := Nat.mod_lt _ hpos
    unfold sampleLoop below
    rw [if_neg hpos.ne']
    simp only [Act.sat_bind, sat_nextU64, Act.sat_pure]
    rw [List.getElem?_eq_getElem hlt]
    simp only [Act.sat_bind, Act.sat_get]
    refine Act.sat_mono (sampleLoop_nil_iff pool hpool t m n s _) ?_ (fun _ h => h)
    rintro rest s' w' ⟨rfl, hticks, hrest⟩
    rw [Act.sat_pure]
    refine ⟨rfl, hticks, ?_⟩
    have hfirst : drawn e pool w 0 = some pool[(e.draw w.draws).toNat % pool.length] :=
      List.getElem?_eq_getElem hlt
    have hlater : ∀ i, drawn e pool { w with draws := w.draws + 1 } i = drawn e pool w (i + 1) := by
      intro i
      unfold drawn
      rw [show w.draws + 1 + i = w.draws + (i + 1) by omega]
    have hsplit : (∀ i, i < n + 1 → ∀ k, drawn e pool w i = some k →
        (s'.view.liveAt t k).isSome = false) ↔
        (s'.view.liveAt t pool[(e.draw w.draws).toNat % pool.length]).isSome = false ∧ rest = [] := by
      rw [hrest]
      constructor
      · intro h
        refine ⟨h 0 (Nat.succ_pos n) _ hfirst, fun i hi k hk => ?_⟩
        exact h (i + 1) (Nat.succ_lt_succ hi) k ((hlater i).symm.trans hk)
      · rintro ⟨hhere, hthere⟩ i hi k hk
        cases i with
        | zero =>
          rw [hfirst, Option.some.injEq] at hk
          rw [← hk]
          exact hhere
        | succ i => exact hthere i (Nat.lt_of_succ_lt_succ hi) k ((hlater i).trans hk)
    rw [hsplit]
    cases hentry : s'.map.lookup pool[(e.draw w.draws).toNat % pool.length] with
    | none =>
      have hgone : (s'.view.liveAt t pool[(e.draw w.draws).toNat % pool.length]).isSome = false := by
        have hnone : s'.view pool[(e.draw w.draws).toNat % pool.length] = none := by
          have := isSome_view (s := s') pool[(e.draw w.draws).toNat % pool.length]
          rw [hentry] at this
          simpa using this
        unfold liveAt
        rw [hnone]
        rfl
      exact (and_iff_right hgone).symm
    | some entry =>
      rw [← isLive_iff hentry]
      dsimp only
      cases entry.isLive t with
      | true => simp
      | false => simp

/-- A round's sample: empty exactly when its draws miss. -/
theorem sample_nil_iff (e : Env) (a : App) (w : World) (hpool : a.pool ≠ []) :
    Act.Sat (Store.sample a.config.maxmemoryPolicy.volatileOnly a.config.maxmemorySamples) e a.store w
      (fun cs s' w' => s' = a.store ∧ e.clock (w'.ticks - 1) = sampleTime e a w ∧
        (cs = [] ↔ Missed e a w)) (fun _ => True) := by
  have hempty : (if a.config.maxmemoryPolicy.volatileOnly then a.store.volatile
      else a.store.keys).isEmpty = false := by
    rw [Bool.eq_false_iff]
    exact fun h => hpool (List.isEmpty_iff.mp h)
  unfold Store.sample
  simp only [Act.sat_bind, Act.sat_get, Act.sat_ite, Act.sat_pure, sat_now]
  refine ⟨fun h => ?_, fun hne => ?_⟩
  · rw [hempty] at h
    have hzero := h.resolve_left Bool.false_ne_true
    refine ⟨trivial, ?_, fun _ i hi => ?_, fun _ => trivial⟩
    · unfold sampleTime
      rw [if_pos hzero]
    · rw [hzero] at hi
      exact absurd hi (Nat.not_lt_zero i)
  · rw [not_or] at hne
    have htime : sampleTime e a w = e.clock w.ticks := by
      unfold sampleTime
      rw [if_neg hne.2]
    unfold minute
    simp only [Act.sat_bind, Act.sat_get, Act.sat_pure, sat_instantNow]
    refine ⟨fun _ => trivial, fun _ => ?_⟩
    refine Act.sat_mono (sampleLoop_nil_iff _ hpool _ _ _ _ _) ?_ (fun _ _ => trivial)
    rintro cs s' w' ⟨rfl, hticks, hcs⟩
    refine ⟨rfl, ?_, ?_⟩
    · rw [htime, hticks]
      rfl
    · rw [hcs]
      unfold Missed
      rw [htime]
      exact Iff.rfl

theorem noneLeft_of_pool (hs : Indexed a.store) (hpool : a.pool = []) (t : SystemTime) :
    NoneLeft a t := by
  intro k hlive heligible
  have hthere : (a.store.view k).isSome = true := by
    unfold liveAt at hlive
    split at hlive
    · cases hlive
    · exact hlive
  rw [isSome_view] at hthere
  obtain ⟨entry, hentry⟩ := Option.isSome_iff_exists.mp hthere
  unfold App.pool at hpool
  cases hvolatile : a.config.maxmemoryPolicy.volatileOnly with
  | true =>
    rw [hvolatile, if_pos rfl] at hpool
    have hdeadline := heligible hvolatile
    rw [hasDeadline_view hentry] at hdeadline
    have hmem := (hs.mem_volatile k).mpr ⟨entry, hentry, hdeadline⟩
    rw [hpool] at hmem
    cases hmem
  | false =>
    rw [hvolatile, if_neg Bool.false_ne_true] at hpool
    have hmem := (hs.mem_keys k).mpr ⟨entry, hentry⟩
    rw [hpool] at hmem
    cases hmem

theorem choose_none_iff {policy : Policy} (h : policy.evicts = true) {cs : List Candidate} :
    App.choose policy cs = none ↔ cs = [] := by
  cases policy with
  | noEviction => cases h
  | allkeysRandom => exact List.head?_eq_none_iff
  | volatileRandom => exact List.head?_eq_none_iff
  | allkeysLru => cases cs <;> simp [App.choose, App.minBy]
  | volatileLru => cases cs <;> simp [App.choose, App.minBy]
  | allkeysLfu => cases cs <;> simp [App.choose, App.minBy]
  | volatileLfu => cases cs <;> simp [App.choose, App.minBy]
  | volatileTtl => cases cs <;> simp [App.choose, App.minBy]

/-! ## A round -/

/-- What a round leaves: it stops without a victim, with the store as it was, when its draws miss,
and otherwise one key is gone. -/
structure RoundEnd (e : Env) (a : App) (w : World) (r : Option Bool) (a' : App) (w' : World) : Prop where
  stops : r = some false ↔ Missed e a w
  same : r = some false → a' = a ∧
    (NoneLeft a (e.clock (w'.ticks - 1)) ↔ NoneLeft a (sampleTime e a w))
  indexed : r = none → Indexed a'.store
  config : r = none → a'.config = a.config
  counted : r = none → a'.stats.evictedKeys = a.stats.evictedKeys + 1

theorem evictRound_round (hs : Indexed a.store) (hevicts : a.config.maxmemoryPolicy.evicts = true) :
    Act.Sat (App.evictRound a.config.maxmemoryPolicy) e a w (RoundEnd e a w) (fun _ => True) := by
  by_cases hpool : a.pool = []
  · -- an empty pool ends the round before or after the sample, which then reads no clock
    have hleft := noneLeft_of_pool hs hpool
    have hmissed : Missed e a w := by
      intro i _ k hk
      unfold drawn at hk
      rw [hpool] at hk
      cases hk
    have hround : RoundEnd e a w (some false) a w :=
      ⟨⟨fun _ => hmissed, fun _ => rfl⟩, fun _ => ⟨rfl, ⟨fun _ => hleft _, fun _ => hleft _⟩⟩,
        fun h => (by cases h), fun h => (by cases h), fun h => by cases h⟩
    unfold App.evictRound
    simp only [Act.sat_bind, Act.sat_get, Act.sat_ite, Act.sat_pure]
    refine ⟨fun _ => hround, fun _ => ?_⟩
    have hempty : (if a.config.maxmemoryPolicy.volatileOnly then a.store.volatile
        else a.store.keys).isEmpty = true := List.isEmpty_iff.mpr hpool
    simp only [App.onStore, Act.sat_zoom]
    unfold Store.sample
    simp only [Act.sat_bind, Act.sat_get]
    rw [if_pos (.inl hempty), Act.sat_pure, (choose_none_iff hevicts).mpr rfl]
    exact hround
  · unfold App.evictRound
    simp only [Act.sat_bind, Act.sat_get, Act.sat_ite, Act.sat_pure]
    refine ⟨fun h => ?_, fun _ => ?_⟩
    · refine absurd ?_ hpool
      unfold App.pool
      rw [if_pos h.1]
      exact List.isEmpty_iff.mp h.2
    · simp only [App.onStore, Act.sat_zoom]
      refine Act.sat_mono (Act.sat_and (sample_nil_iff e a w hpool) (sample_live _ _ a.store w)) ?_
        (fun _ _ => trivial)
      rintro cs s' w₁ ⟨⟨rfl, htime, hnil⟩, -, hw₁, hcs⟩
      cases hchoice : App.choose a.config.maxmemoryPolicy cs with
      | none =>
        have hmissed := hnil.mp ((choose_none_iff hevicts).mp hchoice)
        refine ⟨⟨fun _ => hmissed, fun _ => rfl⟩, fun _ => ⟨rfl, by rw [htime]⟩,
          fun h => (by cases h), fun h => (by cases h), fun h => by cases h⟩
      | some c =>
        have hhit : ¬ Missed e a w := by
          intro hmissed
          rw [(choose_none_iff hevicts).mpr (hnil.mpr hmissed)] at hchoice
          cases hchoice
        obtain ⟨-, hsampled⟩ := hcs c (mem_of_choose hchoice)
        have hthere : (a.store.view c.key).isSome = true := by
          have hlive := hsampled.2
          unfold liveAt at hlive
          split at hlive
          · cases hlive
          · exact hlive
        simp only [Act.sat_bind, Act.sat_zoom]
        refine Act.sat_mono (evict_spec c.key) ?_ (fun _ _ => trivial)
        rintro gone s₁ w₂ ⟨rfl, hgone, hview₁, hidx₁⟩
        rw [hgone, hthere, if_pos rfl]
        simp only [Act.sat_bind, Act.sat_modify]
        refine Act.sat_mono (signalModified_gone ?_) ?_ (fun _ _ => trivial)
        · show s₁.view c.key = none
          rw [hview₁, Function.update_self]
        · intro _ a₂ w₃ hsignal
          refine Act.sat_mono withinLimit_same ?_ (fun _ h => h.elim)
          rintro fits a₃ w₄ ⟨rfl, -⟩
          rw [Act.sat_pure]
          refine ⟨⟨fun h => ?_, fun h => absurd h hhit⟩, fun h => ?_, fun _ => ?_, fun _ => ?_, fun _ => ?_⟩
          · cases fits <;> cases h
          · cases fits <;> cases h
          · exact hsignal.indexed (hidx₁ hs)
          · exact hsignal.config
          · exact congrArg Stats.evictedKeys hsignal.stats

/-! ## A pass -/

/-- Every round of a pass that ends finds a live key, or there is none that the policy may take. -/
def HitsAlong (e : Env) (policy : Policy) : Nat → App → World → Prop
  | 0, _, _ => True
  | n + 1, a, w => Act.Sat (App.evictRound policy) e a w (fun r a' w' =>
      (Missed e a w → NoneLeft a (sampleTime e a w)) ∧ (r = none → HitsAlong e policy n a' w'))
      (fun _ => True)

/-- The loop of `make_room`, by induction on the rounds left: as many keys are gone as rounds are
over. -/
theorem evictLoop_givesUp_iff (e : Env) (total : Nat) : ∀ (n : Nat) (a : App) (w : World),
    Indexed a.store → a.config.maxmemoryPolicy.evicts = true → a.stats.evictedKeys + n = total →
    (Act.Sat (App.evictLoop a.config.maxmemoryPolicy n) e a w (fun fits a' w' => fits = false →
        NoneLeft a' (e.clock (w'.ticks - 1)) ∨ a'.stats.evictedKeys = total) (fun _ => True) ↔
      HitsAlong e a.config.maxmemoryPolicy n a w)
  | 0, a, w, _, _, htotal => ⟨fun _ => trivial, fun _ _ => .inr htotal⟩
  | n + 1, a, w, hs, hevicts, htotal => by
    rw [App.evictLoop_succ, Act.sat_bind]
    unfold HitsAlong
    refine Act.sat_congr (evictRound_round hs hevicts) ?_
    intro r a' w' hround
    cases r with
    | none =>
      have hhit : ¬ Missed e a w := fun h => by cases hround.stops.mpr h
      have hlater := evictLoop_givesUp_iff e total n a' w' (hround.indexed rfl)
        (by rw [hround.config rfl]; exact hevicts) (by rw [hround.counted rfl]; omega)
      rw [hround.config rfl] at hlater
      constructor
      · intro h
        exact ⟨fun hmissed => absurd hmissed hhit, fun _ => hlater.mp h⟩
      · intro h
        exact hlater.mpr (h.2 rfl)
    | some fits =>
      rw [Act.sat_pure]
      cases fits with
      | true =>
        have hhit : ¬ Missed e a w := fun h => by cases hround.stops.mpr h
        exact ⟨fun _ => ⟨fun hmissed => absurd hmissed hhit, fun h => by cases h⟩, fun _ h => by cases h⟩
      | false =>
        obtain ⟨rfl, htime⟩ := hround.same rfl
        rw [htime]
        constructor
        · intro h
          refine ⟨fun _ => (h rfl).resolve_right (by omega), fun h => by cases h⟩
        · intro h _
          exact .inl (h.1 (hround.stops.mp rfl))

/-- A pass is called off only under `noeviction`, with nothing left that the policy may take, or
after the most evictions one pass may make. -/
def GivesUpLate (e : Env) (a : App) (fits : Bool) (a' : App) (w' : World) : Prop :=
  fits = false → a.config.maxmemoryPolicy = .noEviction ∨ NoneLeft a' (e.clock (w'.ticks - 1)) ∨
    a'.stats.evictedKeys = a.stats.evictedKeys + App.maxEvictionsPerPass

/-- In every round of a pass over the limit some draw lands on a live key, or no key that the policy
may take is live. -/
def RoundsHit (e : Env) (a : App) (w : World) : Prop :=
  Act.Sat App.withinLimit e a w (fun fits a w => fits = false →
    a.config.maxmemoryPolicy.evicts = true →
      HitsAlong e a.config.maxmemoryPolicy App.maxEvictionsPerPass a w) (fun _ => True)

/-- **When eviction gives up early.**  A pass is called off late exactly when no round of it draws
only due keys while a key that the policy may take is live: the loop ends at the first round
without a candidate, whatever the next draws would have found. -/
theorem makeRoom_givesUp_iff (e : Env) (a : App) (hs : Indexed a.store) (w : World) :
    Act.Sat App.makeRoom e a w (GivesUpLate e a) (fun _ => True) ↔ RoundsHit e a w := by
  unfold App.makeRoom RoundsHit
  rw [Act.sat_bind]
  refine Act.sat_congr withinLimit_same ?_
  rintro fits a w₁ ⟨rfl, -⟩
  cases fits with
  | true =>
    refine ⟨fun _ h => (by cases h), fun _ => ?_⟩
    rw [if_pos rfl, Act.sat_pure]
    exact fun h => by cases h
  | false =>
    rw [if_neg Bool.false_ne_true, Act.sat_bind, Act.sat_get]
    by_cases hevicts : a.config.maxmemoryPolicy.evicts = true
    · rw [hevicts, Bool.not_true, if_neg Bool.false_ne_true]
      have hne : a.config.maxmemoryPolicy ≠ .noEviction := by
        intro h
        rw [h] at hevicts
        cases hevicts
      have hloop := evictLoop_givesUp_iff e (a.stats.evictedKeys + App.maxEvictionsPerPass)
        App.maxEvictionsPerPass a w₁ hs hevicts rfl
      constructor
      · intro h _ _
        refine hloop.mp (Act.sat_mono h (fun _ _ _ hlate hfits => ?_) (fun _ h => h))
        exact (hlate hfits).resolve_left hne
      · intro h
        exact Act.sat_mono (hloop.mpr (h rfl rfl)) (fun _ _ _ hlate hfits => .inr (hlate hfits))
          (fun _ h => h)
    · rw [Bool.not_eq_true] at hevicts
      rw [hevicts, Bool.not_false, if_pos rfl, Act.sat_pure]
      have hno : a.config.maxmemoryPolicy = .noEviction := by
        unfold Policy.evicts at hevicts
        simpa using hevicts
      exact ⟨fun _ _ h => absurd h (by simp), fun _ _ => .inl hno⟩

/-- A server over its limit of 10 bytes: `j` has been due since 3, `k` has no deadline. -/
def staleApp : App where
  store :=
    { map := ((∅ : Assoc Bytes Entry).insert [106] ⟨.str [], some 3, 0, some 0, ⟨0, 5, 0⟩⟩).insert [107]
        ⟨.str [], none, 1, none, ⟨0, 5, 0⟩⟩
      keys := [[106], [107]]
      volatile := [[106]] }
  config := { maxmemory := 10, maxmemoryPolicy := .allkeysLru }

/-- An allocator over the limit, a clock that stands at 5, and a generator that draws zeros. -/
def fullEnv : Env := { stillEnv 5 with used := fun _ => 100 }

theorem staleApp_indexed : Indexed staleApp.store := (indexesAgree_iff _).mp (by decide +kernel)

/-- Every draw finds `j`, and the pass is called off with `k` live. -/
theorem staleApp_refused : Act.Sat App.makeRoom fullEnv staleApp {}
    (fun fits a' w' => fits = false ∧
      (a'.store.view.liveAt (fullEnv.clock (w'.ticks - 1)) [107]).isSome = true ∧
      a'.config.maxmemoryPolicy = .allkeysLru ∧ a'.stats.evictedKeys = 0) (fun _ => False) := by
  decide +kernel

section

attribute [local irreducible] App.makeRoom

/-- Eviction gives up early. -/
theorem not_makeRoom_givesUpLate : ¬ ∀ (e : Env) (a : App), Indexed a.store → ∀ w : World,
    Act.Sat App.makeRoom e a w (GivesUpLate e a) (fun _ => True) := by
  intro h
  have hboth := Act.sat_and (h fullEnv staleApp staleApp_indexed {}) staleApp_refused
  refine Act.not_sat_false _ (Act.sat_mono hboth ?_ (fun _ h => h.2))
  rintro fits a' w' ⟨hlate, rfl, hlive, hpolicy, hnone⟩
  rcases hlate rfl with hno | hleft | hmany
  · cases hno
  · refine hleft [107] hlive fun hvolatile => ?_
    rw [hpolicy] at hvolatile
    cases hvolatile
  · rw [hnone] at hmany
    cases hmany

theorem makeRoom_givesUp_iff_stale :
    Act.Sat App.makeRoom fullEnv staleApp {} (GivesUpLate fullEnv staleApp) (fun _ => True) ↔
      RoundsHit fullEnv staleApp {} :=
  makeRoom_givesUp_iff fullEnv staleApp staleApp_indexed {}

end

end Klyro
