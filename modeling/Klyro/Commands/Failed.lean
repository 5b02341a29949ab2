import Klyro.Commands.Execute

/-!
# Failed commands

A command that answers with an error has left every key as it was, and so need not be signalled.
`ZINCRBY` is the exception: it stores its sum first, and when the sum is no number it takes the
member out again, also when the member was there before.

* `FailsCleanly` — when the first reply is an error, every key is to every lookup what it was.
* `LosesMember` — a `ZINCRBY` over an existing member whose sum is not finite.
* `failsCleanly_iff` — the second is the only way out of the first.
-/

set_option autoImplicit false

namespace Klyro

open Keyspace

/-- Whether the first frame is an error. -/
def Response.failed (r : Response) : Bool :=
  match r.replies.head? with
  | some (.error _) => true
  | _ => false

/-- When the command fails, no key has changed. -/
def FailsCleanly (e : Env) (t : SystemTime) (name : String) (argv : List Bytes) (s : Served)
    (w : World) : Prop :=
  Act.Sat (execute name argv) e s w
    (fun r s' _ => r.failed = true →
      ∀ k, s'.app.store.view.liveAt t k = s.app.store.view.liveAt t k)
    (fun _ => True)

theorem not_failsCleanly {e : Env} {t : SystemTime} {name : String} {argv : List Bytes} {s : Served}
    {w : World} {k : Bytes} (h : Act.Sat (execute name argv) e s w
      (fun r s' _ => r.failed = true ∧
        s'.app.store.view.liveAt t k ≠ s.app.store.view.liveAt t k)
      (fun _ => False)) : ¬ FailsCleanly e t name argv s w := fun hclean =>
  Act.not_sat_false _ (Act.sat_mono (Act.sat_and h hclean)
    (fun _ _ _ h => h.1.2 (h.2 h.1.1 k)) (fun _ h => h.1))

/-- A `ZINCRBY` that takes out what it did not put in: the key holds a sorted set, the sum is not
finite, and the member is there already (or the set has no member at all and goes as a whole). -/
def LosesMember (t : SystemTime) (argv : List Bytes) (s : Store) : Prop :=
  argv.length = 4 ∧ ∃ increment z d, parseF64 (arg argv 2) = some increment ∧
    s.view.liveAt t (arg argv 1) = some (.zset z, d) ∧
    (((z.score (arg argv 3)).getD (SoftFloat.zero false)).add increment).isFinite = false ∧
    (z.findIndex (arg argv 3) ≠ none ∨ z.size = 0)

section zincrby

variable {e : Env} {t : SystemTime} {argv : List Bytes} {s : Store} {w : World}

theorem silent_of_failed {r : Response} (h : r.failed = true) : r.silent = true := by
  unfold Response.failed at h
  unfold Response.silent
  rw [Bool.or_eq_true]
  exact .inr h

/-- Taking out a member that was there before leaves one member less. -/
theorem rem_add_of_found {z : Zset} {member : Bytes} (score : F64) (h : z.findIndex member ≠ none) :
    ((z.add member score).2.rem member).2 ≠ z := by
  obtain ⟨i, hi⟩ := Option.ne_none_iff_exists'.mp h
  have hlt : i < z.entries.length := by
    unfold Zset.findIndex at hi
    exact (List.findIdx?_eq_some_iff_getElem.mp hi).1
  have hadd : (z.add member score).2.size = z.size := by
    unfold Zset.add Zset.size
    simp only [hi]
    rw [List.length_insertIdx_of_le_length (partitionPoint_le _ _), List.length_eraseIdx_of_lt hlt]
    omega
  have hfound : ∃ j, (z.add member score).2.findIndex member = some j := by
    rw [← Option.isSome_iff_exists]
    unfold Zset.findIndex
    rw [List.findIdx?_isSome, List.any_eq_true]
    refine ⟨(member, score), ?_, by simp⟩
    unfold Zset.add
    simp only
    exact List.mem_insertIdx (partitionPoint_le _ _) |>.mpr (.inl rfl)
  obtain ⟨j, hj⟩ := hfound
  have hjlt : j < (z.add member score).2.entries.length := by
    unfold Zset.findIndex at hj
    exact (List.findIdx?_eq_some_iff_getElem.mp hj).1
  intro heq
  have hsize : ((z.add member score).2.rem member).2.size + 1 = z.size := by
    rw [← hadd]
    unfold Zset.rem Zset.size
    simp only [hj]
    rw [List.length_eraseIdx_of_lt hjlt]
    omega
  rw [heq] at hsize
  omega

theorem liveAt_of_liveAt {K : Keyspace} {key : Bytes} (x : Value) {y : Value} {d : Option SystemTime}
    (h : K.liveAt t key = some (y, d)) : due t (some (x, d)) = false := by
  unfold liveAt at h
  split at h
  · cases h
  · rename_i hdue
    rw [h, Bool.not_eq_true] at hdue
    cases d <;> exact hdue

/-- **What a standing clock leaves of `ZINCRBY`.** -/
theorem sat_zincrby_standing {Q : Reply → Store → World → Prop} {R : Panic → Prop}
    (ht : e.StandsAt t) (hR : ∀ p, Store.OutOfRange s p → R p)
    (hearly : ∀ r s' w', Quiet e s w s' w' → ¬ LosesMember t argv s → Q r s' w')
    (hundone : ∀ z d increment message (s' : Store) w', argv.length = 4 →
      parseF64 (arg argv 2) = some increment →
      (s.view.liveAt t (arg argv 1) = some (.zset z, d) ∨
        s.view.liveAt t (arg argv 1) = none ∧ z = {} ∧ d = none) →
      (((z.score (arg argv 3)).getD (SoftFloat.zero false)).add increment).isFinite = false →
      s'.view = Function.update s.view (arg argv 1) (Store.unlessEmpty
        (some (.zset ((z.incrBy (arg argv 3) increment).2.rem (arg argv 3)).2, d))) →
      Q (.error message) s' w')
    (hfinite : ∀ z d increment x (s' : Store) w', parseF64 (arg argv 2) = some increment →
      (s.view.liveAt t (arg argv 1) = some (.zset z, d) ∨
        s.view.liveAt t (arg argv 1) = none ∧ z = {} ∧ d = none) →
      (((z.score (arg argv 3)).getD (SoftFloat.zero false)).add increment).isFinite = true →
      Q (.double x) s' w') :
    Act.Sat (answer (Zsets.zincrby argv)) e s w Q R := by
  have hsat : Act.SatE (Zsets.zincrby argv) e s w Q Q R := by
    refine Zsets.sat_zincrby hR ?_ ?_
    · intro r s' w' _ hq hwhy
      refine hearly r s' w' hq ?_
      rintro ⟨hlen, increment, z, d, hparse, hlive, -⟩
      obtain ⟨x, dx, hx, htype⟩ := hwhy hlen increment hparse
      rw [ht, hlive] at hx
      cases hx
      exact htype rfl
    · intro increment z d s₁ s₂ w₁ w₂ hlen hparse hw₁ hview₁ hidx₁ hfound hw₂ hview₂ hidx₂
      rw [ht] at hview₁
      have hfound' : s.view.liveAt t (arg argv 1) = some (.zset z, d) ∨
          s.view.liveAt t (arg argv 1) = none ∧ z = {} ∧ d = none := by
        have hidem : s₁.view.liveAt t (arg argv 1) = s.view.liveAt t (arg argv 1) := by
          rw [hview₁]
          unfold liveAt
          rw [expire_self]
          unfold liveAt
          split <;> simp_all
        rwa [ht, hidem] at hfound
      have hlive : ∀ x : Value, due t (some (x, d)) = false := by
        intro x
        rcases hfound' with h | ⟨_, _, rfl⟩
        · exact liveAt_of_liveAt x h
        · rfl
      refine ⟨fun hfin => hfinite z d increment _ s₂ w₂ hparse hfound' hfin, fun hfin => ⟨?_, ?_⟩⟩
      · intro hdue
        rw [ht, hview₂, Function.update_self, hlive] at hdue
        cases hdue
      · intro _ s' w₃ w' _ _ hview' _
        rw [ht, hview₂, Function.update_self, hlive] at hview'
        exact hundone z d increment _ s' w' hlen hparse hfound' hfin hview'
  refine Act.sat_mono (sat_answer hsat) ?_ (fun _ h => h)
  rintro r s' w' (h | h)
  · exact h
  · exact h

theorem zincrby_arm {config : Config} {handler : Handler}
    (h : ("ZINCRBY", handler) ∈ Zsets.arms config) : handler = Zsets.zincrby := by
  simpa [Zsets.arms] using h

/-- A failed `ZINCRBY` has changed nothing, unless it lost a member. -/
theorem zincrby_clean (ht : e.StandsAt t) (hkeep : ¬ LosesMember t argv s) :
    Act.Sat (answer (Zsets.zincrby argv)) e s w
      (fun r s' _ => r.isError = true → ∀ k, s'.view.liveAt t k = s.view.liveAt t k)
      (fun _ => True) := by
  refine sat_zincrby_standing ht (fun _ _ => trivial) ?_ ?_ ?_
  · exact fun r s' w' hq _ _ k => (hq.kept k id).liveAt_eq ht
  · intro z d increment message s' w' hlen hparse hfound hfin hview _ k
    by_cases hk : k = arg argv 1
    swap
    · unfold liveAt
      rw [hview, Function.update_of_ne hk]
    subst hk
    rcases hfound with hlive | ⟨hlive, rfl, rfl⟩
    · -- the member was new and the set not empty: taking it out restores the set
      have hnew : z.findIndex (arg argv 3) = none := by
        by_contra hold
        exact hkeep ⟨hlen, increment, z, d, hparse, hlive, hfin, .inl hold⟩
      have hsize : z.size ≠ 0 := fun hzero =>
        hkeep ⟨hlen, increment, z, d, hparse, hlive, hfin, .inr hzero⟩
      have hback : s'.view (arg argv 1) = some (.zset z, d) := by
        rw [hview, Function.update_self, Zset.incrBy, Zsets.rem_add _ hnew]
        simp [Store.unlessEmpty, Value.isEmptyCollection, hsize]
      rw [hlive]
      unfold liveAt
      rw [hback, liveAt_of_liveAt _ hlive]
      rfl
    · rw [hlive]
      unfold liveAt
      rw [hview, Function.update_self, Zset.incrBy, Zsets.rem_add _ rfl]
      rfl
  · exact fun z d increment x s' w' _ _ _ h => by cases h

/-- A `ZINCRBY` that loses a member fails, and has changed the key. -/
theorem zincrby_dirty (ht : e.StandsAt t) (hindexed : s.Indexed) (hlose : LosesMember t argv s) :
    Act.Sat (answer (Zsets.zincrby argv)) e s w
      (fun r s' _ => r.isError = true ∧
        s'.view.liveAt t (arg argv 1) ≠ s.view.liveAt t (arg argv 1))
      (fun _ => False) := by
  obtain ⟨hlen, increment, z, d, hparse, hlive, hfin, hmember⟩ := hlose
  refine sat_zincrby_standing ht (fun p h => h.2 hindexed) ?_ ?_ ?_
  · intro r s' w' _ hkeep
    exact absurd ⟨hlen, increment, z, d, hparse, hlive, hfin, hmember⟩ hkeep
  · intro z' d' increment' message s' w' _ hparse' hfound _ hview
    rw [hparse] at hparse'
    cases hparse'
    rw [hlive] at hfound
    rcases hfound with hsame | ⟨hnone, -⟩
    swap
    · cases hnone
    cases hsame
    refine ⟨rfl, fun heq => ?_⟩
    rw [hlive] at heq
    have hstored : s'.view (arg argv 1) = some (.zset z, d) := by
      unfold liveAt at heq
      split at heq
      · cases heq
      · exact heq
    rw [hview, Function.update_self] at hstored
    have hne := Store.not_empty_of_unlessEmpty hstored
    simp only [Store.unlessEmpty] at hstored
    split at hstored
    · cases hstored
    · simp only [Option.some.injEq, Prod.mk.injEq, Value.zset.injEq, and_true] at hstored
      rcases hmember with hold | hzero
      · exact rem_add_of_found _ hold hstored
      · simp [Value.isEmptyCollection, hzero] at hne
  · intro z' d' increment' x s' w' hparse' hfound hfin'
    rw [hparse] at hparse'
    cases hparse'
    rw [hlive] at hfound
    rcases hfound with hsame | ⟨hnone, -⟩
    · cases hsame
      rw [hfin] at hfin'
      cases hfin'
    · cases hnone

end zincrby

/-- **When a failed command changes nothing.**  While the clock stands and there is no memory limit,
every string, list, hash, set, sorted set, generic and blocking command that answers with an error
has left every key alone, but for a `ZINCRBY` that loses a member. -/
theorem failsCleanly_iff (e : Env) (t : SystemTime) (ht : e.StandsAt t) (name : String)
    (argv : List Bytes) {group : Family} (hfamily : family name = some group)
    (hgroup : group ∈ carefulFamilies) (s : Served) (w : World) (hindexed : s.app.store.Indexed)
    (hmax : s.app.config.maxmemory = 0) :
    FailsCleanly e t name argv s w ↔
      ¬ (name = "ZINCRBY" ∧ s.client.confined name = false ∧ LosesMember t argv s.app.store) := by
  constructor
  · rintro hclean ⟨rfl, hfree, hlose⟩
    refine not_failsCleanly (k := arg argv 1) ?_ hclean
    refine sat_executeWith (fun hc => by rw [hfree] at hc; cases hc) fun _ => ?_
    refine (memoryGate_unlimited (a := s.counted.app) hmax).mpr ⟨fun r hr => (by cases hr), fun _ => ?_⟩
    show Act.Sat (onArms Zsets.arms "ZINCRBY" argv) e s.counted w _ _
    have harm : ∀ handler, ("ZINCRBY", handler) ∈ Zsets.arms s.counted.app.config →
        Act.Sat (answer (handler argv)) e s.counted.app.store w
          (fun r s' _ => r.isError = true ∧
            s'.view.liveAt t (arg argv 1) ≠ s.app.store.view.liveAt t (arg argv 1))
          (fun _ => False) := by
      intro handler hmem
      rw [zincrby_arm hmem]
      exact zincrby_dirty ht hindexed hlose
    refine Act.sat_mono (onArms_sat (fun hnone => by cases hnone) harm) ?_ (fun _ h => h)
    rintro r s₁ w₁ ⟨reply, rfl, -, herror, hchanged⟩ stats _
    have hsilent : (Response.new reply).silent = true := by rwa [Blocking.silent_new]
    unfold signalWrites
    rw [if_pos hsilent]
    refine ⟨?_, hchanged⟩
    cases reply <;> first | rfl | cases herror
  · intro hkeep
    refine sat_executeWith_unlimited hmax (fun _ _ _ _ => rfl) (fun hfree => ?_) (fun _ _ => trivial)
    by_cases hz : name = "ZINCRBY"
    · subst hz
      have hlose : ¬ LosesMember t argv s.app.store := fun h => hkeep ⟨rfl, hfree, h⟩
      show Act.Sat (onArms Zsets.arms "ZINCRBY" argv) e s.counted w _ _
      have harm : ∀ handler, ("ZINCRBY", handler) ∈ Zsets.arms s.counted.app.config →
          Act.Sat (answer (handler argv)) e s.counted.app.store w
            (fun r s' _ => r.isError = true →
              ∀ k, s'.view.liveAt t k = s.app.store.view.liveAt t k)
            (fun _ => True) := by
        intro handler hmem
        rw [zincrby_arm hmem]
        exact zincrby_clean ht hlose
      refine Act.sat_mono (onArms_sat (fun hnone => by cases hnone) harm) ?_ (fun _ h => h)
      rintro r s₁ w₁ ⟨reply, rfl, -, hclean⟩ s' w' hq hfail k
      have herror : reply.isError = true := by
        rw [← Blocking.silent_new]
        exact silent_of_failed hfail
      exact ((hq.kept k id).liveAt_eq ht).trans (hclean herror k)
    · have hself : false = true → name = "COPY" → argv.length = 3 → arg argv 1 ≠ arg argv 2 :=
        fun h => by cases h
      refine Act.sat_mono (runWith_quiet exec hfamily hgroup hz hself s.counted w) ?_
        (fun _ _ => trivial)
      intro r s₁ w₁ hran s' w' hq hfail k
      exact (((hran.2 (silent_of_failed hfail)).trans hq).kept k id).liveAt_eq ht

/-- A server with the sorted set `k` that holds `m` at infinity, after `ZADD k inf m`. -/
def nearLimit : Served :=
  { freshServed with app := { store :=
    { map := AList.insert [107] { value := .zset ⟨[([109], SoftFloat.inf false)]⟩, expireAt := none, slot := 0,
                                  volatileSlot := none, access := Access.new 0 0 } ∅
      keys := [[107]] } } }

theorem nearLimit_indexed : nearLimit.app.store.Indexed := by decide +kernel

/-- `INCR k` fails and changes nothing. -/
theorem failsCleanly_iff_incr :
    FailsCleanly (stillEnv 5) 5 "INCR" [Text.bytes "INCR", [107]] nearLimit {} ∧
      Act.Sat (execute "INCR" [Text.bytes "INCR", [107]]) (stillEnv 5) nearLimit {}
        (fun r _ _ => r.failed = true) (fun _ => False) :=
  ⟨(failsCleanly_iff (stillEnv 5) 5 (fun _ => rfl) "INCR" [Text.bytes "INCR", [107]]
      (show family "INCR" = some .string by decide) (by decide) nearLimit {} nearLimit_indexed rfl).mpr
    (fun h => absurd h.1 (by decide)), by decide +kernel⟩

/-- `ZINCRBY k -inf m` fails and takes `m` out, and the key with it. -/
theorem zincrby_fails_dirty : ¬ FailsCleanly (stillEnv 5) 5 "ZINCRBY"
    [Text.bytes "ZINCRBY", [107], Text.bytes "-inf", [109]] nearLimit {} :=
  not_failsCleanly (k := [107]) (by decide +kernel)

end Klyro
