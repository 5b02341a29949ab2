import Klyro.Commands.Zsets
import Klyro.Effects.Hashes

/-!
# What the sorted set commands write

`Zsets.does` — every sorted set command but `ZINCRBY` writes the keys the key table names and
nothing when it fails.  `ZINCRBY` stores its sum before it looks at it: `sat_zincrby` says what it
leaves in every case.
-/

set_option autoImplicit false

namespace Klyro.Zsets

open Hashes (pairsOf_ne_nil)
open Keyspace

variable {W : Bytes → Prop} {argv : List Bytes} {strict : Bool} {known : List (Bytes × StoreType)}

theorem scoreBounds_looks (min max : Bytes) : Looks (scoreBounds min max) := by
  unfold scoreBounds
  split
  · exact looks_pure _
  · exact looks_throw rfl

theorem withScores_looks : Looks (withScores argv) :=
  looks_ite (fun _ => looks_pure _) fun _ => looks_ite (fun _ => looks_pure _) fun _ => looks_throw rfl

theorem zscore_looks : Looks (zscore argv) :=
  looks_bind (looks_exactArgs _ _ _) fun _ => looks_bind (looks_checkType _ _) fun _ =>
    looks_bind (looks_lift (reads_read _ _)) fun _ => looks_pure _

theorem zmscore_looks : Looks (zmscore argv) :=
  looks_bind (looks_minArgs _ _ _) fun _ => looks_bind (looks_checkType _ _) fun _ =>
    looks_bind (looks_lift (reads_read _ _)) fun _ => looks_pure _

theorem zrem_does (hW : 1 < argv.length → W (arg argv 1)) :
    Does strict [] W Reply.isError (zrem argv) :=
  does_minArgs fun hlen => does_checkType <|
    does_tidied (V := .zset) (hW (by omega)) (mild_state _) fun _ _ => finishes_pure rfl

theorem zcard_looks : Looks (zcard argv) :=
  looks_bind (looks_exactArgs _ _ _) fun _ => looks_bind (looks_checkType _ _) fun _ =>
    looks_bind (looks_lift (reads_read _ _)) fun _ => looks_pure _

theorem zrank_looks (name : String) (rank : Zset → Bytes → Option Nat) :
    Looks (zrank name rank argv) :=
  looks_bind (looks_exactArgs _ _ _) fun _ => looks_bind (looks_checkType _ _) fun _ =>
    looks_bind (looks_lift (reads_read _ _)) fun _ => looks_pure _

theorem zrange_looks (name : String) (range : Zset → Int → Int → List (Bytes × F64)) :
    Looks (zrange name range argv) :=
  looks_bind (looks_minArgs _ _ _) fun _ => looks_bind (looks_intArg _) fun _ =>
    looks_bind (looks_intArg _) fun _ => looks_bind withScores_looks fun _ =>
    looks_bind (looks_checkType _ _) fun _ => looks_bind (looks_lift (reads_read _ _)) fun _ =>
    looks_pure _

theorem zrangebyscore_looks (name : String) (reversed : Bool) :
    Looks (zrangebyscore name reversed argv) := by
  have hrest : ∀ bounds : ScoreBound × ScoreBound, Looks (do
      let scores ← withScores argv
      checkType (arg argv 1) .zset
      let z ← Store.readZset (arg argv 1)
      let pairs := (z.map fun z => z.rangeByScore bounds.1 bounds.2).getD []
      return pairsReply (if reversed then pairs.reverse else pairs) scores) := fun bounds =>
    looks_bind withScores_looks fun _ => looks_bind (looks_checkType _ _) fun _ =>
      looks_bind (looks_lift (reads_read _ _)) fun _ => looks_pure _
  refine looks_bind (looks_minArgs _ _ _) fun _ => ?_
  exact looks_ite (fun _ => looks_bind (scoreBounds_looks _ _) hrest) fun _ =>
    looks_bind (scoreBounds_looks _ _) hrest

theorem zcount_looks : Looks (zcount argv) :=
  looks_bind (looks_exactArgs _ _ _) fun _ => looks_bind (scoreBounds_looks _ _) fun _ =>
    looks_bind (looks_checkType _ _) fun _ => looks_bind (looks_lift (reads_read _ _)) fun _ =>
    looks_pure _

theorem zremrangebyscore_does (hW : 1 < argv.length → W (arg argv 1)) :
    Does strict [] W Reply.isError (zremrangebyscore argv) :=
  does_exactArgs fun hlen => does_bind (scoreBounds_looks _ _) fun _ => does_checkType <|
    does_tidied (V := .zset) (hW (by omega)) (mild_state _) fun _ _ => finishes_pure rfl

theorem zremrangebyrank_does (hW : 1 < argv.length → W (arg argv 1)) :
    Does strict [] W Reply.isError (zremrangebyrank argv) :=
  does_exactArgs fun hlen => does_bind (looks_intArg _) fun _ => does_bind (looks_intArg _) fun _ =>
    does_checkType <|
    does_tidied (V := .zset) (hW (by omega)) (mild_state _) fun _ _ => finishes_pure rfl

theorem zpop_does (name : String) (fromMax : Bool) (hW : 1 < argv.length → W (arg argv 1)) :
    Does strict [] W Reply.isError (zpop name fromMax argv) := by
  refine does_minArgs fun hlen => does_bind (Lists.popCount_looks name) fun count => does_checkType ?_
  refine does_tidied (V := .zset) (hW hlen) (mild_state _) fun popped _ => finishes_pure ?_
  cases count with
  | none =>
    dsimp only
    split <;> rfl
  | some n => rfl

theorem parsePairs_looks : ∀ pairs, Looks (parsePairs pairs)
  | [] => looks_pure _
  | (_, _) :: pairs => looks_bind (looks_floatArg _) fun _ =>
      looks_bind (parsePairs_looks pairs) fun _ => looks_pure _

theorem sat_parsePairs (e : Env) (s : Store) (w : World) (pairs : List (Bytes × Bytes)) :
    Act.SatE (parsePairs pairs) e s w
      (fun r s' w' => Quiet e s w s' w' ∧ r.length = pairs.length)
      (fun r s' w' => r.isError = true ∧ Quiet e s w s' w') NoExpect := by
  induction pairs generalizing s w with
  | nil => exact ⟨.refl, rfl⟩
  | cons p pairs ih =>
    obtain ⟨score, member⟩ := p
    unfold parsePairs
    simp only [Act.satE_bind, Act.satE_pure]
    refine Act.satE_mono (looks_floatArg score e s w) ?_ (fun _ _ _ h => h) (fun _ h => h)
    intro x s₁ w₁ hq₁
    refine Act.satE_mono (ih s₁ w₁) ?_ ?_ (fun _ h => h)
    · rintro r s₂ w₂ ⟨hq₂, hlen⟩
      exact ⟨hq₁.trans hq₂, by rw [List.length_cons, List.length_cons, hlen]⟩
    · exact fun r s₂ w₂ h => ⟨h.1, hq₁.trans h.2⟩

theorem size_add (z : Zset) (member : Bytes) (score : F64) : 0 < (z.add member score).2.size := by
  unfold Zset.add Zset.size
  dsimp only
  rw [List.length_insertIdx_of_le_length (partitionPoint_le _ _)]
  exact Nat.succ_pos _

theorem size_addPairs (pairs : List (F64 × Bytes)) : ∀ z : Zset, pairs ≠ [] ∨ 0 < z.size →
    0 < (addPairs pairs z).2.size := by
  induction pairs with
  | nil => exact fun z hz => hz.resolve_left fun h => h rfl
  | cons p pairs ih => exact fun z _ => ih (z.add p.2 p.1).2 (.inr (size_add _ _ _))

theorem isEmptyCollection_zset {z : Zset} : (Value.zset z).isEmptyCollection = false ↔ 0 < z.size := by
  simp [Value.isEmptyCollection, Nat.pos_iff_ne_zero]

theorem zadd_does (config : Config) (hW : 1 < argv.length → W (arg argv 1)) :
    Does strict [] W Reply.isError (zadd config argv) := by
  refine does_minArgs fun hlen => does_guard rfl fun _ => does_guard rfl fun _ => ?_
  intro e s w ht
  rw [Act.satE_bind]
  refine Act.satE_mono (sat_parsePairs e s w _) ?_ (fun _ _ _ h => h) (fun _ h => h.allowed)
  rintro pairs s₁ w₁ ⟨hq, hpairs⟩
  refine Does.after (does_checkType ?_) (ht.of_quiet hq) hq
  refine does_obtain (V := .zset) (hW (by omega)) List.mem_cons_self (fun z => ?_) fun _ =>
    finishes_pure rfl
  refine isEmptyCollection_zset.mpr (size_addPairs pairs z (.inl ?_))
  rw [← List.length_pos_iff, hpairs, List.length_pos_iff]
  refine pairsOf_ne_nil ?_
  rw [List.length_drop]
  omega

/-- **What `ZINCRBY` does.**  A refusal in front writes nothing.  Otherwise the sum is stored; when
it is not finite the member is taken out again, unless the key has expired by then. -/
theorem sat_zincrby {e : Env} {s : Store} {w : World} {Q E : Reply → Store → World → Prop}
    {R : Panic → Prop} (hR : ∀ p, Store.OutOfRange s p → R p)
    (hearly : ∀ r s' w', r.isError = true → Quiet e s w s' w' →
      (argv.length = 4 → ∀ increment, parseF64 (arg argv 2) = some increment →
        ∃ x d, s.view.liveAt (e.clock w.ticks) (arg argv 1) = some (x, d) ∧ x.typeOf ≠ .zset) →
      E r s' w')
    (hstored : ∀ increment z d (s₁ s₂ : Store) (w₁ w₂ : World), argv.length = 4 →
      parseF64 (arg argv 2) = some increment → Store.Later 1 w w₁ →
      s₁.view = s.view.expire (e.clock w.ticks) (arg argv 1) → (s.Indexed → s₁.Indexed) →
      (s₁.view.liveAt (e.clock w₁.ticks) (arg argv 1) = some (.zset z, d) ∨
        s₁.view.liveAt (e.clock w₁.ticks) (arg argv 1) = none ∧ z = {} ∧ d = none) →
      Store.Later 1 w₁ w₂ →
      s₂.view = Function.update s.view (arg argv 1)
        (some (.zset (z.incrBy (arg argv 3) increment).2, d)) →
      (s₁.Indexed → s₂.Indexed) →
      ((z.incrBy (arg argv 3) increment).1.isFinite = true →
        Q (.double (z.incrBy (arg argv 3) increment).1) s₂ w₂) ∧
      ((z.incrBy (arg argv 3) increment).1.isFinite = false →
        (due (e.clock w₂.ticks) (s₂.view (arg argv 1)) = true → R (.expect "just created")) ∧
        (due (e.clock w₂.ticks) (s₂.view (arg argv 1)) = false → ∀ (s' : Store) (w₃ w' : World),
          Store.Later 1 w₂ w₃ → Store.Later 1 w₃ w' →
          s'.view = Function.update s.view (arg argv 1) (Store.unlessEmpty
            (if due (e.clock w₃.ticks) (s₂.view (arg argv 1)) then none else
              some (.zset ((z.incrBy (arg argv 3) increment).2.rem (arg argv 3)).2, d))) →
          (s₂.Indexed → s'.Indexed) →
          Q (.error "ERR resulting score is not a number (NaN)") s' w'))) :
    Act.SatE (zincrby argv) e s w Q E R := by
  unfold zincrby exactArgs
  rw [Act.satE_bind]
  split
  swap
  · exact hearly _ _ _ rfl .refl fun h => absurd h ‹_›
  rename_i hlen
  rw [Act.satE_pure, Act.satE_bind]
  unfold floatArg
  cases hparse : parseF64 (arg argv 2) with
  | none => exact hearly _ _ _ rfl .refl fun _ increment h => by rw [hparse] at h; cases h
  | some increment =>
    show Act.SatE (checkType (arg argv 1) .zset >>= _) e s w Q E R
    unfold checkType
    simp only [Act.satE_bind, Act.satE_lift]
    refine Act.sat_mono (Store.peekType_spec (arg argv 1)) ?_ hR
    rintro found s₁ w₁ ⟨hw₁, rfl, hview₁, hidx₁⟩
    have hR₁ : ∀ p, Store.OutOfRange s₁ p → R p := fun p h => hR p (h.of_indexed hidx₁)
    rw [← expire_self, ← hview₁]
    split
    · rename_i hany
      refine hearly _ _ _ rfl (.of_expire hw₁ hview₁ hidx₁) fun _ _ _ => ?_
      rw [hview₁, expire_self] at hany
      rcases hlive : s.view.liveAt (e.clock w.ticks) (arg argv 1) with _ | ⟨x, d⟩
      · rw [hlive] at hany
        cases hany
      · rw [hlive] at hany
        exact ⟨x, d, rfl, by simpa using hany⟩
    rename_i hany
    rw [Act.satE_pure]
    refine Store.sat_getOrCreate (V := .zset) hR₁ ?_ ?_
    · intro x d s₂ w₂ _ hlive hnot _ _
      exfalso
      unfold liveAt at hlive
      split at hlive
      · cases hlive
      · rw [hlive] at hany
        have htype : x.typeOf = .zset := by simpa using hany
        have hsome := (Variant.zset.isSome_unwrap x).mpr htype
        rw [hnot] at hsome
        cases hsome
    · intro z d s₂ w₂ hw₂ hfound hview₂ hidx₂
      rw [Act.sat_state]
      have hview₃ : (Store.setValue (arg argv 1) (.zset (z.incrBy (arg argv 3) increment).2) s₂).view =
          Function.update s.view (arg argv 1)
            (some (.zset (z.incrBy (arg argv 3) increment).2, d)) := by
        rw [Store.view_setValue, hview₂, Function.update_self, Function.update_idem, hview₁,
          update_expire]
        rfl
      obtain ⟨hfinite, hbroken⟩ := hstored increment z d s₁ _ w₁ w₂ hlen hparse hw₁ hview₁ hidx₁
        hfound hw₂ hview₃ fun h => (hidx₂ h).setValue
      have hR₃ : ∀ p, Store.OutOfRange
          (Store.setValue (arg argv 1) (.zset (z.incrBy (arg argv 3) increment).2) s₂) p → R p :=
        fun p h => hR₁ p (h.of_indexed fun h => (hidx₂ h).setValue)
      show Act.SatE (if (!(z.incrBy (arg argv 3) increment).1.isFinite) = true then _ else _) e
        (Store.setValue (arg argv 1) (.zset (z.incrBy (arg argv 3) increment).2) s₂) w₂ Q E R
      generalize Store.setValue (arg argv 1) (.zset (z.incrBy (arg argv 3) increment).2) s₂ = s₃ at *
      cases hfin : (z.incrBy (arg argv 3) increment).1.isFinite with
      | true => exact hfinite hfin
      | false =>
        obtain ⟨hgone, hundone⟩ := hbroken hfin
        have hlive₃ : s₃.view.liveAt (e.clock w₂.ticks) (arg argv 1) =
            if due (e.clock w₂.ticks) (s₃.view (arg argv 1)) then none
            else some (.zset (z.incrBy (arg argv 3) increment).2, d) := by
          unfold liveAt
          rw [hview₃, Function.update_self]
        simp only [Bool.not_false, if_true, Act.satE_bind, Act.satE_lift]
        refine Store.sat_write (V := .zset) hR₃ ?_ ?_
        · intro s₄ w₄ _ hother _ _
          refine hgone ?_
          by_contra hdue
          rw [Bool.not_eq_true] at hdue
          rw [hdue] at hlive₃
          exact hother _ _ hlive₃
        · intro z' d' s₄ w₄ hw₄ hlive₄ hview₄ hidx₄
          have hdue : due (e.clock w₂.ticks) (s₃.view (arg argv 1)) = false := by
            by_contra hdue
            rw [Bool.not_eq_false] at hdue
            rw [hdue, hlive₄] at hlive₃
            cases hlive₃
          rw [hdue, hlive₄] at hlive₃
          cases hlive₃
          rw [Act.sat_modify]
          show Act.Sat (Store.deleteIfEmpty (arg argv 1)) e (Store.setValue (arg argv 1)
            (.zset ((z.incrBy (arg argv 3) increment).2.rem (arg argv 3)).2) s₄) w₄ _ R
          have hview₅ : (Store.setValue (arg argv 1)
              (.zset ((z.incrBy (arg argv 3) increment).2.rem (arg argv 3)).2) s₄).view =
              Function.update s.view (arg argv 1)
                (some (.zset ((z.incrBy (arg argv 3) increment).2.rem (arg argv 3)).2, d)) := by
            rw [Store.view_setValue, hview₄, expire_self, hlive₄, update_expire, hview₃,
              Function.update_idem]
            rfl
          refine Act.sat_mono (Store.deleteIfEmpty_spec (arg argv 1)) ?_
            (fun p h => hR₃ p (h.of_indexed fun h => (hidx₄ h).setValue))
          rintro _ s' w' ⟨hw', hview', hidx'⟩
          refine hundone hdue s' w₄ w' hw₄ hw' ?_ fun h => hidx' (hidx₄ h).setValue
          rw [hview', hview₅, Function.update_idem, liveAt, Function.update_self, hview₃,
            Function.update_self]
          -- a deadline is due for one value as for the other
          cases d <;> rfl

/-- Taking out a member that was new when it was added leaves the set as it was. -/
theorem rem_add {z : Zset} {member : Bytes} (score : F64) (h : z.findIndex member = none) :
    ((z.add member score).2.rem member).2 = z := by
  obtain ⟨entries⟩ := z
  set pos := partitionPoint (fun p => cmpEntry p (member, score) == .lt) entries with hpos
  have hle : pos ≤ entries.length := partitionPoint_le _ _
  have hadd : ((Zset.mk entries).add member score).2 = ⟨entries.insertIdx pos (member, score)⟩ := by
    unfold Zset.add
    rw [h]
  have hfind : (Zset.mk (entries.insertIdx pos (member, score))).findIndex member = some pos := by
    unfold Zset.findIndex at h ⊢
    rw [List.findIdx?_eq_none_iff] at h
    rw [List.findIdx?_eq_some_iff_getElem]
    refine ⟨by rw [List.length_insertIdx_of_le_length hle]; omega, by simp, fun j hj => ?_⟩
    rw [List.getElem_insertIdx_of_lt hj, Bool.not_eq_true]
    exact h _ (List.getElem_mem _)
  rw [hadd]
  unfold Zset.rem
  rw [hfind]
  simp

/-- `ZINCRBY` writes its key only; when it fails there, a sorted set is left where one was. -/
theorem zincrby_moves (hW : 1 < argv.length → W (arg argv 1)) (e : Env) (s : Store) (w : World) :
    Act.SatE (zincrby argv) e s w
      (fun r s' w' => Moves e W s w s' w' ∧ (r.isError = true → ∀ x d,
        s'.view (arg argv 1) = some (x, d) → x.typeOf = .zset ∧
          ∃ x' d', s.view (arg argv 1) = some (x', d') ∧ x'.typeOf = .zset))
      (fun r s' w' => r.isError = true ∧ Quiet e s w s' w') (Allowed false) := by
  refine sat_zincrby (fun _ h => allowed_of_outOfRange h) (fun r s' w' hr hq _ => ⟨hr, hq⟩) ?_
  intro increment z d s₁ s₂ w₁ w₂ hlen _ hw₁ hview₁ hidx₁ hfound hw₂ hview₂ hidx₂
  have hkey := hW (by omega)
  refine ⟨fun _ => ⟨?_, fun h => by cases h⟩, fun _ => ⟨fun _ h => (by cases h), ?_⟩⟩
  · refine .of_update (hw₁.trans hw₂) hkey hview₂ (fun h => hidx₂ (hidx₁ h)) fun _ v d' hv => ?_
    cases hv
    exact isEmptyCollection_zset.mpr (size_add _ _ _)
  · intro _ s' w₃ w' hw₃ hw' hview' hidx'
    refine ⟨.of_update ((hw₁.trans hw₂).trans (hw₃.trans hw')) hkey hview'
      (fun h => hidx' (hidx₂ (hidx₁ h))) fun _ v d' hv => Store.not_empty_of_unlessEmpty hv, ?_⟩
    intro _ x d' hx
    rw [hview', Function.update_self] at hx
    split at hx
    · cases hx
    · have hne := Store.not_empty_of_unlessEmpty hx
      have hset : x = .zset ((z.incrBy (arg argv 3) increment).2.rem (arg argv 3)).2 := by
        simp only [Store.unlessEmpty] at hx
        split at hx
        · cases hx
        · cases hx
          rfl
      refine ⟨by rw [hset]; rfl, ?_⟩
      rcases hfound with hlive | ⟨_, rfl, _⟩
      · rw [hview₁] at hlive
        unfold liveAt at hlive
        split at hlive
        · cases hlive
        · rw [expire_self] at hlive
          unfold liveAt at hlive
          split at hlive
          · cases hlive
          · exact ⟨_, _, hlive, rfl⟩
      · rw [hset, Zset.incrBy, rem_add _ rfl] at hne
        cases hne

/-- **Sorted set commands** but `ZINCRBY` write what the key table names. -/
theorem does {config : Config} {name : String} {handler : Handler}
    (h : (name, handler) ∈ arms config) (hname : name ≠ "ZINCRBY") (argv : List Bytes) :
    Does strict [] (Named name argv) Reply.isError (handler argv) := by
  simp only [arms, List.mem_cons, Prod.mk.injEq, List.not_mem_nil, or_false] at h
  rcases h with ⟨rfl, rfl⟩ | ⟨rfl, rfl⟩ | ⟨rfl, rfl⟩ | ⟨rfl, rfl⟩ | ⟨rfl, rfl⟩ | ⟨rfl, rfl⟩ |
    ⟨rfl, rfl⟩ | ⟨rfl, rfl⟩ | ⟨rfl, rfl⟩ | ⟨rfl, rfl⟩ | ⟨rfl, rfl⟩ | ⟨rfl, rfl⟩ | ⟨rfl, rfl⟩ |
    ⟨rfl, rfl⟩ | ⟨rfl, rfl⟩ | ⟨rfl, rfl⟩ | ⟨rfl, rfl⟩
  · exact zadd_does config (named_first rfl)
  · exact zscore_looks.does
  · exact zmscore_looks.does
  · exact absurd rfl hname
  · exact zrem_does (named_first rfl)
  · exact zcard_looks.does
  · exact (zrank_looks _ _).does
  · exact (zrank_looks _ _).does
  · exact (zrange_looks _ _).does
  · exact (zrange_looks _ _).does
  · exact (zrangebyscore_looks _ _).does
  · exact (zrangebyscore_looks _ _).does
  · exact zcount_looks.does
  · exact zremrangebyscore_does (named_first rfl)
  · exact zremrangebyrank_does (named_first rfl)
  · exact zpop_does _ _ (named_first rfl)
  · exact zpop_does _ _ (named_first rfl)

end Klyro.Zsets
