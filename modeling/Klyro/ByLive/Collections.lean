import Klyro.Commands.ByLive
import Klyro.Commands.Hashes
import Klyro.Commands.Lists
import Klyro.Commands.Sets
import Klyro.Commands.Zsets

/-!
# The commands of the collections see the live keys only

* `Lists.byLive`, `Hashes.byLive`, `Sets.byLive`, `Zsets.byLive` — every command on a list, a hash, a set
  or a sorted set, those off the record apart.
-/

set_option autoImplicit false

namespace Klyro

open Act Store

/-! ## Lists -/

namespace Lists

variable {e : Env} {t : SystemTime} {argv : List Bytes}

theorem moveEnds_fixed : Fixed (moveEnds argv) := by
  unfold moveEnds
  split
  · exact fixed_pure _
  · exact fixed_throw rfl

theorem popCount_fixed (name : String) : Fixed (popCount argv name) := by
  refine fixed_ite (fixed_pure _) (fixed_ite ?_ (fixed_throw rfl))
  exact fixed_bind (fixed_intArg _) fun c => fixed_ite (fixed_pure _) (fixed_throw rfl)

variable (ht : e.StandsAt t)

include ht

theorem popOne_byLive (key : Bytes) (side : End) : ByLive e t (popOne key side) := by
  unfold popOne
  refine settled_bind (byLive_write ht (steady_state _) .list key) fun popped => ?_
  split
  · exact settled_bind (byLive_deleteIfEmpty ht key) fun _ => settled_pure _
  · exact settled_pure _

theorem moveOne_byLive (source destination : Bytes) (takeFrom putTo : End) :
    ByLive e t (moveOne source destination takeFrom putTo) := by
  unfold moveOne
  refine settled_bind (byLive_write ht (steady_state _) .list source) fun popped => ?_
  split
  · refine settled_bind (byLive_getOrCreate ht (steady_modify _) .list destination) fun pushed => ?_
    exact settled_bind (settled_expect _ pushed) fun _ =>
      settled_bind (byLive_deleteIfEmpty ht source) fun _ => settled_pure _
  · exact settled_pure _

theorem push_byLive (name : String) (side : End) (onlyIfPresent : Bool) :
    ByLiveE e t (push name side onlyIfPresent argv) := by
  unfold push
  refine settledE_bind (byLiveE_minArgs _ _) fun _ => settledE_bind (byLiveE_checkType ht _ _) fun _ => ?_
  have hrest : ∀ absent : Bool, ByLiveE e t (do
      if absent then return .integer 0
      let len ← Store.getOrCreateList (arg argv 1) (Act.state fun l =>
        let l := (argv.drop 2).foldl (fun l value => pushTo l side value) l
        (l.length, l))
      let len ← expect "type checked" len
      return .integer len : Cmd Reply) := by
    intro absent
    refine settledE_ite (settledE_pure _) ?_
    refine settledE_bind (settledE_lift (byLive_getOrCreate ht (steady_state _) .list _)) fun len => ?_
    exact settledE_bind (byLiveE_expect _ len) fun _ => settledE_pure _
  cases onlyIfPresent with
  | true =>
    exact settledE_bind (settledE_lift (byLive_hasKey ht _)) fun _ => settledE_bind (settledE_pure _) hrest
  | false => exact settledE_bind (settledE_pure _) hrest

theorem lpop_byLive (name : String) (side : End) : ByLiveE e t (lpop name side argv) := by
  unfold lpop
  refine settledE_bind (byLiveE_minArgs _ _) fun _ => ?_
  exact settledE_bind (byLiveE_fixed (popCount_fixed name)) fun count =>
    settledE_bind (byLiveE_checkType ht _ _) fun _ =>
    settledE_bind (settledE_lift (byLive_write ht (steady_state _) .list _)) fun _ =>
    settledE_bind (settledE_lift (byLive_deleteIfEmpty ht _)) fun _ => settledE_pure _

theorem linsert_byLive : ByLiveE e t (linsert argv) := by
  unfold linsert
  refine settledE_bind (byLiveE_exactArgs _ _) fun _ => ?_
  refine settledE_ite (settledE_bind (settledE_pure _) fun before => ?_)
    (settledE_ite (settledE_bind (settledE_pure _) fun before => ?_)
      (settledE_bind (settledE_throw _) fun before => ?_))
  -- whichever side was named, the list is written and the new length told the same way
  all_goals
    refine settledE_bind (byLiveE_checkType ht _ _) fun _ => ?_
    refine settledE_bind (settledE_lift (byLive_write ht (steady_state _) .list _)) fun newLen => ?_
    cases newLen.join with
    | some len => exact settledE_pure _
    | none => exact settledE_bind (settledE_lift (byLive_hasKey ht _)) fun _ => settledE_pure _

theorem ltrim_byLive : ByLiveE e t (ltrim argv) :=
  settledE_bind (byLiveE_exactArgs _ _) fun _ => settledE_bind (byLiveE_intArg _) fun _ =>
    settledE_bind (byLiveE_intArg _) fun _ => byLiveE_taken ht (steady_modify _)

theorem moveBetween_byLive (ends : End × End) : ByLiveE e t (moveBetween argv ends) :=
  settledE_bind (byLiveE_checkType ht _ _) fun _ => settledE_bind (byLiveE_checkType ht _ _) fun _ =>
    settledE_bind (settledE_lift (moveOne_byLive ht _ _ _ _)) fun _ => settledE_pure _

/-- **List commands.** -/
theorem byLive {name : String} {handler : Handler} (h : (name, handler) ∈ arms) (argv : List Bytes) :
    ByLiveE e t (handler argv) := by
  simp only [arms, List.mem_cons, Prod.mk.injEq, List.not_mem_nil, or_false] at h
  rcases h with ⟨rfl, rfl⟩ | ⟨rfl, rfl⟩ | ⟨rfl, rfl⟩ | ⟨rfl, rfl⟩ | ⟨rfl, rfl⟩ | ⟨rfl, rfl⟩ |
    ⟨rfl, rfl⟩ | ⟨rfl, rfl⟩ | ⟨rfl, rfl⟩ | ⟨rfl, rfl⟩ | ⟨rfl, rfl⟩ | ⟨rfl, rfl⟩ | ⟨rfl, rfl⟩ |
    ⟨rfl, rfl⟩ | ⟨rfl, rfl⟩
  · exact push_byLive ht _ _ _
  · exact push_byLive ht _ _ _
  · exact push_byLive ht _ _ _
  · exact push_byLive ht _ _ _
  · exact lpop_byLive ht _ _
  · exact lpop_byLive ht _ _
  · exact settledE_bind (byLiveE_exactArgs _ _) fun _ => byLiveE_answer ht (byLive_read ht .list _)
  · exact settledE_bind (byLiveE_exactArgs _ _) fun _ => settledE_bind (byLiveE_intArg _) fun _ =>
      settledE_bind (byLiveE_intArg _) fun _ => byLiveE_answer ht (byLive_read ht .list _)
  · exact settledE_bind (byLiveE_exactArgs _ _) fun _ =>
      settledE_bind (byLiveE_intArg _) fun _ => byLiveE_answer ht (byLive_read ht .list _)
  · exact settledE_bind (byLiveE_exactArgs _ _) fun _ =>
      settledE_bind (byLiveE_intArg _) fun _ => byLiveE_answer ht (byLive_write ht (steady_state _) .list _)
  · exact linsert_byLive ht
  · exact settledE_bind (byLiveE_exactArgs _ _) fun _ =>
      settledE_bind (byLiveE_intArg _) fun _ => byLiveE_taken ht (steady_state _)
  · exact ltrim_byLive ht
  · exact settledE_bind (byLiveE_exactArgs _ _) fun _ => moveBetween_byLive ht _
  · exact settledE_bind (byLiveE_exactArgs _ _) fun _ =>
      settledE_bind (byLiveE_fixed moveEnds_fixed) fun _ => moveBetween_byLive ht _

end Lists

/-! ## Hashes -/

namespace Hashes

variable {e : Env} {t : SystemTime} {argv : List Bytes} (ht : e.StandsAt t)

include ht

theorem hset_byLive (name : String) (reply : Nat → Reply) : ByLiveE e t (hset name reply argv) :=
  settledE_bind (byLiveE_minArgs _ _) fun _ => settledE_guard (byLiveE_put ht (steady_state _))

theorem hsetnx_byLive : ByLiveE e t (hsetnx argv) := by
  unfold hsetnx
  refine settledE_bind (byLiveE_exactArgs _ _) fun _ => settledE_bind (byLiveE_checkType ht _ _) fun _ => ?_
  refine settledE_bind (settledE_lift (byLive_getOrCreate ht (steady_state _) .hash _)) fun inserted => ?_
  refine settledE_bind (byLiveE_expect _ inserted) fun _ => settledE_ite (settledE_pure _) ?_
  exact settledE_bind (settledE_lift (byLive_deleteIfEmpty ht _)) fun _ => settledE_pure _

theorem readField_byLive (key field : Bytes) : ByLive e t (readField key field) :=
  settled_bind (byLive_read ht .hash key) fun _ => settled_pure _

/-- A field is written, after its value has been read as a number. -/
theorem counted_byLive {ν : Type} {base : ν} {parse : Bytes → Cmd ν} {rest : ν → Cmd Reply} {key field : Bytes}
    (hparse : ∀ v, ByLiveE e t (parse v)) (hrest : ∀ v, ByLiveE e t (rest v)) : ByLiveE e t (do
      checkType key .hash
      let current ← readField key field
      match current with
      | none => pure base >>= rest
      | some v => parse v >>= rest : Cmd Reply) := by
  refine settledE_bind (byLiveE_checkType ht _ _) fun _ => ?_
  refine settledE_bind (settledE_lift (readField_byLive ht _ _)) fun current => ?_
  cases current with
  | none => exact settledE_bind (settledE_pure _) hrest
  | some v => exact settledE_bind (hparse v) hrest

theorem hincrby_byLive : ByLiveE e t (hincrby argv) := by
  unfold hincrby
  refine settledE_bind (byLiveE_exactArgs _ _) fun _ => settledE_bind (byLiveE_intArg _) fun delta => ?_
  refine counted_byLive ht (fun v => byLiveE_orThrow _ _) fun base => ?_
  dsimp only
  cases checkedAdd base delta with
  | none => exact settledE_pure _
  | some updated =>
    refine settledE_bind (settledE_lift (byLive_getOrCreate ht (steady_modify _) .hash _)) fun done => ?_
    exact settledE_bind (byLiveE_expect _ done) fun _ => settledE_pure _

theorem hincrbyfloat_byLive : ByLiveE e t (hincrbyfloat argv) := by
  unfold hincrbyfloat
  refine settledE_bind (byLiveE_exactArgs _ _) fun _ => settledE_bind (byLiveE_floatArg _) fun delta => ?_
  refine counted_byLive ht (fun v => byLiveE_orThrow _ _) fun base => settledE_ite (settledE_pure _) ?_
  refine settledE_bind (settledE_lift (byLive_getOrCreate ht (steady_modify _) .hash _)) fun done => ?_
  exact settledE_bind (byLiveE_expect _ done) fun _ => settledE_pure _

/-- **Hash commands.** -/
theorem byLive {name : String} {handler : Handler} (h : (name, handler) ∈ arms) (argv : List Bytes) :
    ByLiveE e t (handler argv) := by
  simp only [arms, List.mem_cons, Prod.mk.injEq, List.not_mem_nil, or_false] at h
  rcases h with ⟨rfl, rfl⟩ | ⟨rfl, rfl⟩ | ⟨rfl, rfl⟩ | ⟨rfl, rfl⟩ | ⟨rfl, rfl⟩ | ⟨rfl, rfl⟩ |
    ⟨rfl, rfl⟩ | ⟨rfl, rfl⟩ | ⟨rfl, rfl⟩ | ⟨rfl, rfl⟩ | ⟨rfl, rfl⟩ | ⟨rfl, rfl⟩ | ⟨rfl, rfl⟩ |
    ⟨rfl, rfl⟩
  · exact hset_byLive ht _ _
  · exact hset_byLive ht _ _
  · exact hsetnx_byLive ht
  · exact settledE_bind (byLiveE_exactArgs _ _) fun _ => byLiveE_answer ht (readField_byLive ht _ _)
  · exact settledE_bind (byLiveE_minArgs _ _) fun _ => byLiveE_answer ht (byLive_read ht .hash _)
  · exact settledE_bind (byLiveE_minArgs _ _) fun _ => byLiveE_taken ht (steady_state _)
  · exact settledE_bind (byLiveE_exactArgs _ _) fun _ => byLiveE_answer ht (byLive_read ht .hash _)
  · exact settledE_bind (byLiveE_exactArgs _ _) fun _ => byLiveE_answer ht (readField_byLive ht _ _)
  · exact settledE_bind (byLiveE_exactArgs _ _) fun _ => byLiveE_answer ht (readField_byLive ht _ _)
  · exact settledE_bind (byLiveE_exactArgs _ _) fun _ => byLiveE_answer ht (byLive_read ht .hash _)
  · exact settledE_bind (byLiveE_exactArgs _ _) fun _ => byLiveE_answer ht (byLive_read ht .hash _)
  · exact settledE_bind (byLiveE_exactArgs _ _) fun _ => byLiveE_answer ht (byLive_read ht .hash _)
  · exact hincrby_byLive ht
  · exact hincrbyfloat_byLive ht

end Hashes

/-! ## Sets -/

namespace Sets

variable {e : Env} {t : SystemTime} {argv : List Bytes}

theorem combine_byLive (op : Algebra) (sets : List SetValue) : ByLiveE e t (combine op sets) := by
  cases sets with
  | nil => exact byLiveE_expect _ none
  | cons first others => exact settledE_pure _

variable (ht : e.StandsAt t)

include ht

theorem checkSets_byLive (keys : List Bytes) : ByLiveE e t (checkSets keys) := by
  induction keys with
  | nil => exact settledE_pure ()
  | cons key keys ih => exact settledE_bind (byLiveE_checkType ht _ _) fun _ => ih

theorem collectSets_byLive (keys : List Bytes) : ByLiveE e t (collectSets keys) := by
  refine settledE_bind (checkSets_byLive ht keys) fun _ => settledE_lift (settled_mapList (fun key => ?_) keys)
  exact settled_bind (byLive_read ht .set key) fun _ => settled_pure _

theorem smove_byLive : ByLiveE e t (smove argv) := by
  unfold smove
  refine settledE_bind (byLiveE_exactArgs _ _) fun _ => settledE_bind (byLiveE_checkType ht _ _) fun _ => ?_
  refine settledE_bind (byLiveE_checkType ht _ _) fun _ => ?_
  refine settledE_bind (settledE_lift (byLive_write ht (steady_state _) .set _)) fun removed => ?_
  refine settledE_ite (settledE_pure _) ?_
  refine settledE_bind (settledE_lift (byLive_getOrCreate ht (steady_modify _) .set _)) fun done => ?_
  refine settledE_bind (byLiveE_expect _ done) fun _ => ?_
  exact settledE_bind (settledE_lift (byLive_deleteIfEmpty ht _)) fun _ => settledE_pure _

theorem algebra_byLive (name : String) (op : Algebra) : ByLiveE e t (algebra name op argv) :=
  settledE_bind (byLiveE_minArgs _ _) fun _ => settledE_bind (collectSets_byLive ht _) fun sets =>
    settledE_bind (combine_byLive op sets) fun _ => settledE_pure _

theorem algebraStore_byLive (name : String) (op : Algebra) : ByLiveE e t (algebraStore name op argv) := by
  unfold algebraStore
  refine settledE_bind (byLiveE_minArgs _ _) fun _ => settledE_bind (byLiveE_checkType ht _ _) fun _ => ?_
  refine settledE_bind (collectSets_byLive ht _) fun sets => settledE_bind (combine_byLive op sets) fun result => ?_
  refine settledE_bind (settledE_lift (byLive_del ht _)) fun _ => settledE_ite ?_ (settledE_pure _)
  refine settledE_bind (settledE_lift (byLive_getOrCreate ht (steady_modify _) .set _)) fun done => ?_
  exact settledE_bind (byLiveE_expect _ done) fun _ => settledE_pure _

/-- **Set commands.** -/
theorem byLive {name : String} {handler : Handler} (h : (name, handler) ∈ arms) (hname : name ∉ offTheRecord)
    (argv : List Bytes) : ByLiveE e t (handler argv) := by
  simp only [arms, List.mem_cons, Prod.mk.injEq, List.not_mem_nil, or_false] at h
  rcases h with ⟨rfl, rfl⟩ | ⟨rfl, rfl⟩ | ⟨rfl, rfl⟩ | ⟨rfl, rfl⟩ | ⟨rfl, rfl⟩ | ⟨rfl, rfl⟩ |
    ⟨rfl, rfl⟩ | ⟨rfl, rfl⟩ | ⟨rfl, rfl⟩ | ⟨rfl, rfl⟩ | ⟨rfl, rfl⟩ | ⟨rfl, rfl⟩ | ⟨rfl, rfl⟩ |
    ⟨rfl, rfl⟩ | ⟨rfl, rfl⟩
  · exact settledE_bind (byLiveE_minArgs _ _) fun _ => byLiveE_put ht (steady_state _)
  · exact settledE_bind (byLiveE_minArgs _ _) fun _ => byLiveE_taken ht (steady_state _)
  · exact settledE_bind (byLiveE_exactArgs _ _) fun _ => byLiveE_answer ht (byLive_read ht .set _)
  · exact settledE_bind (byLiveE_minArgs _ _) fun _ => byLiveE_answer ht (byLive_read ht .set _)
  · exact settledE_bind (byLiveE_exactArgs _ _) fun _ => byLiveE_answer ht (byLive_read ht .set _)
  · exact settledE_bind (byLiveE_exactArgs _ _) fun _ => byLiveE_answer ht (byLive_read ht .set _)
  · exact absurd (by decide) hname
  · exact absurd (by decide) hname
  · exact smove_byLive ht
  · exact algebra_byLive ht _ _
  · exact algebra_byLive ht _ _
  · exact algebra_byLive ht _ _
  · exact algebraStore_byLive ht _ _
  · exact algebraStore_byLive ht _ _
  · exact algebraStore_byLive ht _ _

end Sets

/-! ## Sorted sets -/

namespace Zsets

variable {e : Env} {t : SystemTime} {argv : List Bytes}

theorem scoreBounds_fixed (min max : Bytes) : Fixed (scoreBounds min max) := by
  unfold scoreBounds
  split
  · exact fixed_pure _
  · exact fixed_throw rfl

theorem withScores_fixed : Fixed (withScores argv) :=
  fixed_ite (fixed_pure _) (fixed_ite (fixed_pure _) (fixed_throw rfl))

theorem parsePairs_fixed : ∀ pairs, Fixed (parsePairs pairs)
  | [] => fixed_pure _
  | _ :: pairs => fixed_bind (fixed_floatArg _) fun _ => fixed_bind (parsePairs_fixed pairs) fun _ =>
      fixed_pure _

variable (ht : e.StandsAt t)

include ht

theorem zincrby_byLive : ByLiveE e t (zincrby argv) := by
  unfold zincrby
  refine settledE_bind (byLiveE_exactArgs _ _) fun _ => settledE_bind (byLiveE_floatArg _) fun _ => ?_
  refine settledE_bind (byLiveE_checkType ht _ _) fun _ => ?_
  refine settledE_bind (settledE_lift (byLive_getOrCreate ht (steady_state _) .zset _)) fun updated => ?_
  refine settledE_bind (byLiveE_expect _ updated) fun _ => settledE_ite ?_ (settledE_pure _)
  refine settledE_bind (settledE_lift (byLive_write ht (steady_modify _) .zset _)) fun undone => ?_
  refine settledE_bind (byLiveE_expect _ undone) fun _ => ?_
  exact settledE_bind (settledE_lift (byLive_deleteIfEmpty ht _)) fun _ => settledE_pure _

theorem zrange_byLive (name : String) (range : Zset → Int → Int → List (Bytes × F64)) :
    ByLiveE e t (zrange name range argv) :=
  settledE_bind (byLiveE_minArgs _ _) fun _ => settledE_bind (byLiveE_intArg _) fun _ =>
    settledE_bind (byLiveE_intArg _) fun _ => settledE_bind (byLiveE_fixed withScores_fixed) fun _ =>
    byLiveE_answer ht (byLive_read ht .zset _)

theorem zrangebyscore_byLive (name : String) (reversed : Bool) :
    ByLiveE e t (zrangebyscore name reversed argv) := by
  unfold zrangebyscore
  refine settledE_bind (byLiveE_minArgs _ _) fun _ => settledE_ite ?_ ?_
  · exact settledE_bind (byLiveE_fixed (scoreBounds_fixed _ _)) fun _ =>
      settledE_bind (byLiveE_fixed withScores_fixed) fun _ => byLiveE_answer ht (byLive_read ht .zset _)
  · exact settledE_bind (byLiveE_fixed (scoreBounds_fixed _ _)) fun _ =>
      settledE_bind (byLiveE_fixed withScores_fixed) fun _ => byLiveE_answer ht (byLive_read ht .zset _)

theorem zpop_byLive (name : String) (fromMax : Bool) : ByLiveE e t (zpop name fromMax argv) :=
  settledE_bind (byLiveE_minArgs _ _) fun _ => settledE_bind (byLiveE_fixed (Lists.popCount_fixed name)) fun _ =>
    byLiveE_taken ht (steady_state _)

theorem zadd_byLive (config : Config) : ByLiveE e t (zadd config argv) :=
  settledE_bind (byLiveE_minArgs _ _) fun _ => settledE_guard <| settledE_guard <|
    settledE_bind (byLiveE_fixed (parsePairs_fixed _)) fun _ => byLiveE_put ht (steady_state _)

/-- **Sorted set commands.** -/
theorem byLive {config : Config} {name : String} {handler : Handler} (h : (name, handler) ∈ arms config)
    (argv : List Bytes) : ByLiveE e t (handler argv) := by
  simp only [arms, List.mem_cons, Prod.mk.injEq, List.not_mem_nil, or_false] at h
  rcases h with ⟨rfl, rfl⟩ | ⟨rfl, rfl⟩ | ⟨rfl, rfl⟩ | ⟨rfl, rfl⟩ | ⟨rfl, rfl⟩ | ⟨rfl, rfl⟩ |
    ⟨rfl, rfl⟩ | ⟨rfl, rfl⟩ | ⟨rfl, rfl⟩ | ⟨rfl, rfl⟩ | ⟨rfl, rfl⟩ | ⟨rfl, rfl⟩ | ⟨rfl, rfl⟩ |
    ⟨rfl, rfl⟩ | ⟨rfl, rfl⟩ | ⟨rfl, rfl⟩ | ⟨rfl, rfl⟩
  · exact zadd_byLive ht config
  · exact settledE_bind (byLiveE_exactArgs _ _) fun _ => byLiveE_answer ht (byLive_read ht .zset _)
  · exact settledE_bind (byLiveE_minArgs _ _) fun _ => byLiveE_answer ht (byLive_read ht .zset _)
  · exact zincrby_byLive ht
  · exact settledE_bind (byLiveE_minArgs _ _) fun _ => byLiveE_taken ht (steady_state _)
  · exact settledE_bind (byLiveE_exactArgs _ _) fun _ => byLiveE_answer ht (byLive_read ht .zset _)
  · exact settledE_bind (byLiveE_exactArgs _ _) fun _ => byLiveE_answer ht (byLive_read ht .zset _)
  · exact settledE_bind (byLiveE_exactArgs _ _) fun _ => byLiveE_answer ht (byLive_read ht .zset _)
  · exact zrange_byLive ht _ _
  · exact zrange_byLive ht _ _
  · exact zrangebyscore_byLive ht _ _
  · exact zrangebyscore_byLive ht _ _
  · exact settledE_bind (byLiveE_exactArgs _ _) fun _ =>
      settledE_bind (byLiveE_fixed (scoreBounds_fixed _ _)) fun _ => byLiveE_answer ht (byLive_read ht .zset _)
  · exact settledE_bind (byLiveE_exactArgs _ _) fun _ =>
      settledE_bind (byLiveE_fixed (scoreBounds_fixed _ _)) fun _ => byLiveE_taken ht (steady_state _)
  · exact settledE_bind (byLiveE_exactArgs _ _) fun _ => settledE_bind (byLiveE_intArg _) fun _ =>
      settledE_bind (byLiveE_intArg _) fun _ => byLiveE_taken ht (steady_state _)
  · exact zpop_byLive ht _ _
  · exact zpop_byLive ht _ _

end Zsets

end Klyro
