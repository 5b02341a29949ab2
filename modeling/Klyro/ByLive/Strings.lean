import Klyro.Commands.ByLive
import Klyro.Commands.Strings

/-!
# The string commands see the live keys only

* `Strings.byLive` — every string command.
-/

set_option autoImplicit false

namespace Klyro

open Act Store

-- the elaborator would evaluate the test of the range
attribute [local irreducible] addDuration

namespace Strings

variable {e : Env} {t : SystemTime} {argv : List Bytes} (ht : e.StandsAt t)

include ht

theorem takesArgument_byLive (rest : List Bytes) (unit : Int) (absolute : Bool) :
    ByLiveE e t (takesArgument rest unit absolute) := by
  unfold takesArgument
  split
  · exact settledE_throw _
  · refine settledE_bind (byLiveE_intArg _) fun amount => settledE_guard (settledE_ite ?_ ?_)
    · exact settledE_bind (settledE_lift (settled_addDuration 0 _)) fun _ => settledE_pure _
    · exact settledE_bind (settledE_lift (byLive_deadlineAfterMillis ht _)) fun _ => settledE_pure _

theorem setOptions_byLive (fuel : Nat) : ∀ words options, ByLiveE e t (setOptions fuel words options) := by
  induction fuel with
  | zero => exact fun _ _ => settledE_pure _
  | succ fuel ih =>
    intro words options
    cases words with
    | nil => exact settledE_pure _
    | cons option rest =>
      have harg := takesArgument_byLive ht rest
      unfold setOptions
      refine settledE_ite (ih _ _) (settledE_ite (ih _ _) (settledE_ite (ih _ _) ?_))
      refine settledE_ite (ih _ _) (settledE_ite ?_ (settledE_ite ?_ (settledE_ite ?_ ?_)))
      · exact settledE_bind (harg _ _) fun _ => ih _ _
      · exact settledE_bind (harg _ _) fun _ => ih _ _
      · exact settledE_bind (harg _ _) fun _ => ih _ _
      · exact settledE_ite (settledE_bind (harg _ _) fun _ => ih _ _) (settledE_throw _)

theorem store_byLive (key value : Bytes) (expiry : Expiry) : ByLive e t (store key value expiry) := by
  cases expiry with
  | keep => exact byLive_updateString ht _ _
  | clear => exact byLive_setString _ _
  | «at» deadline =>
    exact settled_bind (byLive_setString _ _) fun _ =>
      settled_bind (byLive_setExpireAt ht _ _) fun _ => settled_pure _

theorem set_byLive : ByLiveE e t (set argv) := by
  unfold set
  refine settledE_bind (byLiveE_minArgs _ _) fun _ => ?_
  refine settledE_bind (setOptions_byLive ht _ _ _) fun options => settledE_guard ?_
  have hrest : ∀ previous : Option Bytes, ByLiveE e t (do
      let there ← Store.hasKey (arg argv 1)
      if (options.onlyIfAbsent && there) || (options.onlyIfPresent && !there) then
        return if options.returnOld then bulkOrNil previous else .nil
      store (arg argv 1) (arg argv 2) options.expiry
      return if options.returnOld then bulkOrNil previous else .ok : Cmd Reply) := by
    intro previous
    refine settledE_bind (settledE_lift (byLive_hasKey ht _)) fun there => ?_
    refine settledE_ite (settledE_pure _) ?_
    exact settledE_bind (settledE_lift (store_byLive ht _ _ _)) fun _ => settledE_pure _
  refine settledE_ite ?_ (settledE_bind (settledE_pure _) hrest)
  exact settledE_bind (byLiveE_checkType ht _ _) fun _ =>
    settledE_bind (settledE_lift (byLive_getString ht _)) hrest

theorem setnx_byLive : ByLiveE e t (setnx argv) := by
  unfold setnx
  refine settledE_bind (byLiveE_exactArgs _ _) fun _ => ?_
  refine settledE_bind (settledE_lift (byLive_hasKey ht _)) fun there => settledE_ite (settledE_pure _) ?_
  exact settledE_bind (settledE_lift (byLive_setString _ _)) fun _ => settledE_pure _

theorem setex_byLive (name : String) (unit : Int) : ByLiveE e t (setex name unit argv) := by
  unfold setex
  refine settledE_bind (byLiveE_exactArgs _ _) fun _ => ?_
  refine settledE_bind (byLiveE_intArg _) fun amount => settledE_ite (settledE_pure _) ?_
  refine settledE_bind (settledE_lift (byLive_setString _ _)) fun _ => ?_
  refine settledE_bind (settledE_lift (byLive_deadlineAfterMillis ht _)) fun deadline => ?_
  exact settledE_bind (settledE_lift (byLive_setExpireAt ht _ _)) fun _ => settledE_pure _

theorem getset_byLive : ByLiveE e t (getset argv) :=
  settledE_bind (byLiveE_exactArgs _ _) fun _ => settledE_bind (byLiveE_checkType ht _ _) fun _ =>
    settledE_bind (settledE_lift (byLive_getString ht _)) fun _ =>
    settledE_bind (settledE_lift (byLive_setString _ _)) fun _ => settledE_pure _

theorem getdel_byLive : ByLiveE e t (getdel argv) := by
  unfold getdel
  refine settledE_bind (byLiveE_exactArgs _ _) fun _ => settledE_bind (byLiveE_checkType ht _ _) fun _ => ?_
  refine settledE_bind (settledE_lift (byLive_getString ht _)) fun value => settledE_ite ?_ (settledE_pure _)
  exact settledE_bind (settledE_lift (byLive_del ht _)) fun _ => settledE_pure _

theorem mgetOne_byLive (key : Bytes) : ByLive e t (mgetOne key) := by
  unfold mgetOne
  refine settled_bind (byLive_peekType ht key) fun type => ?_
  split
  · exact settled_bind (byLive_getString ht key) fun _ => settled_pure _
  · exact settled_pure _

theorem anyExists_byLive (pairs : List (Bytes × Bytes)) : ByLive e t (anyExists pairs) := by
  induction pairs with
  | nil => exact settled_pure _
  | cons p pairs ih => exact settled_bind (byLive_hasKey ht _) fun _ => settled_ite (settled_pure _) ih

theorem mset_byLive (name : String) (onlyIfNone : Bool) : ByLiveE e t (mset name onlyIfNone argv) := by
  unfold mset
  refine settledE_bind (byLiveE_minArgs _ _) fun _ => settledE_guard ?_
  have hrest : ∀ taken : Bool, ByLiveE e t (if taken then pure (.bool false) else do
      Act.forList (fun p => Store.setString p.1 p.2) (pairsOf (argv.drop 1))
      return if onlyIfNone then .bool true else .ok : Cmd Reply) := by
    intro taken
    refine settledE_ite (settledE_pure _) ?_
    exact settledE_bind (settledE_lift (settled_forList
      (fun p : Bytes × Bytes => byLive_setString p.1 p.2) _)) fun _ => settledE_pure _
  cases onlyIfNone with
  | true => exact settledE_bind (settledE_lift (anyExists_byLive ht _)) hrest
  | false => exact settledE_bind (settledE_pure _) hrest

theorem applyIntegerDelta_byLive (key : Bytes) (delta : Int) : ByLiveE e t (applyIntegerDelta key delta) := by
  unfold applyIntegerDelta
  refine settledE_bind (byLiveE_checkType ht _ _) fun _ => ?_
  refine settledE_bind (settledE_lift (byLive_getString ht _)) fun current => ?_
  -- an absent string counts as zero, and from the value on the two branches are one
  cases current
  case' none => refine settledE_bind (settledE_pure _) fun value => ?_
  case' some v => refine settledE_bind (byLiveE_orThrow _ _) fun value => ?_
  all_goals
    beta_reduce
    cases checkedAdd value delta with
    | none => exact settledE_pure _
    | some updated =>
      exact settledE_bind (settledE_lift (byLive_updateString ht _ _)) fun _ => settledE_pure _

theorem incrbyfloat_byLive : ByLiveE e t (incrbyfloat argv) := by
  unfold incrbyfloat
  refine settledE_bind (byLiveE_exactArgs _ _) fun _ => settledE_bind (byLiveE_floatArg _) fun amount => ?_
  refine settledE_bind (byLiveE_checkType ht _ _) fun _ => ?_
  refine settledE_bind (settledE_lift (byLive_getString ht _)) fun found => ?_
  have hrest : ∀ current : F64, ByLiveE e t (if !(current.add amount).isFinite then
        return .error "ERR increment would produce NaN or Infinity"
      else do
        Store.updateString (arg argv 1) (formatF64 (current.add amount))
        return .bulk (formatF64 (current.add amount)) : Cmd Reply) := fun current =>
    settledE_ite (settledE_pure _)
      (settledE_bind (settledE_lift (byLive_updateString ht _ _)) fun _ => settledE_pure _)
  cases found with
  | none => exact settledE_bind (settledE_pure _) hrest
  | some v => exact settledE_bind (byLiveE_orThrow _ _) hrest

theorem append_byLive (config : Config) : ByLiveE e t (append config argv) := by
  unfold append
  refine settledE_bind (byLiveE_exactArgs _ _) fun _ => settledE_bind (byLiveE_checkType ht _ _) fun _ => ?_
  refine settledE_bind (settledE_lift (byLive_getString ht _)) fun found => settledE_ite (settledE_pure _) ?_
  exact settledE_bind (settledE_lift (byLive_updateString ht _ _)) fun _ => settledE_pure _

theorem getrange_byLive (name : String) : ByLiveE e t (getrange name argv) :=
  settledE_bind (byLiveE_exactArgs _ _) fun _ => settledE_bind (byLiveE_intArg _) fun _ =>
    settledE_bind (byLiveE_intArg _) fun _ => settledE_bind (byLiveE_checkType ht _ _) fun _ =>
    settledE_bind (settledE_lift (byLive_getString ht _)) fun _ => settledE_pure _

theorem setrange_byLive (config : Config) : ByLiveE e t (setrange config argv) := by
  unfold setrange
  refine settledE_bind (byLiveE_exactArgs _ _) fun _ => ?_
  refine settledE_bind (byLiveE_intArg _) fun offset => settledE_ite (settledE_pure _) ?_
  refine settledE_bind (byLiveE_checkType ht _ _) fun _ => ?_
  refine settledE_bind (settledE_lift (byLive_getString ht _)) fun found => ?_
  refine settledE_ite (settledE_pure _) (settledE_ite (settledE_pure _) ?_)
  exact settledE_bind (settledE_lift (byLive_updateString ht _ _)) fun _ => settledE_pure _

theorem getexExpiry_byLive : ByLiveE e t (getexExpiry argv) := by
  unfold getexExpiry
  refine settledE_ite (settledE_pure _) (settledE_ite (settledE_pure _) (settledE_ite ?_ (settledE_throw _)))
  refine settledE_bind (byLiveE_intArg _) fun amount => settledE_guard ?_
  exact settledE_bind (settledE_lift (byLive_deadlineAfterMillis ht _)) fun _ => settledE_pure _

theorem getex_byLive : ByLiveE e t (getex argv) := by
  unfold getex
  refine settledE_bind (byLiveE_minArgs _ _) fun _ => settledE_bind (getexExpiry_byLive ht) fun expiry => ?_
  refine settledE_bind (byLiveE_checkType ht _ _) fun _ => ?_
  refine settledE_bind (settledE_lift (byLive_getString ht _)) fun value => ?_
  cases value with
  | none => exact settledE_pure _
  | some value =>
    cases expiry with
    | keep => exact settledE_pure _
    | clear => exact settledE_bind (settledE_lift (byLive_setExpireAt ht _ _)) fun _ => settledE_pure _
    | «at» deadline =>
      exact settledE_bind (settledE_lift (byLive_setExpireAt ht _ _)) fun _ => settledE_pure _

/-- **String commands.** -/
theorem byLive {config : Config} {name : String} {handler : Handler} (h : (name, handler) ∈ arms config)
    (argv : List Bytes) : ByLiveE e t (handler argv) := by
  simp only [arms, List.mem_cons, Prod.mk.injEq, List.not_mem_nil, or_false] at h
  rcases h with ⟨rfl, rfl⟩ | ⟨rfl, rfl⟩ | ⟨rfl, rfl⟩ | ⟨rfl, rfl⟩ | ⟨rfl, rfl⟩ | ⟨rfl, rfl⟩ |
    ⟨rfl, rfl⟩ | ⟨rfl, rfl⟩ | ⟨rfl, rfl⟩ | ⟨rfl, rfl⟩ | ⟨rfl, rfl⟩ | ⟨rfl, rfl⟩ | ⟨rfl, rfl⟩ |
    ⟨rfl, rfl⟩ | ⟨rfl, rfl⟩ | ⟨rfl, rfl⟩ | ⟨rfl, rfl⟩ | ⟨rfl, rfl⟩ | ⟨rfl, rfl⟩ | ⟨rfl, rfl⟩ |
    ⟨rfl, rfl⟩
  · exact set_byLive ht
  · exact setnx_byLive ht
  · exact setex_byLive ht _ _
  · exact setex_byLive ht _ _
  · exact settledE_bind (byLiveE_exactArgs _ _) fun _ => byLiveE_answer ht (byLive_getString ht _)
  · exact getset_byLive ht
  · exact getdel_byLive ht
  · exact getex_byLive ht
  · exact settledE_bind (byLiveE_minArgs _ _) fun _ =>
      settledE_bind (settledE_lift (settled_mapList (mgetOne_byLive ht) _)) fun _ => settledE_pure _
  · exact mset_byLive ht _ _
  · exact mset_byLive ht _ _
  · exact settledE_bind (byLiveE_exactArgs _ _) fun _ => applyIntegerDelta_byLive ht _ _
  · exact settledE_bind (byLiveE_exactArgs _ _) fun _ => applyIntegerDelta_byLive ht _ _
  · exact settledE_bind (byLiveE_exactArgs _ _) fun _ => settledE_bind (byLiveE_intArg _) fun _ =>
      applyIntegerDelta_byLive ht _ _
  · exact settledE_bind (byLiveE_exactArgs _ _) fun _ => settledE_bind (byLiveE_intArg _) fun _ =>
      settledE_ite (settledE_pure _) (applyIntegerDelta_byLive ht _ _)
  · exact incrbyfloat_byLive ht
  · exact append_byLive ht config
  · exact settledE_bind (byLiveE_exactArgs _ _) fun _ => byLiveE_answer ht (byLive_getString ht _)
  · exact getrange_byLive ht _
  · exact getrange_byLive ht _
  · exact setrange_byLive ht config

end Strings

end Klyro
