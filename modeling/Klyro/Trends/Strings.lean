import Klyro.Commands.Trend

/-!
# Which way the string commands move the keyspace

* `Strings.trend` — every string command.
-/

set_option autoImplicit false

namespace Klyro

open Store

attribute [local irreducible] addDuration

namespace Strings

variable {argv : List Bytes} {P : Store → Store → Prop}

theorem takesArgument_within [Lookups P] (rest : List Bytes) (unit : Int) (absolute : Bool) :
    Act.WithinE P (takesArgument rest unit absolute) := by
  unfold takesArgument
  split
  · exact Act.withinE_throw _
  · refine Act.withinE_bind (withinE_intArg _) fun amount => withinE_guard ?_
    refine Act.withinE_ite ?_ ?_
    · exact Act.withinE_bind (withinE_look (epochPlusMillis_glances _)) fun _ => Act.withinE_pure _
    · exact Act.withinE_bind (withinE_look (deadlineAfterMillis_glances _)) fun _ => Act.withinE_pure _

theorem setOptions_within [Lookups P] (fuel : Nat) : ∀ words options,
    Act.WithinE P (setOptions fuel words options) := by
  induction fuel with
  | zero => exact fun _ _ => Act.withinE_pure _
  | succ fuel ih =>
    intro words options
    cases words with
    | nil => exact Act.withinE_pure _
    | cons option rest =>
      unfold setOptions
      refine Act.withinE_ite (ih _ _) (Act.withinE_ite (ih _ _) (Act.withinE_ite (ih _ _) ?_))
      refine Act.withinE_ite (ih _ _) (Act.withinE_ite ?_ (Act.withinE_ite ?_ ?_))
      · exact Act.withinE_bind (takesArgument_within _ _ _) fun _ => ih _ _
      · exact Act.withinE_bind (takesArgument_within _ _ _) fun _ => ih _ _
      · refine Act.withinE_ite ?_ (Act.withinE_ite ?_ (Act.withinE_throw _))
        · exact Act.withinE_bind (takesArgument_within _ _ _) fun _ => ih _ _
        · exact Act.withinE_bind (takesArgument_within _ _ _) fun _ => ih _ _

theorem store_marks (key value : Bytes) (expiry : Expiry) : Act.Within Marked (store key value expiry) := by
  cases expiry with
  | keep => exact updateString_marks _ _
  | clear => exact setString_marks _ _
  | «at» deadline =>
    exact Act.within_bind (setString_marks _ _) fun _ =>
      Act.within_bind (setExpireAt_marks _ _) fun _ => Act.within_pure _

theorem set_marks : Act.WithinE Marked (set argv) := by
  unfold set
  refine Act.withinE_bind (withinE_minArgs _ _) fun _ => ?_
  refine Act.withinE_bind (setOptions_within _ _ _) fun options => withinE_guard ?_
  have hrest : ∀ previous : Option Bytes, Act.WithinE Marked (do
      let there ← Store.hasKey (arg argv 1)
      if (options.onlyIfAbsent && there) || (options.onlyIfPresent && !there) then
        return if options.returnOld then bulkOrNil previous else .nil
      store (arg argv 1) (arg argv 2) options.expiry
      return if options.returnOld then bulkOrNil previous else .ok : Cmd Reply) := by
    intro previous
    refine Act.withinE_bind (withinE_look (hasKey_glances _)) fun there => ?_
    refine Act.withinE_ite (Act.withinE_pure _) ?_
    exact Act.withinE_bind (Act.withinE_lift (store_marks _ _ _)) fun _ => Act.withinE_pure _
  refine Act.withinE_ite ?_ (Act.withinE_bind (Act.withinE_pure _) hrest)
  exact Act.withinE_bind (withinE_checkType _ _) fun _ =>
    Act.withinE_bind (withinE_look (getString_glances _)) hrest

theorem setnx_marks : Act.WithinE Marked (setnx argv) := by
  unfold setnx
  refine Act.withinE_bind (withinE_exactArgs _ _) fun _ => ?_
  refine Act.withinE_bind (withinE_look (hasKey_glances _)) fun there => ?_
  refine Act.withinE_ite (Act.withinE_pure _) ?_
  exact Act.withinE_bind (Act.withinE_lift (setString_marks _ _)) fun _ => Act.withinE_pure _

theorem setex_marks (name : String) (unit : Int) : Act.WithinE Marked (setex name unit argv) := by
  unfold setex
  refine Act.withinE_bind (withinE_exactArgs _ _) fun _ => ?_
  refine Act.withinE_bind (withinE_intArg _) fun amount => Act.withinE_ite (Act.withinE_pure _) ?_
  refine Act.withinE_bind (Act.withinE_lift (setString_marks _ _)) fun _ => ?_
  refine Act.withinE_bind (withinE_look (deadlineAfterMillis_glances _)) fun deadline => ?_
  exact Act.withinE_bind (Act.withinE_lift (setExpireAt_marks _ _)) fun _ => Act.withinE_pure _

theorem getset_marks : Act.WithinE Marked (getset argv) :=
  Act.withinE_bind (withinE_exactArgs _ _) fun _ => Act.withinE_bind (withinE_checkType _ _) fun _ =>
    Act.withinE_bind (withinE_look (getString_glances _)) fun _ =>
    Act.withinE_bind (Act.withinE_lift (setString_marks _ _)) fun _ => Act.withinE_pure _

theorem getdel_drains [Drains P] : Act.WithinE P (getdel argv) := by
  unfold getdel
  refine Act.withinE_bind (withinE_exactArgs _ _) fun _ => ?_
  refine Act.withinE_bind (withinE_checkType _ _) fun _ => ?_
  refine Act.withinE_bind (withinE_look (getString_glances _)) fun value => ?_
  refine Act.withinE_ite ?_ (Act.withinE_pure _)
  exact Act.withinE_bind (Act.withinE_lift (Drains.del _)) fun _ => Act.withinE_pure _

theorem mgetOne_glances (key : Bytes) : Act.Within Glances (mgetOne key) := by
  unfold mgetOne
  refine Act.within_bind (peekType_glances key) fun type => ?_
  split
  · exact Act.within_bind (getString_glances key) fun _ => Act.within_pure _
  · exact Act.within_pure _

theorem anyExists_glances (pairs : List (Bytes × Bytes)) : Act.Within Glances (anyExists pairs) := by
  induction pairs with
  | nil => exact Act.within_pure _
  | cons p pairs ih =>
    exact Act.within_bind (hasKey_glances _) fun _ => Act.within_ite (Act.within_pure _) ih

theorem mset_marks (name : String) (onlyIfNone : Bool) :
    Act.WithinE Marked (mset name onlyIfNone argv) := by
  unfold mset
  refine Act.withinE_bind (withinE_minArgs _ _) fun _ => withinE_guard ?_
  have hrest : ∀ taken : Bool, Act.WithinE Marked (if taken then pure (.bool false) else do
      Act.forList (fun p => Store.setString p.1 p.2) (pairsOf (argv.drop 1))
      return if onlyIfNone then .bool true else .ok : Cmd Reply) := by
    intro taken
    refine Act.withinE_ite (Act.withinE_pure _) ?_
    exact Act.withinE_bind (Act.withinE_lift (Act.within_forList
      (fun p : Bytes × Bytes => setString_marks p.1 p.2) _))
      fun _ => Act.withinE_pure _
  cases onlyIfNone with
  | true => exact Act.withinE_bind (withinE_look (anyExists_glances _)) hrest
  | false => exact Act.withinE_bind (Act.withinE_pure _) hrest

/-- What is stored once the current number is known. -/
theorem storeSum_marks (key : Bytes) (delta value : Int) :
    Act.WithinE Marked (match checkedAdd value delta with
      | none => return wouldOverflow
      | some updated => do
        Store.updateString key (showIntBytes updated)
        return .integer updated : Cmd Reply) := by
  cases checkedAdd value delta with
  | none => exact Act.withinE_pure _
  | some updated =>
    exact Act.withinE_bind (Act.withinE_lift (updateString_marks _ _)) fun _ => Act.withinE_pure _

theorem applyIntegerDelta_marks (key : Bytes) (delta : Int) :
    Act.WithinE Marked (applyIntegerDelta key delta) := by
  unfold applyIntegerDelta
  refine Act.withinE_bind (withinE_checkType _ _) fun _ => ?_
  refine Act.withinE_bind (withinE_look (getString_glances _)) fun current => ?_
  cases current with
  | none => exact Act.withinE_bind (Act.withinE_pure _) fun value => storeSum_marks key delta value
  | some v => exact Act.withinE_bind (withinE_orThrow _ _) fun value => storeSum_marks key delta value

theorem incrbyfloat_marks : Act.WithinE Marked (incrbyfloat argv) := by
  unfold incrbyfloat
  refine Act.withinE_bind (withinE_exactArgs _ _) fun _ => ?_
  refine Act.withinE_bind (withinE_floatArg _) fun amount => ?_
  refine Act.withinE_bind (withinE_checkType _ _) fun _ => ?_
  refine Act.withinE_bind (withinE_look (getString_glances _)) fun found => ?_
  have hrest : ∀ current : F64, Act.WithinE Marked (if !(current.add amount).isFinite then
        return .error "ERR increment would produce NaN or Infinity"
      else do
        Store.updateString (arg argv 1) (formatF64 (current.add amount))
        return .bulk (formatF64 (current.add amount)) : Cmd Reply) :=
    fun current => Act.withinE_ite (Act.withinE_pure _)
      (Act.withinE_bind (Act.withinE_lift (updateString_marks _ _)) fun _ => Act.withinE_pure _)
  cases found with
  | none => exact Act.withinE_bind (Act.withinE_pure _) hrest
  | some v => exact Act.withinE_bind (withinE_orThrow _ _) hrest

theorem append_marks (config : Config) : Act.WithinE Marked (append config argv) := by
  unfold append
  refine Act.withinE_bind (withinE_exactArgs _ _) fun _ => ?_
  refine Act.withinE_bind (withinE_checkType _ _) fun _ => ?_
  refine Act.withinE_bind (withinE_look (getString_glances _)) fun found => ?_
  refine Act.withinE_ite (Act.withinE_pure _) ?_
  exact Act.withinE_bind (Act.withinE_lift (updateString_marks _ _)) fun _ => Act.withinE_pure _

theorem getrange_glances (name : String) : Act.WithinE Glances (getrange name argv) :=
  Act.withinE_bind (withinE_exactArgs _ _) fun _ => Act.withinE_bind (withinE_intArg _) fun _ =>
    Act.withinE_bind (withinE_intArg _) fun _ => Act.withinE_bind (withinE_checkType _ _) fun _ =>
    Act.withinE_bind (withinE_look (getString_glances _)) fun _ => Act.withinE_pure _

theorem setrange_marks (config : Config) : Act.WithinE Marked (setrange config argv) := by
  unfold setrange
  refine Act.withinE_bind (withinE_exactArgs _ _) fun _ => ?_
  refine Act.withinE_bind (withinE_intArg _) fun offset => Act.withinE_ite (Act.withinE_pure _) ?_
  refine Act.withinE_bind (withinE_checkType _ _) fun _ => ?_
  refine Act.withinE_bind (withinE_look (getString_glances _)) fun found => ?_
  refine Act.withinE_ite (Act.withinE_pure _) (Act.withinE_ite (Act.withinE_pure _) ?_)
  exact Act.withinE_bind (Act.withinE_lift (updateString_marks _ _)) fun _ => Act.withinE_pure _

theorem getexExpiry_within [Lookups P] : Act.WithinE P (getexExpiry argv) := by
  unfold getexExpiry
  refine Act.withinE_ite (Act.withinE_pure _) (Act.withinE_ite (Act.withinE_pure _) ?_)
  refine Act.withinE_ite ?_ (Act.withinE_throw _)
  refine Act.withinE_bind (withinE_intArg _) fun amount => withinE_guard ?_
  exact Act.withinE_bind (withinE_look (deadlineAfterMillis_glances _)) fun _ => Act.withinE_pure _

theorem getex_drains [Drains P] : Act.WithinE P (getex argv) := by
  unfold getex
  refine Act.withinE_bind (withinE_minArgs _ _) fun _ => ?_
  refine Act.withinE_bind getexExpiry_within fun expiry => ?_
  refine Act.withinE_bind (withinE_checkType _ _) fun _ => ?_
  refine Act.withinE_bind (withinE_look (getString_glances _)) fun value => ?_
  cases value with
  | none => exact Act.withinE_pure _
  | some value =>
    cases expiry with
    | keep => exact Act.withinE_pure _
    | clear =>
      exact Act.withinE_bind (Act.withinE_lift (Drains.setExpireAt _ _)) fun _ => Act.withinE_pure _
    | «at» deadline =>
      exact Act.withinE_bind (Act.withinE_lift (Drains.setExpireAt _ _)) fun _ => Act.withinE_pure _

/-- **String commands.** -/
theorem trend {config : Config} {name : String} {handler : Handler}
    (h : (name, handler) ∈ arms config) (argv : List Bytes) : Trend name (handler argv) := by
  simp only [arms, List.mem_cons, Prod.mk.injEq, List.not_mem_nil, or_false] at h
  rcases h with ⟨rfl, rfl⟩ | ⟨rfl, rfl⟩ | ⟨rfl, rfl⟩ | ⟨rfl, rfl⟩ | ⟨rfl, rfl⟩ | ⟨rfl, rfl⟩ |
    ⟨rfl, rfl⟩ | ⟨rfl, rfl⟩ | ⟨rfl, rfl⟩ | ⟨rfl, rfl⟩ | ⟨rfl, rfl⟩ | ⟨rfl, rfl⟩ | ⟨rfl, rfl⟩ |
    ⟨rfl, rfl⟩ | ⟨rfl, rfl⟩ | ⟨rfl, rfl⟩ | ⟨rfl, rfl⟩ | ⟨rfl, rfl⟩ | ⟨rfl, rfl⟩ | ⟨rfl, rfl⟩ |
    ⟨rfl, rfl⟩
  · exact .fills rfl rfl set_marks
  · exact .fills rfl rfl setnx_marks
  · exact .fills rfl rfl (setex_marks _ _)
  · exact .fills rfl rfl (setex_marks _ _)
  · exact .reads (answer_glances (withinE_exactArgs _ _) (getString_glances _))
  · exact .fills rfl rfl getset_marks
  · exact .of_drains rfl getdel_drains
  · exact .of_drains rfl getex_drains
  · exact .reads (Act.withinE_bind (withinE_minArgs _ _) fun _ =>
      Act.withinE_bind (withinE_look (Act.within_mapList mgetOne_glances _)) fun _ => Act.withinE_pure _)
  · exact .fills rfl rfl (mset_marks _ _)
  · exact .fills rfl rfl (mset_marks _ _)
  · exact .fills rfl rfl (Act.withinE_bind (withinE_exactArgs _ _) fun _ => applyIntegerDelta_marks _ _)
  · exact .fills rfl rfl (Act.withinE_bind (withinE_exactArgs _ _) fun _ => applyIntegerDelta_marks _ _)
  · exact .fills rfl rfl (Act.withinE_bind (withinE_exactArgs _ _) fun _ =>
      Act.withinE_bind (withinE_intArg _) fun _ => applyIntegerDelta_marks _ _)
  · exact .fills rfl rfl (Act.withinE_bind (withinE_exactArgs _ _) fun _ =>
      Act.withinE_bind (withinE_intArg _) fun _ => Act.withinE_ite (Act.withinE_pure _)
        (applyIntegerDelta_marks _ _))
  · exact .fills rfl rfl incrbyfloat_marks
  · exact .fills rfl rfl (append_marks config)
  · exact .reads (answer_glances (withinE_exactArgs _ _) (getString_glances _))
  · exact .reads (getrange_glances _)
  · exact .reads (getrange_glances _)
  · exact .fills rfl rfl (setrange_marks config)

end Strings

end Klyro
