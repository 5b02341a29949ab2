import Klyro.Commands.Strings
import Klyro.Effects.Lists

/-!
# What the string commands write

`Strings.does` — every string command writes the keys the key table names and nothing when it
fails.
-/

set_option autoImplicit false

namespace Klyro.Strings

-- the elaborator would evaluate the test of the range
attribute [local irreducible] addDuration

variable {W : Bytes → Prop} {argv : List Bytes} {strict : Bool} {known : List (Bytes × StoreType)}

theorem setnx_does (hW : 1 < argv.length → W (arg argv 1)) :
    Does strict [] W Reply.isError (setnx argv) := by
  refine does_exactArgs fun hlen => does_bind (looks_lift (reads_hasKey _)) fun there => ?_
  refine does_ite (fun _ => (looks_pure _).does) fun _ => ?_
  exact does_writes (writes_setString _ (hW (by omega))) fun _ => finishes_pure rfl

theorem setex_does (name : String) (unit : Int) (hW : 1 < argv.length → W (arg argv 1)) :
    Does strict [] W Reply.isError (setex name unit argv) := by
  refine does_exactArgs fun hlen => does_bind (looks_intArg _) fun amount => ?_
  refine does_ite (fun _ => (looks_pure _).does) fun _ => ?_
  have hkey := hW (by omega)
  refine does_writes (writes_setString _ hkey) fun _ => ?_
  refine finishes_bind (reads_deadlineAfterMillis _).writes fun deadline => ?_
  exact finishes_bind (writes_setExpireAt _ hkey) fun _ => finishes_pure rfl

theorem get_looks : Looks (get argv) :=
  looks_bind (looks_exactArgs _ _ _) fun _ => looks_bind (looks_checkType _ _) fun _ =>
    looks_bind (looks_lift (reads_getString _)) fun _ => looks_pure _

theorem getset_does (hW : 1 < argv.length → W (arg argv 1)) :
    Does strict [] W Reply.isError (getset argv) := by
  refine does_exactArgs fun hlen => does_checkType ?_
  refine does_bind (looks_lift (reads_getString _)) fun previous => ?_
  exact does_writes (writes_setString _ (hW (by omega))) fun _ => finishes_pure (isError_bulkOrNil _)

theorem getdel_does (hW : 1 < argv.length → W (arg argv 1)) :
    Does strict [] W Reply.isError (getdel argv) := by
  refine does_exactArgs fun hlen => does_checkType ?_
  refine does_bind (looks_lift (reads_getString _)) fun value => ?_
  refine does_ite (fun _ => ?_) fun _ => (looks_pure _).does
  exact does_writes (writes_del (hW (by omega))) fun _ => finishes_pure (isError_bulkOrNil _)

theorem mgetOne_reads (key : Bytes) : Reads (mgetOne key) := by
  refine reads_bind (reads_peekType key) fun found => ?_
  split
  · exact reads_bind (reads_getString key) fun _ => reads_pure _
  · exact reads_pure _

theorem mget_looks : Looks (mget argv) :=
  looks_bind (looks_minArgs _ _ _) fun _ =>
    looks_bind (looks_lift (reads_mapList mgetOne_reads _)) fun _ => looks_pure _

theorem anyExists_reads : ∀ pairs, Reads (anyExists pairs)
  | [] => reads_pure _
  | (key, _) :: pairs => reads_bind (reads_hasKey key) fun _ =>
      reads_ite (fun _ => reads_pure _) fun _ => anyExists_reads pairs

theorem mset_does (name : String) (onlyIfNone : Bool) (hW : ∀ p ∈ pairsOf (argv.drop 1), W p.1) :
    Does strict [] W Reply.isError (mset name onlyIfNone argv) := by
  refine does_bind (looks_minArgs _ _ _) fun _ => does_guard rfl fun _ => ?_
  refine does_branch (looks_lift (anyExists_reads _)) (looks_pure _) fun taken => ?_
  refine does_ite (fun _ => (looks_pure _).does) fun _ => ?_
  refine does_writes (writes_forList fun p hp => writes_setString _ (hW p hp)) fun _ =>
    finishes_pure ?_
  cases onlyIfNone <;> rfl

/-- What is stored once the current number is known. -/
theorem storeSum_does (key : Bytes) (delta value : Int) (hW : W key) :
    Does strict known W Reply.isError (match checkedAdd value delta with
      | none => pure wouldOverflow
      | some updated => do
        Store.updateString key (showIntBytes updated)
        return .integer updated) := by
  cases checkedAdd value delta with
  | none => exact (looks_pure _).does
  | some updated => exact does_writes (writes_updateString _ hW) fun _ => finishes_pure rfl

theorem applyIntegerDelta_does (key : Bytes) (delta : Int) (hW : W key) :
    Does strict [] W Reply.isError (applyIntegerDelta key delta) := by
  refine does_checkType (does_bind (looks_lift (reads_getString _)) fun current => ?_)
  cases current with
  | none => exact storeSum_does key delta 0 hW
  | some current => exact does_bind (looks_orThrow rfl _) fun value => storeSum_does key delta value hW

theorem incr_does (name : String) (delta : Int) (hW : 1 < argv.length → W (arg argv 1)) :
    Does strict [] W Reply.isError (incr name delta argv) :=
  does_exactArgs fun hlen => applyIntegerDelta_does _ _ (hW (by omega))

theorem incrby_does (hW : 1 < argv.length → W (arg argv 1)) :
    Does strict [] W Reply.isError (incrby argv) :=
  does_exactArgs fun hlen => does_bind (looks_intArg _) fun _ =>
    applyIntegerDelta_does _ _ (hW (by omega))

theorem decrby_does (hW : 1 < argv.length → W (arg argv 1)) :
    Does strict [] W Reply.isError (decrby argv) :=
  does_exactArgs fun hlen => does_bind (looks_intArg _) fun _ =>
    does_ite (fun _ => (looks_pure _).does) fun _ => applyIntegerDelta_does _ _ (hW (by omega))

theorem incrbyfloat_does (hW : 1 < argv.length → W (arg argv 1)) :
    Does strict [] W Reply.isError (incrbyfloat argv) := by
  refine does_exactArgs fun hlen => does_bind (looks_floatArg _) fun amount => does_checkType ?_
  refine does_bind (looks_lift (reads_getString _)) fun found => ?_
  have hwrite : ∀ current : F64, Does strict [(arg argv 1, .string)] W Reply.isError
      (if !(current.add amount).isFinite then
          pure (.error "ERR increment would produce NaN or Infinity")
        else do
          Store.updateString (arg argv 1) (formatF64 (current.add amount))
          return .bulk (formatF64 (current.add amount))) := by
    intro current
    refine does_ite (fun _ => (looks_pure _).does) fun _ => ?_
    exact does_writes (writes_updateString _ (hW (by omega))) fun _ => finishes_pure rfl
  cases found with
  | none => exact hwrite _
  | some v => exact does_bind (looks_orThrow rfl _) hwrite

theorem append_does (config : Config) (hW : 1 < argv.length → W (arg argv 1)) :
    Does strict [] W Reply.isError (append config argv) := by
  refine does_exactArgs fun hlen => does_checkType ?_
  refine does_bind (looks_lift (reads_getString _)) fun found => ?_
  refine does_ite (fun _ => (looks_pure _).does) fun _ => ?_
  exact does_writes (writes_updateString _ (hW (by omega))) fun _ => finishes_pure rfl

theorem strlen_looks : Looks (strlen argv) :=
  looks_bind (looks_exactArgs _ _ _) fun _ => looks_bind (looks_checkType _ _) fun _ =>
    looks_bind (looks_lift (reads_getString _)) fun _ => looks_pure _

theorem getrange_looks (name : String) : Looks (getrange name argv) :=
  looks_bind (looks_exactArgs _ _ _) fun _ => looks_bind (looks_intArg _) fun _ =>
    looks_bind (looks_intArg _) fun _ => looks_bind (looks_checkType _ _) fun _ =>
    looks_bind (looks_lift (reads_getString _)) fun _ => looks_pure _

theorem setrange_does (config : Config) (hW : 1 < argv.length → W (arg argv 1)) :
    Does strict [] W Reply.isError (setrange config argv) := by
  refine does_exactArgs fun hlen => does_bind (looks_intArg _) fun offset => ?_
  refine does_ite (fun _ => (looks_pure _).does) fun _ => does_checkType ?_
  refine does_bind (looks_lift (reads_getString _)) fun found => ?_
  refine does_ite (fun _ => (looks_pure _).does) fun _ => ?_
  refine does_ite (fun _ => (looks_pure _).does) fun _ => ?_
  exact does_writes (writes_updateString _ (hW (by omega))) fun _ => finishes_pure rfl

theorem takesArgument_looks (rest : List Bytes) (unit : Int) (absolute : Bool) :
    Looks (takesArgument rest unit absolute) := by
  cases rest with
  | nil => exact looks_throw rfl
  | cons word rest =>
    unfold takesArgument
    refine looks_bind (looks_intArg _) fun amount => looks_guard rfl ?_
    cases absolute with
    | true => exact looks_bind (looks_lift (reads_epochPlusMillis _)) fun _ => looks_pure _
    | false => exact looks_bind (looks_lift (reads_deadlineAfterMillis _)) fun _ => looks_pure _

theorem setOptions_looks : ∀ fuel words options, Looks (setOptions fuel words options)
  | 0, _, _ => looks_pure _
  | _ + 1, [], _ => looks_pure _
  | fuel + 1, option :: rest, options => by
    unfold setOptions
    refine looks_ite (fun _ => setOptions_looks fuel _ _) fun _ => ?_
    refine looks_ite (fun _ => setOptions_looks fuel _ _) fun _ => ?_
    refine looks_ite (fun _ => setOptions_looks fuel _ _) fun _ => ?_
    refine looks_ite (fun _ => setOptions_looks fuel _ _) fun _ => ?_
    refine looks_ite (fun _ => looks_bind (takesArgument_looks _ _ _) fun _ =>
      setOptions_looks fuel _ _) fun _ => ?_
    refine looks_ite (fun _ => looks_bind (takesArgument_looks _ _ _) fun _ =>
      setOptions_looks fuel _ _) fun _ => ?_
    refine looks_ite (fun _ => looks_bind (takesArgument_looks _ _ _) fun _ =>
      setOptions_looks fuel _ _) fun _ => ?_
    exact looks_ite (fun _ => looks_bind (takesArgument_looks _ _ _) fun _ =>
      setOptions_looks fuel _ _) fun _ => looks_throw rfl

theorem store_writes (key value : Bytes) (expiry : Expiry) (hW : W key) :
    Writes strict known W (store key value expiry) := by
  cases expiry with
  | keep => exact writes_updateString _ hW
  | clear => exact writes_setString _ hW
  | «at» deadline =>
    exact writes_bind (writes_setString _ hW) fun _ =>
      writes_bind (writes_setExpireAt _ hW) fun _ => (reads_pure _).writes

theorem set_does (hW : 1 < argv.length → W (arg argv 1)) :
    Does strict [] W Reply.isError (set argv) := by
  refine does_minArgs fun hlen => does_bind (setOptions_looks _ _ _) fun options =>
    does_guard rfl fun _ => ?_
  have hwrite : ∀ (known : List (Bytes × StoreType)) (previous : Option Bytes),
      Does strict known W Reply.isError (do
        let there ← Store.hasKey (arg argv 1)
        if (options.onlyIfAbsent && there) || (options.onlyIfPresent && !there) then
          return if options.returnOld then bulkOrNil previous else .nil
        store (arg argv 1) (arg argv 2) options.expiry
        return if options.returnOld then bulkOrNil previous else .ok) := by
    intro known previous
    refine does_bind (looks_lift (reads_hasKey _)) fun there => ?_
    refine does_ite (fun _ => (looks_pure _).does) fun _ => ?_
    refine does_writes (store_writes _ _ _ (hW (by omega))) fun _ => finishes_pure ?_
    split
    · exact isError_bulkOrNil _
    · rfl
  refine does_ite (fun _ => does_checkType ?_) fun _ => hwrite [] none
  exact does_bind (looks_lift (reads_getString _)) fun previous => hwrite _ previous

theorem getexExpiry_looks : Looks (getexExpiry argv) := by
  refine looks_ite (fun _ => looks_pure _) fun _ => looks_ite (fun _ => looks_pure _) fun _ => ?_
  refine looks_ite (fun _ => looks_bind (looks_intArg _) fun _ => looks_guard rfl ?_) fun _ =>
    looks_throw rfl
  exact looks_bind (looks_lift (reads_deadlineAfterMillis _)) fun _ => looks_pure _

theorem getex_does (hW : 1 < argv.length → W (arg argv 1)) :
    Does strict [] W Reply.isError (getex argv) := by
  refine does_minArgs fun hlen => does_bind getexExpiry_looks fun expiry => does_checkType ?_
  refine does_bind (looks_lift (reads_getString _)) fun found => ?_
  cases found with
  | none => exact (looks_pure _).does
  | some value =>
    cases expiry with
    | keep => exact (looks_pure _).does
    | clear => exact does_writes (writes_setExpireAt _ (hW hlen)) fun _ => finishes_pure rfl
    | «at» deadline =>
      exact does_writes (writes_setExpireAt _ (hW hlen)) fun _ => finishes_pure rfl

/-- **String commands** write what the key table names. -/
theorem does {config : Config} {name : String} {handler : Handler}
    (h : (name, handler) ∈ arms config) (argv : List Bytes) :
    Does strict [] (Named name argv) Reply.isError (handler argv) := by
  simp only [arms, List.mem_cons, Prod.mk.injEq, List.not_mem_nil, or_false] at h
  rcases h with ⟨rfl, rfl⟩ | ⟨rfl, rfl⟩ | ⟨rfl, rfl⟩ | ⟨rfl, rfl⟩ | ⟨rfl, rfl⟩ | ⟨rfl, rfl⟩ |
    ⟨rfl, rfl⟩ | ⟨rfl, rfl⟩ | ⟨rfl, rfl⟩ | ⟨rfl, rfl⟩ | ⟨rfl, rfl⟩ | ⟨rfl, rfl⟩ | ⟨rfl, rfl⟩ |
    ⟨rfl, rfl⟩ | ⟨rfl, rfl⟩ | ⟨rfl, rfl⟩ | ⟨rfl, rfl⟩ | ⟨rfl, rfl⟩ | ⟨rfl, rfl⟩ | ⟨rfl, rfl⟩ |
    ⟨rfl, rfl⟩
  · exact set_does (named_first rfl)
  · exact setnx_does (named_first rfl)
  · exact setex_does _ _ (named_first rfl)
  · exact setex_does _ _ (named_first rfl)
  · exact get_looks.does
  · exact getset_does (named_first rfl)
  · exact getdel_does (named_first rfl)
  · exact getex_does (named_first rfl)
  · exact mget_looks.does
  · exact mset_does _ _ fun p hp => named_pairs rfl hp
  · exact mset_does _ _ fun p hp => named_pairs rfl hp
  · exact incr_does _ _ (named_first rfl)
  · exact incr_does _ _ (named_first rfl)
  · exact incrby_does (named_first rfl)
  · exact decrby_does (named_first rfl)
  · exact incrbyfloat_does (named_first rfl)
  · exact append_does config (named_first rfl)
  · exact strlen_looks.does
  · exact (getrange_looks _).does
  · exact (getrange_looks _).does
  · exact setrange_does config (named_first rfl)

end Klyro.Strings
