import Klyro.Commands.Execute
import Klyro.Commands.Parks
import Klyro.Resp.Frame

/-!
# Replies of one line

A status text is written to the wire as it is, so a line break in one would break the frame.  No
command answers with such a text.

* `Stops m` — what a handler stops early with is an error.
* `Plain m` — what a handler answers with otherwise has only one-line statuses.
* `plain`, for each family — the arms of its handler, one by one.
-/

set_option autoImplicit false

namespace Klyro

open Act

variable {name : String} {argv : List Bytes}

/-! ## Statuses -/

theorem Reply.oneLineItems_iff : ∀ items : List Reply,
    Reply.OneLineItems items ↔ ∀ item ∈ items, item.OneLine
  | [] => by simp [Reply.OneLineItems]
  | item :: items => by simp [Reply.OneLineItems, Reply.oneLineItems_iff items]

theorem Reply.oneLinePairs_iff : ∀ pairs : List (Reply × Reply),
    Reply.OneLinePairs pairs ↔ ∀ p ∈ pairs, p.1.OneLine ∧ p.2.OneLine
  | [] => by simp [Reply.OneLinePairs]
  | (key, value) :: pairs => by
    simp [Reply.OneLinePairs, Reply.oneLinePairs_iff pairs, and_assoc]

namespace Reply

theorem oneLine_array {items : List Reply} (h : ∀ item ∈ items, item.OneLine) :
    (array items).OneLine := (oneLineItems_iff items).mpr h

theorem oneLine_set {items : List Reply} (h : ∀ item ∈ items, item.OneLine) :
    (set items).OneLine := (oneLineItems_iff items).mpr h

theorem oneLine_push {items : List Reply} (h : ∀ item ∈ items, item.OneLine) :
    (push items).OneLine := (oneLineItems_iff items).mpr h

theorem oneLine_map {pairs : List (Reply × Reply)} (h : ∀ p ∈ pairs, p.1.OneLine ∧ p.2.OneLine) :
    (map pairs).OneLine := (oneLinePairs_iff pairs).mpr h

theorem oneLine_ok : ok.OneLine := by
  unfold ok OneLine
  decide

theorem oneLine_of_isError {r : Reply} (h : r.isError = true) : r.OneLine := by
  cases r with
  | error message => trivial
  | _ => cases h

theorem oneLine_bulks (items : List Bytes) : ∀ item ∈ items.map bulk, item.OneLine := by
  intro item hitem
  obtain ⟨payload, -, rfl⟩ := List.mem_map.mp hitem
  trivial

theorem oneLine_bulkArray (items : List Bytes) : (bulkArray items).OneLine :=
  oneLine_array (oneLine_bulks items)

theorem oneLine_pushed (kind : String) {rest : List Reply} (h : ∀ item ∈ rest, item.OneLine) :
    (pushed kind rest).OneLine := by
  refine oneLine_push fun item hitem => ?_
  rcases List.mem_cons.mp hitem with rfl | hitem
  · trivial
  · exact h item hitem

end Reply

open Reply

theorem oneLine_bulkOrNil (value : Option Bytes) : (bulkOrNil value).OneLine := by
  cases value <;> trivial

/-- A handler whose answer, when it gives one, has only one-line statuses. -/
abbrev Plain (m : Cmd Reply) : Prop := Act.ReturnsE Reply.OneLine m

/-! ## Refusals -/

/-- What a handler stops early with is an error. -/
def Stops {α : Type} (m : Cmd α) : Prop := ∀ (e : Env) (s : Store) (w : World),
  Act.SatE m e s w (fun _ _ _ => True) (fun r _ _ => r.isError = true) (fun _ => True)

theorem Does.stops {α : Type} {W : Bytes → Prop} {mute : α → Bool} {m : Cmd α}
    (h : Does false [] W mute m) : Stops m := fun e s w =>
  Act.satE_mono (h e s w (typed_nil s)) (fun _ _ _ _ => trivial) (fun _ _ _ h => h.1)
    (fun _ _ => trivial)

theorem Keeps.stops {α : Type} {W : Bytes → Prop} {m : Cmd α} (h : Keeps W m) : Stops m :=
  fun e s w => Act.satE_mono (h e s w) (fun _ _ _ _ => trivial) (fun _ _ _ h => h.1)
    (fun _ _ => trivial)

theorem zincrby_stops : Stops (Zsets.zincrby argv) := fun e s w =>
  Act.satE_mono (Zsets.zincrby_moves (W := fun _ => True) (fun _ => trivial) e s w)
    (fun _ _ _ _ => trivial) (fun _ _ _ h => h.1) (fun _ _ => trivial)

/-- A handler that stops early with an error only is plain whichever way it ends. -/
theorem answer_plain {m : Cmd Reply} (hfail : Stops m) (hok : Plain m) :
    Act.Returns Reply.OneLine (answer m) := by
  intro e s w
  unfold answer
  rw [Act.sat_bind]
  refine Act.sat_mono (Act.sat_and (hfail e s w) (hok e s w)) ?_ (fun _ h => h.1)
  rintro r s' w' ⟨herror, hplain⟩
  cases r with
  | ok reply => exact hplain reply rfl
  | error reply => exact oneLine_of_isError herror

/-! ## The families of the keyspace -/

namespace Generic

theorem del_plain (name : String) : Plain (del name argv) :=
  returnsE_bind fun _ => returnsE_bind fun _ => returnsE_pure trivial

theorem expireVariant_plain (name : String) (toDeadline : Int → Run Store SystemTime) :
    Plain (expireVariant name toDeadline argv) :=
  returnsE_bind fun _ => returnsE_bind fun _ => returnsE_bind fun _ => returnsE_bind fun _ =>
    returnsE_pure trivial

theorem persist_plain : Plain (persist argv) := by
  refine returnsE_bind fun _ => returnsE_bind fun hadExpiry => ?_
  exact returnsE_ite (returnsE_bind fun _ => returnsE_pure trivial) (returnsE_pure trivial)

theorem type_plain : Plain (type argv) := by
  refine returnsE_bind fun _ => returnsE_bind fun found => returnsE_pure ?_
  cases found with
  | none => unfold OneLine; decide
  | some found => cases found <;> (unfold OneLine; decide)

theorem rename_plain : Plain (rename argv) := by
  refine returnsE_bind fun _ => returnsE_bind fun there => returnsE_ite (returnsE_pure trivial) ?_
  exact returnsE_bind fun _ => returnsE_pure oneLine_ok

theorem renamenx_plain : Plain (renamenx argv) := by
  refine returnsE_bind fun _ => returnsE_bind fun there => returnsE_ite (returnsE_pure trivial) ?_
  have hrest : ∀ taken : Bool, Plain (if taken = true then pure (.bool false) else do
      let _ ← Store.rename (arg argv 1) (arg argv 2)
      return .bool true) := fun _ =>
    returnsE_ite (returnsE_pure trivial) (returnsE_bind fun _ => returnsE_pure trivial)
  exact returnsE_ite (returnsE_bind hrest) (returnsE_bind hrest)

theorem scan_plain (config : Config) : Plain (scan config argv) := by
  refine returnsE_bind fun _ => returnsE_bind fun _ => returnsE_bind fun _ => returnsE_bind fun _ =>
    returnsE_pure (oneLine_array ?_)
  simp [text, OneLine, oneLine_bulkArray]

theorem plain {config : Config} {handler : Handler} (h : (name, handler) ∈ arms config)
    (argv : List Bytes) : Plain (handler argv) := by
  simp only [arms, List.mem_cons, Prod.mk.injEq, List.not_mem_nil, or_false] at h
  rcases h with ⟨-, rfl⟩ | ⟨-, rfl⟩ | ⟨-, rfl⟩ | ⟨-, rfl⟩ | ⟨-, rfl⟩ | ⟨-, rfl⟩ | ⟨-, rfl⟩ |
    ⟨-, rfl⟩ | ⟨-, rfl⟩ | ⟨-, rfl⟩ | ⟨-, rfl⟩ | ⟨-, rfl⟩ | ⟨-, rfl⟩ | ⟨-, rfl⟩ | ⟨-, rfl⟩ |
    ⟨-, rfl⟩ | ⟨-, rfl⟩ | ⟨-, rfl⟩ | ⟨-, rfl⟩ | ⟨-, rfl⟩
  · exact del_plain _
  · exact del_plain _
  · exact returnsE_bind fun _ => returnsE_bind fun _ => returnsE_pure trivial
  · exact expireVariant_plain _ _
  · exact expireVariant_plain _ _
  · exact expireVariant_plain _ _
  · exact expireVariant_plain _ _
  · exact persist_plain
  · exact returnsE_bind fun _ => returnsE_bind fun _ => returnsE_pure trivial
  · exact returnsE_bind fun _ => returnsE_bind fun _ => returnsE_pure trivial
  · exact type_plain
  · exact returnsE_bind fun _ => returnsE_bind fun _ => returnsE_pure (oneLine_bulkArray _)
  · exact scan_plain config
  · exact returnsE_bind fun _ => returnsE_bind fun _ => returnsE_pure trivial
  · exact rename_plain
  · exact renamenx_plain
  · exact returnsE_bind fun _ => returnsE_bind fun _ => returnsE_bind fun _ => returnsE_pure trivial
  · exact returnsE_bind fun _ => returnsE_bind fun _ => returnsE_pure (oneLine_bulkOrNil _)
  · exact returnsE_bind fun _ => returnsE_pure oneLine_ok
  · exact returnsE_bind fun _ => returnsE_pure oneLine_ok

end Generic

namespace Strings

theorem applyIntegerDelta_plain (key : Bytes) (delta : Int) : Plain (applyIntegerDelta key delta) := by
  refine returnsE_bind fun _ => returnsE_bind fun current => ?_
  -- the number added to is 0 or the one stored
  rcases current with - | current
  all_goals
    refine returnsE_bind fun value => ?_
    dsimp only
    cases checkedAdd value delta with
    | none => exact returnsE_pure trivial
    | some updated => exact returnsE_bind fun _ => returnsE_pure trivial

theorem setex_plain (name : String) (unit : Int) : Plain (setex name unit argv) := by
  refine returnsE_bind fun _ => returnsE_bind fun amount => returnsE_ite (returnsE_pure trivial) ?_
  exact returnsE_bind fun _ => returnsE_bind fun _ => returnsE_bind fun _ => returnsE_pure oneLine_ok

theorem getdel_plain : Plain (getdel argv) := by
  refine returnsE_bind fun _ => returnsE_bind fun _ => returnsE_bind fun value => ?_
  exact returnsE_ite (returnsE_bind fun _ => returnsE_pure (oneLine_bulkOrNil _))
    (returnsE_pure (oneLine_bulkOrNil _))

theorem mgetOne_plain (key : Bytes) : Act.Returns Reply.OneLine (mgetOne key) := by
  refine returns_bind fun found => ?_
  rcases found with - | found
  · exact returns_pure trivial
  · cases found with
    | string => exact returns_bind fun _ => returns_pure (oneLine_bulkOrNil _)
    | _ => exact returns_pure trivial

theorem mget_plain : Plain (mget argv) :=
  returnsE_bind fun _ => returnsE_bind_of (returnsE_lift (returns_mapList mgetOne_plain _))
    fun _ h => returnsE_pure (oneLine_array h)

theorem mset_plain (name : String) (onlyIfNone : Bool) : Plain (mset name onlyIfNone argv) := by
  refine returnsE_bind fun _ => returnsE_guard ?_
  have hrest : ∀ taken : Bool, Plain (if taken = true then pure (.bool false) else do
      Act.forList (fun p => Store.setString p.1 p.2) (pairsOf (argv.drop 1))
      return if onlyIfNone then .bool true else .ok) := by
    refine fun _ => returnsE_ite (returnsE_pure trivial) (returnsE_bind fun _ => returnsE_pure ?_)
    cases onlyIfNone with
    | true => trivial
    | false => exact oneLine_ok
  exact returnsE_ite (returnsE_bind hrest) (returnsE_bind hrest)

theorem incrbyfloat_plain : Plain (incrbyfloat argv) := by
  refine returnsE_bind fun _ => returnsE_bind fun amount => returnsE_bind fun _ =>
    returnsE_bind fun found => ?_
  have hrest : ∀ current : F64, Plain (if !(current.add amount).isFinite then
      pure (.error "ERR increment would produce NaN or Infinity") else do
      Store.updateString (arg argv 1) (formatF64 (current.add amount))
      return .bulk (formatF64 (current.add amount))) := fun _ =>
    returnsE_ite (returnsE_pure trivial) (returnsE_bind fun _ => returnsE_pure trivial)
  cases found with
  | none => exact returnsE_bind hrest
  | some v => exact returnsE_bind hrest

theorem append_plain (config : Config) : Plain (append config argv) := by
  refine returnsE_bind fun _ => returnsE_bind fun _ => returnsE_bind fun found => ?_
  exact returnsE_ite (returnsE_pure trivial) (returnsE_bind fun _ => returnsE_pure trivial)

theorem setrange_plain (config : Config) : Plain (setrange config argv) := by
  refine returnsE_bind fun _ => returnsE_bind fun offset => returnsE_ite (returnsE_pure trivial) ?_
  refine returnsE_bind fun _ => returnsE_bind fun found => returnsE_ite (returnsE_pure trivial) ?_
  exact returnsE_ite (returnsE_pure trivial) (returnsE_bind fun _ => returnsE_pure trivial)

/-- What `SET` answers with when it was asked for the old value, and else. -/
theorem oneLine_old (old : Bool) (previous : Option Bytes) {r : Reply} (h : r.OneLine) :
    (if old then bulkOrNil previous else r).OneLine := by
  cases old with
  | true => exact oneLine_bulkOrNil previous
  | false => exact h

theorem set_plain : Plain (set argv) := by
  refine returnsE_bind fun _ => returnsE_bind fun options => returnsE_guard ?_
  have hrest : ∀ previous : Option Bytes, Plain (do
      let there ← Store.hasKey (arg argv 1)
      if (options.onlyIfAbsent && there) || (options.onlyIfPresent && !there) then
        return if options.returnOld then bulkOrNil previous else .nil
      store (arg argv 1) (arg argv 2) options.expiry
      return if options.returnOld then bulkOrNil previous else .ok) := fun previous =>
    returnsE_bind fun there => returnsE_ite (returnsE_pure (oneLine_old _ _ trivial))
      (returnsE_bind fun _ => returnsE_pure (oneLine_old _ _ oneLine_ok))
  exact returnsE_ite (returnsE_bind fun _ => returnsE_bind hrest) (returnsE_bind hrest)

theorem getex_plain : Plain (getex argv) := by
  refine returnsE_bind fun _ => returnsE_bind fun expiry => returnsE_bind fun _ =>
    returnsE_bind fun found => ?_
  cases found with
  | none => exact returnsE_pure trivial
  | some value =>
    cases expiry with
    | keep => exact returnsE_pure trivial
    | clear => exact returnsE_bind fun _ => returnsE_pure trivial
    | «at» deadline => exact returnsE_bind fun _ => returnsE_pure trivial

theorem plain {config : Config} {handler : Handler} (h : (name, handler) ∈ arms config)
    (argv : List Bytes) : Plain (handler argv) := by
  simp only [arms, List.mem_cons, Prod.mk.injEq, List.not_mem_nil, or_false] at h
  rcases h with ⟨-, rfl⟩ | ⟨-, rfl⟩ | ⟨-, rfl⟩ | ⟨-, rfl⟩ | ⟨-, rfl⟩ | ⟨-, rfl⟩ | ⟨-, rfl⟩ |
    ⟨-, rfl⟩ | ⟨-, rfl⟩ | ⟨-, rfl⟩ | ⟨-, rfl⟩ | ⟨-, rfl⟩ | ⟨-, rfl⟩ | ⟨-, rfl⟩ | ⟨-, rfl⟩ |
    ⟨-, rfl⟩ | ⟨-, rfl⟩ | ⟨-, rfl⟩ | ⟨-, rfl⟩ | ⟨-, rfl⟩ | ⟨-, rfl⟩
  · exact set_plain
  · exact returnsE_bind fun _ => returnsE_bind fun _ => returnsE_ite (returnsE_pure trivial)
      (returnsE_bind fun _ => returnsE_pure trivial)
  · exact setex_plain _ _
  · exact setex_plain _ _
  · exact returnsE_bind fun _ => returnsE_bind fun _ => returnsE_bind fun _ =>
      returnsE_pure (oneLine_bulkOrNil _)
  · exact returnsE_bind fun _ => returnsE_bind fun _ => returnsE_bind fun _ => returnsE_bind fun _ =>
      returnsE_pure (oneLine_bulkOrNil _)
  · exact getdel_plain
  · exact getex_plain
  · exact mget_plain
  · exact mset_plain _ _
  · exact mset_plain _ _
  · exact returnsE_bind fun _ => applyIntegerDelta_plain _ _
  · exact returnsE_bind fun _ => applyIntegerDelta_plain _ _
  · exact returnsE_bind fun _ => returnsE_bind fun _ => applyIntegerDelta_plain _ _
  · exact returnsE_bind fun _ => returnsE_bind fun _ => returnsE_ite (returnsE_pure trivial)
      (applyIntegerDelta_plain _ _)
  · exact incrbyfloat_plain
  · exact append_plain config
  · exact returnsE_bind fun _ => returnsE_bind fun _ => returnsE_bind fun _ => returnsE_pure trivial
  · exact returnsE_bind fun _ => returnsE_bind fun _ => returnsE_bind fun _ => returnsE_bind fun _ =>
      returnsE_bind fun _ => returnsE_pure trivial
  · exact returnsE_bind fun _ => returnsE_bind fun _ => returnsE_bind fun _ => returnsE_bind fun _ =>
      returnsE_bind fun _ => returnsE_pure trivial
  · exact setrange_plain config

end Strings

namespace Lists

theorem push_plain (name : String) (side : End) (onlyIfPresent : Bool) :
    Plain (push name side onlyIfPresent argv) := by
  refine returnsE_bind fun _ => returnsE_bind fun _ => ?_
  have hrest : ∀ absent : Bool, Plain (if absent = true then pure (.integer 0) else do
      let len ← Store.getOrCreateList (arg argv 1) (Act.state fun l =>
        let l := (argv.drop 2).foldl (fun l value => pushTo l side value) l
        (l.length, l))
      let len ← expect "type checked" len
      return .integer len) := fun _ => returnsE_ite (returnsE_pure trivial)
    (returnsE_bind fun _ => returnsE_bind fun _ => returnsE_pure trivial)
  exact returnsE_ite (returnsE_bind fun _ => returnsE_bind hrest) (returnsE_bind hrest)

theorem lpop_plain (name : String) (side : End) : Plain (lpop name side argv) := by
  refine returnsE_bind fun _ => returnsE_bind fun count => returnsE_bind fun _ =>
    returnsE_bind fun popped => returnsE_bind fun _ => returnsE_pure ?_
  cases count with
  | none => exact oneLine_bulkOrNil _
  | some n =>
    dsimp only
    split
    · trivial
    · exact oneLine_bulkArray _

theorem linsert_plain : Plain (linsert argv) := by
  refine returnsE_bind fun _ => returnsE_ite (returnsE_bind fun before => ?_)
    (returnsE_ite (returnsE_bind fun before => ?_)
      (returnsE_bind_of (returnsE_throw (P := fun _ => False) _) fun _ h => h.elim))
  all_goals
    refine returnsE_bind fun _ => returnsE_bind fun newLen => ?_
    cases newLen.join with
    | none => exact returnsE_bind fun _ => returnsE_pure trivial
    | some len => exact returnsE_pure trivial

theorem lset_plain : Plain (lset argv) := by
  refine returnsE_bind fun _ => returnsE_bind fun _ => returnsE_bind fun _ =>
    returnsE_bind fun found => returnsE_pure ?_
  rcases found with - | (- | -)
  · trivial
  · trivial
  · exact oneLine_ok

theorem moveBetween_plain (ends : End × End) : Plain (moveBetween argv ends) :=
  returnsE_bind fun _ => returnsE_bind fun _ => returnsE_bind fun _ =>
    returnsE_pure (oneLine_bulkOrNil _)

theorem plain {handler : Handler} (h : (name, handler) ∈ arms) (argv : List Bytes) :
    Plain (handler argv) := by
  simp only [arms, List.mem_cons, Prod.mk.injEq, List.not_mem_nil, or_false] at h
  rcases h with ⟨-, rfl⟩ | ⟨-, rfl⟩ | ⟨-, rfl⟩ | ⟨-, rfl⟩ | ⟨-, rfl⟩ | ⟨-, rfl⟩ | ⟨-, rfl⟩ |
    ⟨-, rfl⟩ | ⟨-, rfl⟩ | ⟨-, rfl⟩ | ⟨-, rfl⟩ | ⟨-, rfl⟩ | ⟨-, rfl⟩ | ⟨-, rfl⟩ | ⟨-, rfl⟩
  · exact push_plain _ _ _
  · exact push_plain _ _ _
  · exact push_plain _ _ _
  · exact push_plain _ _ _
  · exact lpop_plain _ _
  · exact lpop_plain _ _
  · exact returnsE_bind fun _ => returnsE_bind fun _ => returnsE_bind fun _ => returnsE_pure trivial
  · exact returnsE_bind fun _ => returnsE_bind fun _ => returnsE_bind fun _ => returnsE_bind fun _ =>
      returnsE_bind fun _ => returnsE_pure (oneLine_bulkArray _)
  · exact returnsE_bind fun _ => returnsE_bind fun _ => returnsE_bind fun _ => returnsE_bind fun _ =>
      returnsE_pure (oneLine_bulkOrNil _)
  · exact lset_plain
  · exact linsert_plain
  · exact returnsE_bind fun _ => returnsE_bind fun _ => returnsE_bind fun _ => returnsE_bind fun _ =>
      returnsE_bind fun _ => returnsE_pure trivial
  · exact returnsE_bind fun _ => returnsE_bind fun _ => returnsE_bind fun _ => returnsE_bind fun _ =>
      returnsE_bind fun _ => returnsE_bind fun _ => returnsE_pure oneLine_ok
  · exact returnsE_bind fun _ => moveBetween_plain _
  · exact returnsE_bind fun _ => returnsE_bind fun _ => moveBetween_plain _

end Lists

namespace Hashes

theorem hset_plain (name : String) {reply : Nat → Reply} (h : ∀ n, (reply n).OneLine) :
    Plain (hset name reply argv) := by
  refine returnsE_bind fun _ => returnsE_guard ?_
  exact returnsE_bind fun _ => returnsE_bind fun _ => returnsE_bind fun _ => returnsE_pure (h _)

theorem hsetnx_plain : Plain (hsetnx argv) := by
  refine returnsE_bind fun _ => returnsE_bind fun _ => returnsE_bind fun _ => returnsE_bind fun _ => ?_
  exact returnsE_ite (returnsE_pure trivial) (returnsE_bind fun _ => returnsE_pure trivial)

theorem hmget_plain : Plain (hmget argv) := by
  refine returnsE_bind fun _ => returnsE_bind fun _ => returnsE_bind fun hash =>
    returnsE_pure (oneLine_array fun item hitem => ?_)
  obtain ⟨field, -, rfl⟩ := List.mem_map.mp hitem
  exact oneLine_bulkOrNil _

theorem hgetall_plain : Plain (hgetall argv) := by
  refine returnsE_bind fun _ => returnsE_bind fun _ => returnsE_bind fun h =>
    returnsE_pure (oneLine_map fun p hp => ?_)
  cases h with
  | none => cases hp
  | some h =>
    obtain ⟨q, -, rfl⟩ := List.mem_map.mp hp
    exact ⟨trivial, trivial⟩

theorem hincrby_plain : Plain (hincrby argv) := by
  refine returnsE_bind fun _ => returnsE_bind fun delta => returnsE_bind fun _ =>
    returnsE_bind fun current => ?_
  rcases current with - | v
  all_goals
    refine returnsE_bind fun base => ?_
    dsimp only
    cases checkedAdd base delta with
    | none => exact returnsE_pure trivial
    | some updated => exact returnsE_bind fun _ => returnsE_bind fun _ => returnsE_pure trivial

theorem hincrbyfloat_plain : Plain (hincrbyfloat argv) := by
  refine returnsE_bind fun _ => returnsE_bind fun delta => returnsE_bind fun _ =>
    returnsE_bind fun current => ?_
  have hrest : ∀ base : F64, Plain (if !(base.add delta).isFinite then
      pure (.error "ERR increment would produce NaN or Infinity") else do
      let done ← Store.getOrCreateHash (arg argv 1) (Act.modify fun h =>
        h.insert (arg argv 2) (formatF64 (base.add delta)))
      expect "type checked" done
      return .bulk (formatF64 (base.add delta))) := fun _ =>
    returnsE_ite (returnsE_pure trivial)
      (returnsE_bind fun _ => returnsE_bind fun _ => returnsE_pure trivial)
  cases current with
  | none => exact returnsE_bind hrest
  | some v => exact returnsE_bind hrest

theorem plain {handler : Handler} (h : (name, handler) ∈ arms) (argv : List Bytes) :
    Plain (handler argv) := by
  simp only [arms, List.mem_cons, Prod.mk.injEq, List.not_mem_nil, or_false] at h
  rcases h with ⟨-, rfl⟩ | ⟨-, rfl⟩ | ⟨-, rfl⟩ | ⟨-, rfl⟩ | ⟨-, rfl⟩ | ⟨-, rfl⟩ | ⟨-, rfl⟩ |
    ⟨-, rfl⟩ | ⟨-, rfl⟩ | ⟨-, rfl⟩ | ⟨-, rfl⟩ | ⟨-, rfl⟩ | ⟨-, rfl⟩ | ⟨-, rfl⟩
  · exact hset_plain _ fun _ => trivial
  · exact hset_plain _ fun _ => oneLine_ok
  · exact hsetnx_plain
  · exact returnsE_bind fun _ => returnsE_bind fun _ => returnsE_bind fun _ =>
      returnsE_pure (oneLine_bulkOrNil _)
  · exact hmget_plain
  · exact returnsE_bind fun _ => returnsE_bind fun _ => returnsE_bind fun _ => returnsE_bind fun _ =>
      returnsE_pure trivial
  · exact returnsE_bind fun _ => returnsE_bind fun _ => returnsE_bind fun _ => returnsE_pure trivial
  · exact returnsE_bind fun _ => returnsE_bind fun _ => returnsE_bind fun _ => returnsE_pure trivial
  · exact returnsE_bind fun _ => returnsE_bind fun _ => returnsE_bind fun _ => returnsE_pure trivial
  · exact returnsE_bind fun _ => returnsE_bind fun _ => returnsE_bind fun _ =>
      returnsE_pure (oneLine_bulkArray _)
  · exact returnsE_bind fun _ => returnsE_bind fun _ => returnsE_bind fun _ =>
      returnsE_pure (oneLine_bulkArray _)
  · exact hgetall_plain
  · exact hincrby_plain
  · exact hincrbyfloat_plain

end Hashes

namespace Sets

theorem smismember_plain : Plain (smismember argv) := by
  refine returnsE_bind fun _ => returnsE_bind fun _ => returnsE_bind fun s =>
    returnsE_pure (oneLine_array fun item hitem => ?_)
  obtain ⟨m, -, rfl⟩ := List.mem_map.mp hitem
  trivial

theorem spop_plain : Plain (spop argv) := by
  refine returnsE_bind fun _ => returnsE_bind fun count => returnsE_ite (returnsE_pure trivial) ?_
  refine returnsE_bind fun _ => returnsE_bind fun taken => returnsE_bind fun _ => returnsE_pure ?_
  cases count with
  | none => exact oneLine_bulkOrNil _
  | some n => exact oneLine_set (oneLine_bulks _)

theorem srandmember_plain : Plain (srandmember argv) := by
  refine returnsE_bind fun _ => returnsE_bind fun count => returnsE_bind fun _ =>
    returnsE_bind fun s => ?_
  refine returnsE_ite (returnsE_bind fun picked => returnsE_pure ?_)
    (returnsE_bind fun picked => returnsE_pure ?_)
  all_goals
    cases count with
    | none => exact oneLine_bulkOrNil _
    | some n => exact oneLine_bulkArray _

theorem smove_plain : Plain (smove argv) := by
  refine returnsE_bind fun _ => returnsE_bind fun _ => returnsE_bind fun _ =>
    returnsE_bind fun removed => returnsE_ite (returnsE_pure trivial) ?_
  exact returnsE_bind fun _ => returnsE_bind fun _ => returnsE_bind fun _ => returnsE_pure trivial

theorem algebra_plain (name : String) (op : Algebra) : Plain (algebra name op argv) :=
  returnsE_bind fun _ => returnsE_bind fun _ => returnsE_bind fun _ =>
    returnsE_pure (oneLine_set (oneLine_bulks _))

theorem algebraStore_plain (name : String) (op : Algebra) : Plain (algebraStore name op argv) := by
  refine returnsE_bind fun _ => returnsE_bind fun _ => returnsE_bind fun _ =>
    returnsE_bind fun result => returnsE_bind fun _ => ?_
  exact returnsE_ite (returnsE_bind fun _ => returnsE_bind fun _ => returnsE_pure trivial)
    (returnsE_pure trivial)

theorem plain {handler : Handler} (h : (name, handler) ∈ arms) (argv : List Bytes) :
    Plain (handler argv) := by
  simp only [arms, List.mem_cons, Prod.mk.injEq, List.not_mem_nil, or_false] at h
  rcases h with ⟨-, rfl⟩ | ⟨-, rfl⟩ | ⟨-, rfl⟩ | ⟨-, rfl⟩ | ⟨-, rfl⟩ | ⟨-, rfl⟩ | ⟨-, rfl⟩ |
    ⟨-, rfl⟩ | ⟨-, rfl⟩ | ⟨-, rfl⟩ | ⟨-, rfl⟩ | ⟨-, rfl⟩ | ⟨-, rfl⟩ | ⟨-, rfl⟩ | ⟨-, rfl⟩
  · exact returnsE_bind fun _ => returnsE_bind fun _ => returnsE_bind fun _ => returnsE_bind fun _ =>
      returnsE_pure trivial
  · exact returnsE_bind fun _ => returnsE_bind fun _ => returnsE_bind fun _ => returnsE_bind fun _ =>
      returnsE_pure trivial
  · exact returnsE_bind fun _ => returnsE_bind fun _ => returnsE_bind fun _ => returnsE_pure trivial
  · exact smismember_plain
  · exact returnsE_bind fun _ => returnsE_bind fun _ => returnsE_bind fun _ => returnsE_pure trivial
  · exact returnsE_bind fun _ => returnsE_bind fun _ => returnsE_bind fun _ =>
      returnsE_pure (oneLine_set (oneLine_bulks _))
  · exact spop_plain
  · exact srandmember_plain
  · exact smove_plain
  · exact algebra_plain _ _
  · exact algebra_plain _ _
  · exact algebra_plain _ _
  · exact algebraStore_plain _ _
  · exact algebraStore_plain _ _
  · exact algebraStore_plain _ _

end Sets

namespace Zsets

theorem oneLine_pairsReply (pairs : List (Bytes × F64)) (withScores : Bool) :
    (pairsReply pairs withScores).OneLine := by
  cases withScores with
  | true => trivial
  | false => exact oneLine_bulkArray _

theorem oneLine_score (found : Option F64) :
    (match found with
      | some s => Reply.double s
      | none => .nil).OneLine := by
  cases found <;> trivial

theorem zmscore_plain : Plain (zmscore argv) := by
  refine returnsE_bind fun _ => returnsE_bind fun _ => returnsE_bind fun z =>
    returnsE_pure (oneLine_array fun item hitem => ?_)
  obtain ⟨m, -, rfl⟩ := List.mem_map.mp hitem
  exact oneLine_score _

theorem zincrby_plain : Plain (zincrby argv) := by
  refine returnsE_bind fun _ => returnsE_bind fun _ => returnsE_bind fun _ => returnsE_bind fun _ =>
    returnsE_bind fun updated => returnsE_ite ?_ (returnsE_pure trivial)
  exact returnsE_bind fun _ => returnsE_bind fun _ => returnsE_bind fun _ => returnsE_pure trivial

theorem zrank_plain (name : String) (rank : Zset → Bytes → Option Nat) :
    Plain (zrank name rank argv) := by
  refine returnsE_bind fun _ => returnsE_bind fun _ => returnsE_bind fun z => returnsE_pure ?_
  cases z.bind fun z => rank z (arg argv 2) <;> trivial

theorem zrange_plain (name : String) (range : Zset → Int → Int → List (Bytes × F64)) :
    Plain (zrange name range argv) :=
  returnsE_bind fun _ => returnsE_bind fun _ => returnsE_bind fun _ => returnsE_bind fun _ =>
    returnsE_bind fun _ => returnsE_bind fun _ => returnsE_pure (oneLine_pairsReply _ _)

theorem zrangebyscore_plain (name : String) (reversed : Bool) :
    Plain (zrangebyscore name reversed argv) := by
  refine returnsE_bind fun _ => ?_
  have hrest : ∀ bounds : ScoreBound × ScoreBound, Plain (do
      let scores ← withScores argv
      checkType (arg argv 1) .zset
      let z ← Store.readZset (arg argv 1)
      let pairs := (z.map fun z => z.rangeByScore bounds.1 bounds.2).getD []
      return pairsReply (if reversed then pairs.reverse else pairs) scores) := fun _ =>
    returnsE_bind fun _ => returnsE_bind fun _ => returnsE_bind fun _ =>
      returnsE_pure (oneLine_pairsReply _ _)
  exact returnsE_ite (returnsE_bind hrest) (returnsE_bind hrest)

theorem zpop_plain (name : String) (fromMax : Bool) : Plain (zpop name fromMax argv) := by
  refine returnsE_bind fun _ => returnsE_bind fun count => returnsE_bind fun _ =>
    returnsE_bind fun popped => returnsE_bind fun _ => returnsE_pure ?_
  cases count with
  | none =>
    dsimp only
    cases (popped.getD []).getLast? with
    | none => exact oneLine_array fun _ h => (by cases h)
    | some p => exact oneLine_array (by simp [OneLine])
  | some n => trivial

theorem zadd_plain (config : Config) : Plain (zadd config argv) := by
  refine returnsE_bind fun _ => returnsE_guard (returnsE_guard ?_)
  exact returnsE_bind fun _ => returnsE_bind fun _ => returnsE_bind fun _ => returnsE_bind fun _ =>
    returnsE_pure trivial

theorem plain {config : Config} {handler : Handler} (h : (name, handler) ∈ arms config)
    (argv : List Bytes) : Plain (handler argv) := by
  simp only [arms, List.mem_cons, Prod.mk.injEq, List.not_mem_nil, or_false] at h
  rcases h with ⟨-, rfl⟩ | ⟨-, rfl⟩ | ⟨-, rfl⟩ | ⟨-, rfl⟩ | ⟨-, rfl⟩ | ⟨-, rfl⟩ | ⟨-, rfl⟩ |
    ⟨-, rfl⟩ | ⟨-, rfl⟩ | ⟨-, rfl⟩ | ⟨-, rfl⟩ | ⟨-, rfl⟩ | ⟨-, rfl⟩ | ⟨-, rfl⟩ | ⟨-, rfl⟩ |
    ⟨-, rfl⟩ | ⟨-, rfl⟩
  · exact zadd_plain config
  · exact returnsE_bind fun _ => returnsE_bind fun _ => returnsE_bind fun _ =>
      returnsE_pure (oneLine_score _)
  · exact zmscore_plain
  · exact zincrby_plain
  · exact returnsE_bind fun _ => returnsE_bind fun _ => returnsE_bind fun _ => returnsE_bind fun _ =>
      returnsE_pure trivial
  · exact returnsE_bind fun _ => returnsE_bind fun _ => returnsE_bind fun _ => returnsE_pure trivial
  · exact zrank_plain _ _
  · exact zrank_plain _ _
  · exact zrange_plain _ _
  · exact zrange_plain _ _
  · exact zrangebyscore_plain _ _
  · exact zrangebyscore_plain _ _
  · exact returnsE_bind fun _ => returnsE_bind fun _ => returnsE_bind fun _ => returnsE_bind fun _ =>
      returnsE_pure trivial
  · exact returnsE_bind fun _ => returnsE_bind fun _ => returnsE_bind fun _ => returnsE_bind fun _ =>
      returnsE_bind fun _ => returnsE_pure trivial
  · exact returnsE_bind fun _ => returnsE_bind fun _ => returnsE_bind fun _ => returnsE_bind fun _ =>
      returnsE_bind fun _ => returnsE_bind fun _ => returnsE_pure trivial
  · exact zpop_plain _ _
  · exact zpop_plain _ _

end Zsets

namespace Memories

/-- What the computation on an index answers with, the handler does. -/
theorem returns_index {α : Type} {P : α → Prop} {use : Run Memory α} (h : Act.Returns P use)
    (key : Bytes) : Act.ReturnsE P (index key use) := by
  have hfound : Act.Returns (fun found => ∀ a ∈ found, P a) (Store.existingMemory key use) := by
    refine fun e s w => Store.sat_existingMemory (fun _ _ => trivial) ?_ ?_
    · intro _ _ _ _ _ _ a ha
      cases ha
    · intro m d s' w' _ _ _ _
      refine Act.sat_mono (h e m w') ?_ (fun _ h => h)
      intro a _ _ ha b hb
      cases hb
      exact ha
  refine returnsE_bind fun found => ?_
  rcases found with - | found
  · exact returnsE_throw _
  · cases found with
    | memory =>
      refine returnsE_bind_of (returnsE_lift hfound) fun found hall => ?_
      cases found with
      | none => exact returnsE_lift fun _ _ _ => trivial
      | some a => exact returnsE_lift fun _ _ _ => hall a rfl
    | _ => exact returnsE_throw _

theorem oneLine_metaReply (record : MemoryRecord) : (metaReply record).OneLine := by
  refine oneLine_map fun p hp => ?_
  obtain ⟨q, -, rfl⟩ := List.mem_map.mp hp
  exact ⟨trivial, trivial⟩

/-- The keys and values of a map reply. -/
abbrev PlainPairs (pairs : List (Reply × Reply)) : Prop := ∀ p ∈ pairs, p.1.OneLine ∧ p.2.OneLine

theorem plainPairs_append {xs ys : List (Reply × Reply)} (hx : PlainPairs xs) (hy : PlainPairs ys) :
    PlainPairs (xs ++ ys) := fun p hp => (List.mem_append.mp hp).elim (hx p) (hy p)

theorem plainPairs_option {c : Bool} {key value : Reply} (hk : key.OneLine) (hv : value.OneLine) :
    PlainPairs (if c then [(key, value)] else []) := by
  intro p hp
  cases c with
  | true =>
    rcases List.mem_singleton.mp hp with rfl
    exact ⟨hk, hv⟩
  | false => cases hp

theorem recordReply_plain (record : MemoryRecord) (returns : Returns) :
    Act.Returns PlainPairs (recordReply record returns) := by
  refine returns_bind fun pttl => returns_bind fun m => returns_pure ?_
  have hhead : PlainPairs [(.text "id", .bulk record.id)] := by simp [PlainPairs, text, OneLine]
  have htext : PlainPairs (if returns.noText then [] else [(.text "text", .bulk record.text)]) := by
    intro p hp
    split at hp
    · cases hp
    · rcases List.mem_singleton.mp hp with rfl
      exact ⟨trivial, trivial⟩
  have hmiddle : PlainPairs [(.text "importance", double record.importance),
      (.text "created_at", .integer (unixMillis record.createdAt)),
      (.text "updated_at", .integer (unixMillis record.updatedAt)), (.text "pttl", .integer pttl)] := by
    simp [PlainPairs, text, double, OneLine]
  refine plainPairs_append (plainPairs_append (plainPairs_append (plainPairs_append hhead htext) hmiddle)
    (plainPairs_option trivial (oneLine_metaReply record))) (plainPairs_option trivial ?_)
  cases m.vectorOf record <;> trivial

theorem getOne_plain (returns : Returns) (id : Bytes) : Act.Returns Reply.OneLine (getOne returns id) := by
  refine returns_bind fun found => ?_
  cases found with
  | none => exact returns_pure trivial
  | some record =>
    exact returns_bind_of (recordReply_plain record returns) fun _ h => returns_pure (oneLine_map h)

theorem hitReply_plain (returns : Returns) (hit : Hit) :
    Act.Returns (fun found => ∀ r ∈ found, r.OneLine) (hitReply returns hit) := by
  refine returns_bind fun found => ?_
  cases found with
  | none => exact returns_pure fun _ h => by cases h
  | some record =>
    refine returns_bind_of (recordReply_plain record returns) fun fields hfields => returns_pure ?_
    intro r hr
    cases hr
    refine oneLine_map (plainPairs_append (plainPairs_append (plainPairs_append ?_ ?_) ?_) ?_)
    · exact fun p hp => hfields p (List.mem_of_mem_take hp)
    · simp [PlainPairs, text, double, OneLine]
    · exact fun p hp => hfields p (List.mem_of_mem_drop hp)
    · intro p hp
      split at hp
      · simp only [List.mem_cons, List.not_mem_nil, or_false] at hp
        rcases hp with rfl | rfl | rfl <;> exact ⟨trivial, trivial⟩
      · cases hp

theorem hitsReply_plain (hits : List Hit) (topk : Nat) (returns : Returns) :
    Act.Returns Reply.OneLine (hitsReply hits topk returns) := by
  refine returns_bind_of (returns_mapList (hitReply_plain returns) _) fun replies h =>
    returns_pure (oneLine_array fun item hitem => ?_)
  obtain ⟨found, hfound, hitem⟩ := List.mem_filterMap.mp hitem
  exact h found hfound item hitem

theorem answerHits_plain (options : Retrieval) (found : Except MemoryError (List Hit)) :
    Act.Returns (fun r => ∀ reply, r = .ok reply → reply.OneLine) (answerHits options found) := by
  cases found with
  | error e => exact returns_pure fun _ h => by cases h
  | ok hits =>
    refine returns_bind_of (hitsReply_plain hits options.topk options.returns) fun reply hreply =>
      returns_pure fun r hr => ?_
    cases hr
    exact hreply

theorem orDescribe_plain {found : Except MemoryError Reply}
    (h : ∀ reply, found = .ok reply → reply.OneLine) : Plain (orDescribe found) := by
  cases found with
  | error e => exact returnsE_throw _
  | ok reply => exact returnsE_pure (h reply rfl)

theorem oneLine_infoReply (m : Memory) (bytes : Nat) : (infoReply m bytes).OneLine := by
  simp [infoReply, double, text, OneLine, OneLinePairs]

theorem create_plain (config : Config) : Plain (create config argv) := by
  refine returnsE_bind fun _ => returnsE_bind fun _ => returnsE_bind fun made =>
    returnsE_bind fun taken => ?_
  have hrest : Plain (do
      let _ ← Store.createMemory (arg argv 1) (Memory.new made)
      return .ok) := returnsE_bind fun _ => returnsE_pure oneLine_ok
  refine returnsE_ite (returnsE_bind fun found => ?_) hrest
  split <;> exact returnsE_bind fun _ => hrest

theorem expire_plain : Plain (expire argv) := by
  refine returnsE_bind fun _ => returnsE_bind fun _ => returnsE_guard (returnsE_bind fun done => ?_)
  split
  · exact returnsE_pure trivial
  · exact returnsE_bind fun _ => returnsE_bind fun _ => returnsE_pure trivial

theorem plain {config : Config} {handler : Handler} (h : (name, handler) ∈ arms config)
    (argv : List Bytes) : Plain (handler argv) := by
  simp only [arms, List.mem_cons, Prod.mk.injEq, List.not_mem_nil, or_false] at h
  rcases h with ⟨-, rfl⟩ | ⟨-, rfl⟩ | ⟨-, rfl⟩ | ⟨-, rfl⟩ | ⟨-, rfl⟩ | ⟨-, rfl⟩ | ⟨-, rfl⟩ |
    ⟨-, rfl⟩ | ⟨-, rfl⟩ | ⟨-, rfl⟩ | ⟨-, rfl⟩ | ⟨-, rfl⟩ | ⟨-, rfl⟩ | ⟨-, rfl⟩ | ⟨-, rfl⟩
  · exact create_plain config
  · exact returnsE_bind fun _ => returns_index (returns_bind fun m => returns_bind fun bytes =>
      returns_pure (oneLine_infoReply m bytes)) _
  · exact returnsE_bind fun _ => returnsE_bind fun _ => returnsE_bind fun _ => returnsE_bind fun _ =>
      returnsE_pure oneLine_ok
  · exact returnsE_bind fun _ => returns_index (returns_bind fun m => returns_pure trivial) _
  · refine returnsE_bind fun _ => returnsE_bind fun _ => returnsE_guard (returnsE_guard ?_)
    exact returnsE_bind fun _ => returnsE_bind fun _ => returnsE_bind fun _ => returnsE_pure trivial
  · refine returnsE_bind fun _ => returnsE_bind fun _ => ?_
    refine returnsE_bind_of (returns_index (returns_mapList (getOne_plain _) _) _) fun replies h =>
      returnsE_pure ?_
    cases replies with
    | nil => trivial
    | cons reply replies => exact h reply List.mem_cons_self
  · exact returnsE_bind fun _ => returnsE_bind_of (returns_index (returns_mapList (getOne_plain _) _) _)
      fun replies h => returnsE_pure (oneLine_array h)
  · exact returnsE_bind fun _ => returnsE_bind fun _ => returnsE_bind fun _ => returnsE_pure trivial
  · refine returnsE_bind fun _ => returnsE_guard ?_
    exact returnsE_bind fun _ => returnsE_bind fun _ => returnsE_bind fun _ => returnsE_pure trivial
  · exact returnsE_bind fun _ => returnsE_bind fun _ => returnsE_bind fun _ => returnsE_bind fun _ =>
      returnsE_pure trivial
  · exact expire_plain
  · refine returnsE_bind fun _ => returnsE_bind fun _ => returnsE_guard ?_
    refine returnsE_bind fun _ => returnsE_bind fun batch => returnsE_pure (oneLine_array ?_)
    simp [text, OneLine, oneLine_bulkArray]
  · exact returnsE_bind fun _ => returnsE_bind fun _ => returnsE_bind_of (returns_index
      (returns_bind fun _ => answerHits_plain _ _) _) fun _ => orDescribe_plain
  · exact returnsE_bind fun _ => returnsE_bind fun _ => returnsE_bind fun _ => returnsE_bind_of
      (returns_index (returns_bind fun _ => returns_bind fun _ => answerHits_plain _ _) _)
      fun _ => orDescribe_plain
  · refine returnsE_bind fun _ => returnsE_bind fun _ => returnsE_guard ?_
    exact returnsE_bind_of (returns_index (returns_bind fun _ => returns_bind fun _ =>
      answerHits_plain _ _) _) fun _ => orDescribe_plain

end Memories

end Klyro
