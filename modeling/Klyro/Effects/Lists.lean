import Klyro.Commands.Blocks
import Klyro.Commands.Keyspec

/-!
# What the list commands write

`Lists.does` — every list command writes the keys the key table names and nothing when it fails.
-/

set_option autoImplicit false

namespace Klyro

@[simp] theorem isError_bulkOrNil (o : Option Bytes) : (bulkOrNil o).isError = false := by
  cases o <;> rfl

@[simp] theorem isError_bulkArray (items : List Bytes) : (Reply.bulkArray items).isError = false := rfl

@[simp] theorem isError_bool (b : Bool) : (Reply.bool b).isError = false := rfl

namespace Lists

variable {W : Bytes → Prop} {argv : List Bytes} {strict : Bool}

theorem isEmptyCollection_pushAll {values : List Bytes} (h : values ≠ []) (l : ListValue) (side : End) :
    (Value.list (values.foldl (fun l value => pushTo l side value) l)).isEmptyCollection = false := by
  obtain ⟨values, value, rfl⟩ := values.eq_nil_or_concat.resolve_left h
  rw [List.concat_eq_append, List.foldl_append]
  exact isEmptyCollection_pushTo _ _ _

theorem push_does (name : String) (side : End) (onlyIfPresent : Bool)
    (hW : 1 < argv.length → W (arg argv 1)) :
    Does strict [] W Reply.isError (push name side onlyIfPresent argv) := by
  unfold push
  refine does_minArgs fun hlen => does_checkType ?_
  have hwrite : ∀ absent : Bool, Does strict [(arg argv 1, .list)] W Reply.isError
      (if absent then pure (.integer 0) else do
        let len ← Store.getOrCreateList (arg argv 1) (Act.state fun l =>
          let l := (argv.drop 2).foldl (fun l value => pushTo l side value) l
          (l.length, l))
        let len ← expect "type checked" len
        return .integer len) := by
    intro absent
    refine does_ite (fun _ => (looks_pure _).does) fun _ => ?_
    refine does_obtain (V := .list) (hW (by omega)) List.mem_cons_self (fun l => ?_) fun _ =>
      finishes_pure rfl
    refine isEmptyCollection_pushAll ?_ l side
    intro h
    have := congrArg List.length h
    rw [List.length_drop, List.length_nil] at this
    omega
  cases onlyIfPresent with
  | true => exact does_bind (looks_lift (reads_hasKey _)) fun there => hwrite !there
  | false => exact hwrite false

theorem popCount_looks (name : String) : Looks (popCount argv name) := by
  unfold popCount
  refine looks_ite (fun _ => looks_pure _) fun _ => looks_ite (fun _ => ?_) fun _ => looks_throw rfl
  refine looks_bind (looks_intArg _) fun _ => ?_
  exact looks_ite (fun _ => looks_pure _) fun _ => looks_throw rfl

theorem lpop_does (name : String) (side : End) (hW : 1 < argv.length → W (arg argv 1)) :
    Does strict [] W Reply.isError (lpop name side argv) := by
  unfold lpop
  refine does_minArgs fun hlen => does_bind (popCount_looks name) fun count => does_checkType ?_
  refine does_tidied (V := .list) (hW hlen) (mild_state _) fun popped _ => finishes_pure ?_
  cases count with
  | none => exact isError_bulkOrNil _
  | some n =>
    dsimp only
    split <;> rfl

theorem llen_looks : Looks (llen argv) :=
  looks_bind (looks_exactArgs _ _ _) fun _ => looks_bind (looks_checkType _ _) fun _ =>
    looks_bind (looks_lift (reads_read _ _)) fun _ => looks_pure _

theorem lrange_looks : Looks (lrange argv) :=
  looks_bind (looks_exactArgs _ _ _) fun _ => looks_bind (looks_intArg _) fun _ =>
    looks_bind (looks_intArg _) fun _ => looks_bind (looks_checkType _ _) fun _ =>
    looks_bind (looks_lift (reads_read _ _)) fun _ => looks_pure _

theorem lindex_looks : Looks (lindex argv) :=
  looks_bind (looks_exactArgs _ _ _) fun _ => looks_bind (looks_intArg _) fun _ =>
    looks_bind (looks_checkType _ _) fun _ => looks_bind (looks_lift (reads_read _ _)) fun _ =>
    looks_pure _

theorem lset_does (hW : 1 < argv.length → W (arg argv 1)) :
    Does strict [] W Reply.isError (lset argv) := by
  unfold lset
  refine does_exactArgs fun hlen => does_bind (looks_intArg _) fun index => does_checkType ?_
  refine does_seq (does_write (V := .list) (fun found => found != some true) (hW (by omega))
    (fun l hl => ?_) fun l hfalse => ?_) (fun found _ => (looks_pure _).does) fun found hfound => ?_
  · cases resolveIndex l.length index with
    | none => exact hl
    | some i => cases l <;> simp_all [Variant.list, Value.isEmptyCollection]
  · cases hi : resolveIndex l.length index with
    | none => rfl
    | some i => simp [hi] at hfalse
  · obtain rfl : found = some true := by simpa using hfound
    exact finishes_pure rfl

theorem isEmptyCollection_list {l : ListValue} :
    (Value.list l).isEmptyCollection = false ↔ l ≠ [] := by
  cases l <;> simp [Value.isEmptyCollection]

theorem insert_ne_nil {l : ListValue} {before : Bool} {pivot value : Bytes} (h : l ≠ []) :
    (ListValue.insert l before pivot value).2 ≠ [] := by
  unfold ListValue.insert
  split
  · exact h
  · apply List.ne_nil_of_length_pos
    exact Nat.lt_of_lt_of_le (List.length_pos_iff.mpr h) List.length_le_length_insertIdx

/-- The insertion, once its side is known. -/
theorem insertBeside_does (key pivot value : Bytes) (before : Bool) (hW : W key) :
    Does strict [] W Reply.isError (do
      checkType key .list
      let newLen ← Store.writeList key (Act.state fun l => ListValue.insert l before pivot value)
      match newLen.join with
      | some len => return .integer len
      | none => do
        let there ← Store.hasKey key
        return .integer (if there then -1 else 0)) := by
  refine does_checkType (does_seq (does_write (V := .list) (fun r => r.join.isNone) hW
    (fun l hl => ?_) fun l hnone => ?_) (fun r hr => ?_) fun r hr => ?_)
  · exact isEmptyCollection_list.mpr (insert_ne_nil (isEmptyCollection_list.mp hl))
  · unfold ListValue.insert at hnone ⊢
    split
    · rfl
    · rename_i hpos
      simp [hpos] at hnone
  · cases hj : r.join with
    | some len => simp [hj] at hr
    | none => exact (looks_bind (looks_lift (reads_hasKey _)) fun _ => looks_pure _).does
  · cases hj : r.join with
    | some len => exact finishes_pure rfl
    | none => simp [hj] at hr

theorem linsert_does (hW : 1 < argv.length → W (arg argv 1)) :
    Does strict [] W Reply.isError (linsert argv) := by
  unfold linsert
  refine does_exactArgs fun hlen => ?_
  have hkey : W (arg argv 1) := hW (by omega)
  refine does_ite (fun _ => insertBeside_does _ _ _ true hkey) fun _ => ?_
  refine does_ite (fun _ => insertBeside_does _ _ _ false hkey) fun _ => ?_
  exact does_bind (looks_throw rfl) fun before => insertBeside_does _ _ _ before hkey

theorem lrem_does (hW : 1 < argv.length → W (arg argv 1)) :
    Does strict [] W Reply.isError (lrem argv) := by
  unfold lrem
  refine does_exactArgs fun hlen => does_bind (looks_intArg _) fun count => does_checkType ?_
  exact does_tidied (V := .list) (hW (by omega)) (mild_state _) fun _ _ => finishes_pure rfl

theorem ltrim_does (hW : 1 < argv.length → W (arg argv 1)) :
    Does strict [] W Reply.isError (ltrim argv) := by
  unfold ltrim
  refine does_exactArgs fun hlen => does_bind (looks_intArg _) fun start =>
    does_bind (looks_intArg _) fun stop => does_checkType ?_
  exact does_tidied (V := .list) (hW (by omega)) (mild_modify _) fun _ _ => finishes_pure rfl

theorem moveEnds_looks : Looks (moveEnds argv) := by
  unfold moveEnds
  split
  · exact looks_pure _
  · exact looks_throw rfl

theorem moveBetween_does (ends : End × End) (hW : W (arg argv 1)) (hW' : W (arg argv 2)) :
    Does strict [] W Reply.isError (moveBetween argv ends) := by
  unfold moveBetween
  refine does_checkType (does_checkType ?_)
  refine does_seq (does_moveOne hW hW' List.mem_cons_self) (fun moved _ => (looks_pure _).does)
    fun moved _ => finishes_pure (isError_bulkOrNil _)

theorem rpoplpush_does (hW : 2 < argv.length → W (arg argv 1) ∧ W (arg argv 2)) :
    Does strict [] W Reply.isError (rpoplpush argv) :=
  does_exactArgs fun hlen => moveBetween_does _ (hW (by omega)).1 (hW (by omega)).2

theorem lmove_does (hW : 2 < argv.length → W (arg argv 1) ∧ W (arg argv 2)) :
    Does strict [] W Reply.isError (lmove argv) :=
  does_exactArgs fun hlen => does_bind moveEnds_looks fun ends =>
    moveBetween_does ends (hW (by omega)).1 (hW (by omega)).2

/-- **List commands** write what the key table names. -/
theorem does {name : String} {handler : Handler} (h : (name, handler) ∈ arms) (argv : List Bytes) :
    Does strict [] (Named name argv) Reply.isError (handler argv) := by
  simp only [arms, List.mem_cons, Prod.mk.injEq, List.not_mem_nil, or_false] at h
  rcases h with ⟨rfl, rfl⟩ | ⟨rfl, rfl⟩ | ⟨rfl, rfl⟩ | ⟨rfl, rfl⟩ | ⟨rfl, rfl⟩ | ⟨rfl, rfl⟩ |
    ⟨rfl, rfl⟩ | ⟨rfl, rfl⟩ | ⟨rfl, rfl⟩ | ⟨rfl, rfl⟩ | ⟨rfl, rfl⟩ | ⟨rfl, rfl⟩ | ⟨rfl, rfl⟩ |
    ⟨rfl, rfl⟩ | ⟨rfl, rfl⟩
  · exact push_does _ _ _ (named_first rfl)
  · exact push_does _ _ _ (named_first rfl)
  · exact push_does _ _ _ (named_first rfl)
  · exact push_does _ _ _ (named_first rfl)
  · exact lpop_does _ _ (named_first rfl)
  · exact lpop_does _ _ (named_first rfl)
  · exact llen_looks.does
  · exact lrange_looks.does
  · exact lindex_looks.does
  · exact lset_does (named_first rfl)
  · exact linsert_does (named_first rfl)
  · exact lrem_does (named_first rfl)
  · exact ltrim_does (named_first rfl)
  · exact rpoplpush_does (named_two rfl)
  · exact lmove_does (named_two rfl)

end Lists

end Klyro
