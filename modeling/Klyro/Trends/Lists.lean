import Klyro.Commands.Trend

/-!
# Which way the list commands move the keyspace

* `sublist_popMany`, `sublist_eraseAll`, `sublist_trim` — what is taken off a list leaves a part of it.
* `Lists.trend` — every list command.
-/

set_option autoImplicit false

namespace Klyro

open Store

theorem bytesOf_le {l l' : List Bytes} (h : l'.Sublist l) : bytesOf l' ≤ bytesOf l :=
  (h.map List.length).sum_le_sum fun _ _ => Nat.zero_le _

/-- A use of a value that leaves a lighter one. -/
theorem within_state {τ α : Type} {V : Variant τ} {g : τ → α × τ} (h : ∀ v, Lighter V v (g v).2) :
    Act.Within (Lighter V) (Act.state g : Run τ α) := fun _ v _ => h v

namespace Lists

variable {argv : List Bytes} {P : Store → Store → Prop}

theorem sublist_popFrom {l l' : ListValue} {side : End} {v : Bytes} (h : popFrom l side = some (v, l')) :
    l'.Sublist l := by
  cases side with
  | left =>
    cases l with
    | nil => cases h
    | cons x rest =>
      simp only [popFrom, Option.some.injEq, Prod.mk.injEq] at h
      rw [← h.2]
      exact List.sublist_cons_self x rest
  | right =>
    cases hlast : l.getLast? with
    | none =>
      simp only [popFrom, hlast] at h
      cases h
    | some x =>
      simp only [popFrom, hlast, Option.some.injEq, Prod.mk.injEq] at h
      rw [← h.2]
      exact List.dropLast_sublist l

theorem pop_lighter (side : End) : Act.Within (Lighter .list) (pop side) := by
  refine within_state fun l => ?_
  cases h : popFrom l side with
  | none => exact le_rfl
  | some p => exact bytesOf_le (sublist_popFrom h)

theorem sublist_popMany (side : End) (n : Nat) : ∀ l : ListValue, (popMany side n l).2.Sublist l := by
  induction n with
  | zero => exact fun l => List.Sublist.refl l
  | succ n ih =>
    intro l
    unfold popMany
    split
    · exact List.Sublist.refl l
    · exact (ih _).trans (sublist_popFrom ‹_›)

theorem sublist_eraseAll (hits : List Nat) : ∀ l : ListValue,
    (hits.foldl (fun l i => l.eraseIdx i) l).Sublist l := by
  induction hits with
  | nil => exact fun l => List.Sublist.refl l
  | cons i hits ih => exact fun l => (ih (l.eraseIdx i)).trans (List.eraseIdx_sublist l i)

theorem sublist_trim (l : ListValue) (start stop : Int) : (ListValue.trim l start stop).Sublist l := by
  unfold ListValue.trim
  split
  · exact List.nil_sublist l
  · exact (List.drop_sublist _ _).trans (List.take_sublist _ _)

theorem popCount_within [IsPreorder Store P] (name : String) : Act.WithinE P (popCount argv name) := by
  unfold popCount
  refine Act.withinE_ite (Act.withinE_pure _) (Act.withinE_ite ?_ (Act.withinE_throw _))
  exact Act.withinE_bind (withinE_intArg _) fun _ =>
    Act.withinE_ite (Act.withinE_pure _) (Act.withinE_throw _)

theorem lpop_drains [Drains P] (name : String) (side : End) : Act.WithinE P (lpop name side argv) := by
  unfold lpop
  refine Act.withinE_bind (withinE_minArgs _ _) fun _ => ?_
  refine Act.withinE_bind (popCount_within name) fun count => ?_
  refine Act.withinE_bind (withinE_checkType _ _) fun _ => ?_
  refine Act.withinE_bind (Act.withinE_lift (Drains.write (within_state fun l => ?_) _)) fun _ => ?_
  · exact bytesOf_le (sublist_popMany side _ l)
  · exact Act.withinE_bind (Act.withinE_lift (Drains.deleteIfEmpty _)) fun _ => Act.withinE_pure _

theorem lrem_drains [Drains P] : Act.WithinE P (lrem argv) := by
  unfold lrem
  refine Act.withinE_bind (withinE_exactArgs _ _) fun _ => ?_
  refine Act.withinE_bind (withinE_intArg _) fun count => ?_
  refine Act.withinE_bind (withinE_checkType _ _) fun _ => ?_
  refine Act.withinE_bind (Act.withinE_lift (Drains.write (within_state fun l => ?_) _)) fun _ => ?_
  · exact bytesOf_le (sublist_eraseAll _ l)
  · exact Act.withinE_bind (Act.withinE_lift (Drains.deleteIfEmpty _)) fun _ => Act.withinE_pure _

theorem ltrim_drains [Drains P] : Act.WithinE P (ltrim argv) := by
  unfold ltrim
  refine Act.withinE_bind (withinE_exactArgs _ _) fun _ => ?_
  refine Act.withinE_bind (withinE_intArg _) fun start => ?_
  refine Act.withinE_bind (withinE_intArg _) fun stop => ?_
  refine Act.withinE_bind (withinE_checkType _ _) fun _ => ?_
  refine Act.withinE_bind (Act.withinE_lift (Drains.write (V := .list) (fun _ l _ => ?_) _)) fun _ => ?_
  · exact bytesOf_le (sublist_trim l start stop)
  · exact Act.withinE_bind (Act.withinE_lift (Drains.deleteIfEmpty _)) fun _ => Act.withinE_pure _

theorem lrange_glances : Act.WithinE Glances (lrange argv) :=
  Act.withinE_bind (withinE_exactArgs _ _) fun _ => Act.withinE_bind (withinE_intArg _) fun _ =>
    Act.withinE_bind (withinE_intArg _) fun _ => Act.withinE_bind (withinE_checkType _ _) fun _ =>
    Act.withinE_bind (withinE_look (read_glances _ _)) fun _ => Act.withinE_pure _

theorem lindex_glances : Act.WithinE Glances (lindex argv) :=
  Act.withinE_bind (withinE_exactArgs _ _) fun _ => Act.withinE_bind (withinE_intArg _) fun _ =>
    Act.withinE_bind (withinE_checkType _ _) fun _ =>
    Act.withinE_bind (withinE_look (read_glances _ _)) fun _ => Act.withinE_pure _

theorem push_marks (name : String) (side : End) (onlyIfPresent : Bool) :
    Act.WithinE Marked (push name side onlyIfPresent argv) := by
  unfold push
  refine Act.withinE_bind (withinE_minArgs _ _) fun _ => ?_
  refine Act.withinE_bind (withinE_checkType _ _) fun _ => ?_
  have hpush : ∀ absent : Bool, Act.WithinE Marked (if absent then pure (.integer 0) else do
      let len ← Store.getOrCreateList (arg argv 1) (Act.state fun l =>
        let l := (argv.drop 2).foldl (fun l value => pushTo l side value) l
        (l.length, l))
      let len ← expect "type checked" len
      return .integer len : Cmd Reply) := by
    intro absent
    refine Act.withinE_ite (Act.withinE_pure _) ?_
    exact Act.withinE_bind (Act.withinE_lift (getOrCreate_marks .list _ _)) fun _ =>
      Act.withinE_bind (withinE_expect _ _) fun _ => Act.withinE_pure _
  cases onlyIfPresent with
  | true => exact Act.withinE_bind (withinE_look (hasKey_glances _)) fun there => hpush !there
  | false => exact hpush false

theorem lset_marks : Act.WithinE Marked (lset argv) :=
  Act.withinE_bind (withinE_exactArgs _ _) fun _ => Act.withinE_bind (withinE_intArg _) fun _ =>
    Act.withinE_bind (withinE_checkType _ _) fun _ =>
    Act.withinE_bind (Act.withinE_lift (write_marks .list _ _)) fun _ => Act.withinE_pure _

/-- The insertion, once its side is known. -/
theorem insertBeside_marks (key pivot value : Bytes) (before : Bool) : Act.WithinE Marked (do
    checkType key .list
    let newLen ← Store.writeList key (Act.state fun l => ListValue.insert l before pivot value)
    match newLen.join with
    | some len => return .integer len
    | none => do
      let there ← Store.hasKey key
      return .integer (if there then -1 else 0) : Cmd Reply) := by
  refine Act.withinE_bind (withinE_checkType _ _) fun _ => ?_
  refine Act.withinE_bind (Act.withinE_lift (write_marks .list _ _)) fun newLen => ?_
  cases newLen.join with
  | some len => exact Act.withinE_pure _
  | none => exact Act.withinE_bind (withinE_look (hasKey_glances _)) fun _ => Act.withinE_pure _

theorem linsert_marks : Act.WithinE Marked (linsert argv) := by
  unfold linsert
  refine Act.withinE_bind (withinE_exactArgs _ _) fun _ => ?_
  refine Act.withinE_ite (insertBeside_marks _ _ _ true) ?_
  refine Act.withinE_ite (insertBeside_marks _ _ _ false) ?_
  exact Act.withinE_bind (Act.withinE_throw _) fun before => insertBeside_marks _ _ _ before

theorem moveEnds_within [IsPreorder Store P] : Act.WithinE P (moveEnds argv) := by
  unfold moveEnds
  split
  · exact Act.withinE_pure _
  · exact Act.withinE_throw _

theorem popOne_drains [Drains P] (key : Bytes) (side : End) : Act.Within P (popOne key side) := by
  unfold popOne
  refine Act.within_bind (Drains.write (pop_lighter side) key) fun popped => ?_
  split
  · exact Act.within_bind (Drains.deleteIfEmpty key) fun _ => Act.within_pure _
  · exact Act.within_pure _

theorem moveOne_marks (source destination : Bytes) (takeFrom putTo : End) :
    Act.Within Marked (moveOne source destination takeFrom putTo) := by
  unfold moveOne
  refine Act.within_bind (write_marks .list _ _) fun popped => ?_
  split
  · refine Act.within_bind (getOrCreate_marks .list _ _) fun pushed => ?_
    refine Act.within_bind (Act.within_expect _ _) fun _ => ?_
    exact Act.within_bind (deleteIfEmpty_marks source) fun _ => Act.within_pure _
  · exact Act.within_pure _

theorem moveBetween_marks (ends : End × End) : Act.WithinE Marked (moveBetween argv ends) :=
  Act.withinE_bind (withinE_checkType _ _) fun _ => Act.withinE_bind (withinE_checkType _ _) fun _ =>
    Act.withinE_bind (Act.withinE_lift (moveOne_marks _ _ _ _)) fun _ => Act.withinE_pure _

/-- **List commands.** -/
theorem trend {name : String} {handler : Handler} (h : (name, handler) ∈ arms) (argv : List Bytes) :
    Trend name (handler argv) := by
  simp only [arms, List.mem_cons, Prod.mk.injEq, List.not_mem_nil, or_false] at h
  rcases h with ⟨rfl, rfl⟩ | ⟨rfl, rfl⟩ | ⟨rfl, rfl⟩ | ⟨rfl, rfl⟩ | ⟨rfl, rfl⟩ | ⟨rfl, rfl⟩ |
    ⟨rfl, rfl⟩ | ⟨rfl, rfl⟩ | ⟨rfl, rfl⟩ | ⟨rfl, rfl⟩ | ⟨rfl, rfl⟩ | ⟨rfl, rfl⟩ | ⟨rfl, rfl⟩ |
    ⟨rfl, rfl⟩ | ⟨rfl, rfl⟩
  · exact .fills rfl rfl (push_marks _ _ _)
  · exact .fills rfl rfl (push_marks _ _ _)
  · exact .fills rfl rfl (push_marks _ _ _)
  · exact .fills rfl rfl (push_marks _ _ _)
  · exact .of_drains rfl (lpop_drains _ _)
  · exact .of_drains rfl (lpop_drains _ _)
  · exact .reads (answer_glances (withinE_exactArgs _ _) (read_glances _ _))
  · exact .reads lrange_glances
  · exact .reads lindex_glances
  · exact .fills rfl rfl lset_marks
  · exact .fills rfl rfl linsert_marks
  · exact .of_drains rfl lrem_drains
  · exact .of_drains rfl ltrim_drains
  · exact .fills rfl rfl (Act.withinE_bind (withinE_exactArgs _ _) fun _ => moveBetween_marks _)
  · exact .fills rfl rfl (Act.withinE_bind (withinE_exactArgs _ _) fun _ =>
      Act.withinE_bind moveEnds_within fun ends => moveBetween_marks ends)

end Lists

end Klyro
