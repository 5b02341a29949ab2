import Klyro.Effects.Blocking
import Klyro.Trends.Generic
import Klyro.Trends.Zsets

/-!
# Which way the blocking commands move the keyspace

`Blocking.trend` — the pops take away, whether they find something or park; the two moves put what
they take onto another list.
-/

set_option autoImplicit false

namespace Klyro.Blocking

open Store
open Lists (End popOne moveOne popOne_drains moveOne_marks moveEnds_within)

variable {argv : List Bytes} {P : Store → Store → Prop}

theorem deadlineIn_glances (seconds : F64) : Act.Within Glances (deadlineIn seconds) :=
  Act.within_bind (Act.within_of_same fun _ _ _ => rfl) fun _ =>
    Act.within_ite (Act.within_panic _) (Act.within_ite (Act.within_panic _) (Act.within_pure _))

theorem parseTimeout_within [Lookups P] (word : Bytes) : Act.WithinE P (parseTimeout word) := by
  unfold parseTimeout
  cases parseF64 word with
  | none => exact Act.withinE_throw _
  | some seconds =>
    refine Act.withinE_ite (Act.withinE_throw _) (Act.withinE_ite (Act.withinE_throw _) ?_)
    refine Act.withinE_ite (Act.withinE_pure _) ?_
    exact Act.withinE_bind (withinE_look (deadlineIn_glances _)) fun _ => Act.withinE_pure _

theorem parseMultiKey_within [IsPreorder Store P] (pos : Nat) (name : String) :
    Act.WithinE P (parseMultiKey argv pos name) := by
  refine Act.withinE_bind (withinE_intArg _) fun numkeys => withinE_guard (withinE_guard ?_)
  exact Act.withinE_bind (withinE_fixed (multiCount_fixed _)) fun _ => Act.withinE_pure _

/-! ## The pops -/

theorem popFirstList_drains [Drains P] (side : End) (keys : List Bytes) :
    Act.WithinE P (popFirstList side keys) := by
  induction keys with
  | nil => exact Act.withinE_pure _
  | cons key keys ih =>
    refine Act.withinE_bind (withinE_checkType _ _) fun _ => ?_
    refine Act.withinE_bind (Act.withinE_lift (popOne_drains _ _)) fun popped => ?_
    cases popped with
    | some value => exact Act.withinE_pure _
    | none => exact ih

theorem popUpTo_drains [Drains P] (key : Bytes) (side : End) (n : Nat) :
    Act.Within P (popUpTo key side n) := by
  induction n with
  | zero => exact Act.within_pure _
  | succ n ih =>
    refine Act.within_bind (popOne_drains _ _) fun popped => ?_
    cases popped with
    | some value => exact Act.within_bind ih fun _ => Act.within_pure _
    | none => exact Act.within_pure _

theorem mpopLists_drains [Drains P] (side : End) (count : Nat) (keys : List Bytes) :
    Act.WithinE P (mpopLists side count keys) := by
  induction keys with
  | nil => exact Act.withinE_pure _
  | cons key keys ih =>
    refine Act.withinE_bind (withinE_checkType _ _) fun _ => ?_
    refine Act.withinE_bind (Act.withinE_lift (popUpTo_drains _ _ _)) fun popped => ?_
    exact Act.withinE_ite (Act.withinE_pure _) ih

theorem popOneScored_drains [Drains P] (key : Bytes) (edge : Edge) (count : Nat) :
    Act.Within P (popOneScored key edge count) := by
  have hpop : ∀ z : Zset, Lighter .zset z (z.pop count (edge == .max)).2 := fun z =>
    Zsets.lighter_of_sublist (Zsets.sublist_pop z count _)
  refine Act.within_bind (Drains.write (within_state hpop) key) fun popped => ?_
  refine Act.within_ite (Act.within_pure _) ?_
  exact Act.within_bind (Drains.deleteIfEmpty key) fun _ => Act.within_pure _

theorem popFirstZset_drains [Drains P] (edge : Edge) (keys : List Bytes) :
    Act.WithinE P (popFirstZset edge keys) := by
  induction keys with
  | nil => exact Act.withinE_pure _
  | cons key keys ih =>
    refine Act.withinE_bind (withinE_checkType _ _) fun _ => ?_
    refine Act.withinE_bind (Act.withinE_lift (popOneScored_drains _ _ _)) fun popped => ?_
    cases popped with
    | cons p _ => exact Act.withinE_pure _
    | nil => exact ih

theorem mpopZsets_drains [Drains P] (edge : Edge) (count : Nat) (keys : List Bytes) :
    Act.WithinE P (mpopZsets edge count keys) := by
  induction keys with
  | nil => exact Act.withinE_pure _
  | cons key keys ih =>
    refine Act.withinE_bind (withinE_checkType _ _) fun _ => ?_
    refine Act.withinE_bind (Act.withinE_lift (popOneScored_drains _ _ _)) fun popped => ?_
    exact Act.withinE_ite (Act.withinE_pure _) ih

/-! ## The commands -/

theorem blpop_drains [Drains P] (name : String) (side : End) (client : Client) :
    Act.WithinE P (blpop name side client argv) :=
  Act.withinE_bind (withinE_minArgs _ _) fun _ => Act.withinE_bind (parseTimeout_within _) fun _ =>
    Act.withinE_bind (popFirstList_drains _ _) fun _ => Act.withinE_pure _

theorem bzpop_drains [Drains P] (name : String) (edge : Edge) (client : Client) :
    Act.WithinE P (bzpop name edge client argv) :=
  Act.withinE_bind (withinE_minArgs _ _) fun _ => Act.withinE_bind (parseTimeout_within _) fun _ =>
    Act.withinE_bind (popFirstZset_drains _ _) fun _ => Act.withinE_pure _

/-- A pop over the keys a request lists. -/
theorem multi_drains [Drains P] {name : String} {pos : Nat} {β : Type} {parse : Bytes → Option β}
    {pop : MultiKey → β → Cmd (Option Reply)} {f : MultiKey → Option Reply → Response}
    (hpop : ∀ request b, Act.WithinE P (pop request b)) : Act.WithinE P (do
      let request ← parseMultiKey argv pos name
      let b ← orThrow syntaxError (parse request.direction)
      let found ← pop request b
      return f request found) :=
  Act.withinE_bind (parseMultiKey_within _ _) fun _ => Act.withinE_bind (withinE_orThrow _ _) fun _ =>
    Act.withinE_bind (hpop _ _) fun _ => Act.withinE_pure _

theorem blockingMove_marks (client : Client) (ends : End × End) (timeout : Bytes) :
    Act.WithinE Marked (blockingMove client argv ends timeout) :=
  Act.withinE_bind (parseTimeout_within _) fun _ => Act.withinE_bind (withinE_checkType _ _) fun _ =>
    Act.withinE_bind (withinE_checkType _ _) fun _ =>
    Act.withinE_bind (Act.withinE_lift (moveOne_marks _ _ _ _)) fun _ => Act.withinE_pure _

/-- **Blocking commands.** -/
theorem trend {name : String} {handler : Client → List Bytes → Cmd Response}
    (h : (name, handler) ∈ arms) (client : Client) (argv : List Bytes) :
    Trend name (handler client argv) := by
  simp only [arms, List.mem_cons, Prod.mk.injEq, List.not_mem_nil, or_false] at h
  rcases h with ⟨rfl, rfl⟩ | ⟨rfl, rfl⟩ | ⟨rfl, rfl⟩ | ⟨rfl, rfl⟩ | ⟨rfl, rfl⟩ | ⟨rfl, rfl⟩ |
    ⟨rfl, rfl⟩ | ⟨rfl, rfl⟩ | ⟨rfl, rfl⟩ | ⟨rfl, rfl⟩
  · exact .of_drains rfl (blpop_drains _ _ _)
  · exact .of_drains rfl (blpop_drains _ _ _)
  · exact .fills rfl rfl (Act.withinE_bind (withinE_exactArgs _ _) fun _ =>
      Act.withinE_bind moveEnds_within fun _ => blockingMove_marks _ _ _)
  · exact .fills rfl rfl (Act.withinE_bind (withinE_exactArgs _ _) fun _ => blockingMove_marks _ _ _)
  · exact .of_drains rfl (Act.withinE_bind (withinE_minArgs _ _) fun _ =>
      multi_drains fun _ _ => mpopLists_drains _ _ _)
  · exact .of_drains rfl (Act.withinE_bind (withinE_minArgs _ _) fun _ =>
      Act.withinE_bind (parseTimeout_within _) fun _ => multi_drains fun _ _ => mpopLists_drains _ _ _)
  · exact .of_drains rfl (bzpop_drains _ _ _)
  · exact .of_drains rfl (bzpop_drains _ _ _)
  · exact .of_drains rfl (Act.withinE_bind (withinE_minArgs _ _) fun _ =>
      multi_drains fun _ _ => mpopZsets_drains _ _ _)
  · exact .of_drains rfl (Act.withinE_bind (withinE_minArgs _ _) fun _ =>
      Act.withinE_bind (parseTimeout_within _) fun _ => multi_drains fun _ _ => mpopZsets_drains _ _ _)

end Klyro.Blocking
