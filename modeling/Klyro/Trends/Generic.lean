import Klyro.Effects.Generic
import Klyro.Trends.Sets

/-!
# Which way the generic commands move the keyspace

`Generic.trend` — deleting, expiring and flushing take away; only the two renames and `COPY` add.
-/

set_option autoImplicit false

namespace Klyro.Generic

open Store

-- the elaborator would evaluate the test of the range
attribute [local irreducible] addDuration

variable {argv : List Bytes} {P : Store → Store → Prop}

theorem del_drains [Drains P] (name : String) : Act.WithinE P (del name argv) :=
  Act.withinE_bind (withinE_minArgs _ _) fun _ =>
    Act.withinE_bind (Act.withinE_lift (Act.within_countList Drains.del _)) fun _ => Act.withinE_pure _

theorem expireVariant_drains [Drains P] (name : String) {toDeadline : Int → Run Store SystemTime}
    (hdeadline : ∀ n, Act.Within Glances (toDeadline n)) :
    Act.WithinE P (expireVariant name toDeadline argv) := by
  unfold expireVariant
  refine Act.withinE_bind (withinE_exactArgs _ _) fun _ => ?_
  refine Act.withinE_bind (withinE_intArg _) fun amount => ?_
  refine Act.withinE_bind (withinE_look (hdeadline amount)) fun deadline => ?_
  exact Act.withinE_bind (Act.withinE_lift (Drains.setExpireAt _ _)) fun _ => Act.withinE_pure _

theorem persist_drains [Drains P] : Act.WithinE P (persist argv) := by
  unfold persist
  refine Act.withinE_bind (withinE_exactArgs _ _) fun _ => ?_
  refine Act.withinE_bind (withinE_look (hasExpiry_glances _)) fun had => ?_
  refine Act.withinE_ite ?_ (Act.withinE_pure _)
  exact Act.withinE_bind (Act.withinE_lift (Drains.setExpireAt _ _)) fun _ => Act.withinE_pure _

theorem flush_drains [Drains P] : Act.WithinE P (flush argv) :=
  Act.withinE_bind (Act.withinE_lift Drains.flush) fun _ => Act.withinE_pure _

/-! ## The commands that look -/

theorem ofNow_glances {α : Type} (f : SystemTime → Store → α) : Act.Within Glances (do
    let t ← now
    let s ← Act.get
    pure (f t s)) :=
  Act.within_bind now_glances fun _ => Act.within_bind Act.within_get fun _ => Act.within_pure _

theorem scan_glances (cursor count : Nat) : Act.Within Glances (Store.scan cursor count) :=
  Act.within_bind now_glances fun _ => Act.within_bind Act.within_get fun _ =>
    Act.within_ite (Act.within_pure _) (Act.within_ite (Act.within_panic _) (Act.within_pure _))

theorem randomKeyLoop_glances (t : SystemTime) (n : Nat) :
    Act.Within Glances (Store.randomKeyLoop t n) := by
  induction n with
  | zero => exact Act.within_pure _
  | succ n ih =>
    refine Act.within_bind Act.within_get fun s => Act.within_ite (Act.within_pure _) ?_
    refine Act.within_bind (Sets.below_within _) fun i => ?_
    cases s.keys[i]? with
    | none => exact Act.within_panic _
    | some key => exact Act.within_ite (Act.within_pure _) ih

theorem randomKey_glances : Act.Within Glances Store.randomKey :=
  Act.within_bind now_glances fun _ => randomKeyLoop_glances _ _

theorem scanCursor_glances (word : Bytes) : Act.WithinE Glances (scanCursor word) := by
  unfold scanCursor
  split
  · exact Act.withinE_ite (Act.withinE_pure _) (Act.withinE_throw _)
  · exact Act.withinE_throw _

theorem scanOptions_glances (fuel : Nat) :
    ∀ words options, Act.WithinE Glances (scanOptions fuel words options) := by
  induction fuel with
  | zero => exact fun _ _ => Act.withinE_pure _
  | succ fuel ih =>
    intro words options
    rcases words with _ | ⟨word, _ | ⟨value, rest⟩⟩
    · exact Act.withinE_pure _
    · exact Act.withinE_throw _
    · refine Act.withinE_ite (ih _ _) (Act.withinE_ite ?_ (Act.withinE_throw _))
      exact Act.withinE_bind (withinE_intArg _) fun c =>
        Act.withinE_ite (ih _ _) (Act.withinE_throw _)

theorem copyReplace_within [IsPreorder Store P] : Act.WithinE P (copyReplace argv) :=
  Act.withinE_ite (Act.withinE_pure _) (Act.withinE_ite (Act.withinE_pure _) (Act.withinE_throw _))

/-! ## The commands that add -/

theorem rename_marks : Act.WithinE Marked (rename argv) := by
  unfold rename
  refine Act.withinE_bind (withinE_exactArgs _ _) fun _ => ?_
  refine Act.withinE_bind (withinE_look (hasKey_glances _)) fun there => ?_
  refine Act.withinE_ite (Act.withinE_pure _) ?_
  exact Act.withinE_bind (Act.withinE_lift (Store.rename_marks _ _)) fun _ => Act.withinE_pure _

theorem renamenx_marks : Act.WithinE Marked (renamenx argv) := by
  unfold renamenx
  refine Act.withinE_bind (withinE_exactArgs _ _) fun _ => ?_
  refine Act.withinE_bind (withinE_look (hasKey_glances _)) fun there => ?_
  refine Act.withinE_ite (Act.withinE_pure _) ?_
  have hrest : ∀ taken : Bool, Act.WithinE Marked (do
      if taken then return .bool false
      let _ ← Store.rename (arg argv 1) (arg argv 2)
      return .bool true : Cmd Reply) := by
    intro taken
    refine Act.withinE_ite (Act.withinE_pure _) ?_
    exact Act.withinE_bind (Act.withinE_lift (Store.rename_marks _ _)) fun _ => Act.withinE_pure _
  exact Act.withinE_ite (Act.withinE_bind (withinE_look (hasKey_glances _)) hrest)
    (Act.withinE_bind (Act.withinE_pure _) hrest)

theorem copy_marks : Act.WithinE Marked (copy argv) :=
  Act.withinE_bind (withinE_minArgs _ _) fun _ => Act.withinE_bind copyReplace_within fun _ =>
    Act.withinE_bind (Act.withinE_lift (Store.copy_marks _ _ _)) fun _ => Act.withinE_pure _

/-- **Generic commands.** -/
theorem trend {config : Config} {name : String} {handler : Handler}
    (h : (name, handler) ∈ arms config) (argv : List Bytes) : Trend name (handler argv) := by
  simp only [arms, List.mem_cons, Prod.mk.injEq, List.not_mem_nil, or_false] at h
  rcases h with ⟨rfl, rfl⟩ | ⟨rfl, rfl⟩ | ⟨rfl, rfl⟩ | ⟨rfl, rfl⟩ | ⟨rfl, rfl⟩ | ⟨rfl, rfl⟩ |
    ⟨rfl, rfl⟩ | ⟨rfl, rfl⟩ | ⟨rfl, rfl⟩ | ⟨rfl, rfl⟩ | ⟨rfl, rfl⟩ | ⟨rfl, rfl⟩ | ⟨rfl, rfl⟩ |
    ⟨rfl, rfl⟩ | ⟨rfl, rfl⟩ | ⟨rfl, rfl⟩ | ⟨rfl, rfl⟩ | ⟨rfl, rfl⟩ | ⟨rfl, rfl⟩ | ⟨rfl, rfl⟩
  · exact .of_drains rfl (del_drains _)
  · exact .of_drains rfl (del_drains _)
  · exact .reads (Act.withinE_bind (withinE_minArgs _ _) fun _ =>
      Act.withinE_bind (withinE_look (Act.within_countList hasKey_glances _)) fun _ =>
      Act.withinE_pure _)
  · exact .of_drains rfl (expireVariant_drains _ fun _ => deadlineAfterMillis_glances _)
  · exact .of_drains rfl (expireVariant_drains _ deadlineAfterMillis_glances)
  · exact .of_drains rfl (expireVariant_drains _ fun _ => deadlineAtUnixMillis_glances _)
  · exact .of_drains rfl (expireVariant_drains _ deadlineAtUnixMillis_glances)
  · exact .of_drains rfl persist_drains
  · exact .reads (Act.withinE_bind (withinE_exactArgs _ _) fun _ =>
      Act.withinE_bind (withinE_look (ttl_glances _)) fun _ => Act.withinE_pure _)
  · exact .reads (Act.withinE_bind (withinE_exactArgs _ _) fun _ =>
      Act.withinE_bind (withinE_look (pttlMs_glances _)) fun _ => Act.withinE_pure _)
  · exact .reads (Act.withinE_bind (withinE_exactArgs _ _) fun _ =>
      Act.withinE_bind (withinE_look (typeOf_glances _)) fun _ => Act.withinE_pure _)
  · exact .reads (Act.withinE_bind (withinE_exactArgs _ _) fun _ =>
      Act.withinE_bind (withinE_look (ofNow_glances _)) fun _ => Act.withinE_pure _)
  · exact .reads (Act.withinE_bind (withinE_minArgs _ _) fun _ =>
      Act.withinE_bind (scanCursor_glances _) fun _ =>
      Act.withinE_bind (scanOptions_glances _ _ _) fun _ =>
      Act.withinE_bind (withinE_look (scan_glances _ _)) fun _ => Act.withinE_pure _)
  · exact .reads (Act.withinE_bind (withinE_exactArgs _ _) fun _ =>
      Act.withinE_bind (withinE_look (ofNow_glances _)) fun _ => Act.withinE_pure _)
  · exact .fills rfl rfl rename_marks
  · exact .fills rfl rfl renamenx_marks
  · exact .fills rfl rfl copy_marks
  · exact .reads (Act.withinE_bind (withinE_exactArgs _ _) fun _ =>
      Act.withinE_bind (withinE_look randomKey_glances) fun _ => Act.withinE_pure _)
  · exact .of_drains rfl flush_drains
  · exact .of_drains rfl flush_drains

end Klyro.Generic
