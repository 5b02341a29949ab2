import Klyro.Commands.ByLive
import Klyro.Commands.Generic

/-!
# The generic commands see the live keys only

* `Generic.byLive` — every command on keys of any type, those off the record apart.
-/

set_option autoImplicit false

namespace Klyro

open Act Store

-- the elaborator would evaluate the test of the range
attribute [local irreducible] addDuration

namespace Generic

variable {e : Env} {t : SystemTime} {argv : List Bytes}

theorem scanCursor_fixed (word : Bytes) : Fixed (scanCursor word) := by
  unfold scanCursor
  split
  · exact fixed_ite (fixed_pure _) (fixed_throw rfl)
  · exact fixed_throw rfl

theorem scanOptions_fixed (fuel : Nat) : ∀ words options, Fixed (scanOptions fuel words options) := by
  induction fuel with
  | zero => exact fun _ _ => fixed_pure _
  | succ fuel ih =>
    intro words options
    rcases words with _ | ⟨word, _ | ⟨value, rest⟩⟩
    · exact fixed_pure _
    · exact fixed_throw rfl
    · refine fixed_ite (ih _ _) (fixed_ite ?_ (fixed_throw rfl))
      exact fixed_bind (fixed_intArg _) fun c => fixed_ite (ih _ _) (fixed_throw rfl)

theorem copyReplace_fixed : Fixed (copyReplace argv) :=
  fixed_ite (fixed_pure _) (fixed_ite (fixed_pure _) (fixed_throw rfl))

/-- A handler that answers from one operation. -/
theorem byLiveE_operation {α : Type} {m : Run Store α} {f : α → Reply} (hm : ByLive e t m) :
    ByLiveE e t (do
      let found ← m
      return f found : Cmd Reply) :=
  settledE_bind (settledE_lift hm) fun _ => settledE_pure _

theorem flush_byLive : ByLiveE e t (flush argv) := by
  have hflush : (flush argv).run = Store.flush >>= fun _ => pure (.ok .ok) := rfl
  unfold ByLiveE
  rw [hflush]
  exact byLive_flushed _

variable (ht : e.StandsAt t)

include ht

theorem expireVariant_byLive (name : String) {toDeadline : Int → Run Store SystemTime}
    (hdeadline : ∀ n, ByLive e t (toDeadline n)) : ByLiveE e t (expireVariant name toDeadline argv) := by
  unfold expireVariant
  refine settledE_bind (byLiveE_exactArgs _ _) fun _ => settledE_bind (byLiveE_intArg _) fun amount => ?_
  refine settledE_bind (settledE_lift (hdeadline amount)) fun deadline => ?_
  exact settledE_bind (settledE_lift (byLive_setExpireAt ht _ _)) fun _ => settledE_pure _

theorem persist_byLive : ByLiveE e t (persist argv) := by
  unfold persist
  refine settledE_bind (byLiveE_exactArgs _ _) fun _ => ?_
  refine settledE_bind (settledE_lift (byLive_hasExpiry ht _)) fun had => settledE_ite ?_ (settledE_pure _)
  exact settledE_bind (settledE_lift (byLive_setExpireAt ht _ _)) fun _ => settledE_pure _

theorem scan_byLive (config : Config) : ByLiveE e t (scan config argv) :=
  settledE_bind (byLiveE_minArgs _ _) fun _ => settledE_bind (byLiveE_fixed (scanCursor_fixed _)) fun _ =>
    settledE_bind (byLiveE_fixed (scanOptions_fixed _ _ _)) fun _ =>
    settledE_bind (settledE_lift (byLive_scan ht _ _)) fun _ => settledE_pure _

theorem rename_byLive : ByLiveE e t (rename argv) := by
  unfold rename
  refine settledE_bind (byLiveE_exactArgs _ _) fun _ => ?_
  refine settledE_bind (settledE_lift (byLive_hasKey ht _)) fun there => settledE_ite (settledE_pure _) ?_
  exact settledE_bind (settledE_lift (byLive_rename ht _ _)) fun _ => settledE_pure _

theorem renamenx_byLive : ByLiveE e t (renamenx argv) := by
  unfold renamenx
  refine settledE_bind (byLiveE_exactArgs _ _) fun _ => ?_
  refine settledE_bind (settledE_lift (byLive_hasKey ht _)) fun there => settledE_ite (settledE_pure _) ?_
  have hrest : ∀ taken : Bool, ByLiveE e t (do
      if taken then return .bool false
      let _ ← Store.rename (arg argv 1) (arg argv 2)
      return .bool true : Cmd Reply) := by
    intro taken
    refine settledE_ite (settledE_pure _) ?_
    exact settledE_bind (settledE_lift (byLive_rename ht _ _)) fun _ => settledE_pure _
  exact settledE_ite (settledE_bind (settledE_lift (byLive_hasKey ht _)) hrest)
    (settledE_bind (settledE_pure _) hrest)

theorem copy_byLive : ByLiveE e t (copy argv) :=
  settledE_bind (byLiveE_minArgs _ _) fun _ => settledE_bind (byLiveE_fixed copyReplace_fixed) fun _ =>
    settledE_bind (settledE_lift (byLive_copy ht _ _ _)) fun _ => settledE_pure _

/-- **Generic commands.** -/
theorem byLive {config : Config} {name : String} {handler : Handler} (h : (name, handler) ∈ arms config)
    (hname : name ∉ offTheRecord) (argv : List Bytes) : ByLiveE e t (handler argv) := by
  simp only [arms, List.mem_cons, Prod.mk.injEq, List.not_mem_nil, or_false] at h
  rcases h with ⟨rfl, rfl⟩ | ⟨rfl, rfl⟩ | ⟨rfl, rfl⟩ | ⟨rfl, rfl⟩ | ⟨rfl, rfl⟩ | ⟨rfl, rfl⟩ |
    ⟨rfl, rfl⟩ | ⟨rfl, rfl⟩ | ⟨rfl, rfl⟩ | ⟨rfl, rfl⟩ | ⟨rfl, rfl⟩ | ⟨rfl, rfl⟩ | ⟨rfl, rfl⟩ |
    ⟨rfl, rfl⟩ | ⟨rfl, rfl⟩ | ⟨rfl, rfl⟩ | ⟨rfl, rfl⟩ | ⟨rfl, rfl⟩ | ⟨rfl, rfl⟩ | ⟨rfl, rfl⟩
  · exact settledE_bind (byLiveE_minArgs _ _) fun _ => byLiveE_operation (settled_countList (byLive_del ht) _)
  · exact settledE_bind (byLiveE_minArgs _ _) fun _ => byLiveE_operation (settled_countList (byLive_del ht) _)
  · exact settledE_bind (byLiveE_minArgs _ _) fun _ => byLiveE_operation (settled_countList (byLive_hasKey ht) _)
  · exact expireVariant_byLive ht _ fun _ => byLive_deadlineAfterMillis ht _
  · exact expireVariant_byLive ht _ (byLive_deadlineAfterMillis ht)
  · exact expireVariant_byLive ht _ fun _ => byLive_deadlineAtUnixMillis _
  · exact expireVariant_byLive ht _ byLive_deadlineAtUnixMillis
  · exact persist_byLive ht
  · exact settledE_bind (byLiveE_exactArgs _ _) fun _ => byLiveE_operation (byLive_ttl ht _)
  · exact settledE_bind (byLiveE_exactArgs _ _) fun _ => byLiveE_operation (byLive_pttlMs ht _)
  · exact settledE_bind (byLiveE_exactArgs _ _) fun _ => byLiveE_operation (byLive_typeOf ht _)
  · exact absurd (by decide) hname
  · exact scan_byLive ht config
  · exact settledE_bind (byLiveE_exactArgs _ _) fun _ => byLiveE_operation (byLive_size ht)
  · exact rename_byLive ht
  · exact renamenx_byLive ht
  · exact copy_byLive ht
  · exact absurd (by decide) hname
  · exact flush_byLive
  · exact flush_byLive

end Generic

end Klyro
