import Klyro.ByLive.Collections
import Klyro.Effects.Blocking

/-!
# The blocking pops see the live keys only

The deadline of a parked client is made of a reading of the monotonic clock, which stands as well.

* `Env.PausedAt` — both clocks stand.
* `Blocking.byLive` — every blocking or multi-key pop.
-/

set_option autoImplicit false

namespace Klyro

open Act Store

/-- Both clocks stand. -/
structure Env.PausedAt (e : Env) (t : SystemTime) (u : Instant) : Prop where
  clock : e.StandsAt t
  instant : ∀ i, e.instant i = u

namespace Blocking

open Lists (End popOne moveOne)

variable {e : Env} {t : SystemTime} {u : Instant} {argv : List Bytes} {client : Client}

/-! ## Arguments -/

theorem parseTimeout_byLive (hu : ∀ i, e.instant i = u) (word : Bytes) :
    ByLiveE e t (parseTimeout word) := by
  have hinstant : ByLive e t instantNow := byLive_of (fun _ => u) id fun s w hs => ⟨⟨hu w.instants, rfl⟩, hs⟩
  have hdeadline : ∀ seconds, ByLive e t (deadlineIn seconds) := fun seconds =>
    settled_bind hinstant fun _ => settled_ite (settled_panic _) <|
      settled_ite (settled_panic _) (settled_pure _)
  unfold parseTimeout
  cases parseF64 word with
  | none => exact settledE_throw _
  | some seconds =>
    refine settledE_ite (settledE_throw _) (settledE_ite (settledE_throw _) (settledE_ite (settledE_pure _) ?_))
    exact settledE_bind (settledE_lift (hdeadline seconds)) fun _ => settledE_pure _

theorem parseMultiKey_byLive (argv : List Bytes) (pos : Nat) (name : String) :
    ByLiveE e t (parseMultiKey argv pos name) := by
  rcases parseMultiKey_fixed argv pos name with ⟨r, -, h⟩ | ⟨request, count, h, -⟩
  · rw [h]
    exact settledE_throw r
  · rw [h]
    exact settledE_pure request

/-! ## The plain parts -/

section standing

variable (ht : e.StandsAt t)

include ht

theorem popFirstList_byLive (side : End) : ∀ keys, ByLiveE e t (popFirstList side keys)
  | [] => settledE_pure _
  | key :: keys => by
    unfold popFirstList
    refine settledE_bind (byLiveE_checkType ht _ _) fun _ => ?_
    refine settledE_bind (settledE_lift (Lists.popOne_byLive ht key side)) fun popped => ?_
    cases popped with
    | none => exact popFirstList_byLive side keys
    | some value => exact settledE_pure _

theorem popUpTo_byLive (key : Bytes) (side : End) (n : Nat) : ByLive e t (popUpTo key side n) := by
  induction n with
  | zero => exact settled_pure _
  | succ n ih =>
    unfold popUpTo
    refine settled_bind (Lists.popOne_byLive ht key side) fun popped => ?_
    cases popped with
    | none => exact settled_pure _
    | some value => exact settled_bind ih fun _ => settled_pure _

theorem mpopLists_byLive (side : End) (count : Nat) : ∀ keys, ByLiveE e t (mpopLists side count keys)
  | [] => settledE_pure _
  | key :: keys => by
    unfold mpopLists
    refine settledE_bind (byLiveE_checkType ht _ _) fun _ => ?_
    refine settledE_bind (settledE_lift (popUpTo_byLive ht key side count)) fun popped => ?_
    exact settledE_ite (settledE_pure _) (mpopLists_byLive side count keys)

theorem popOneScored_byLive (key : Bytes) (edge : Edge) (count : Nat) :
    ByLive e t (popOneScored key edge count) := by
  unfold popOneScored
  refine settled_bind (byLive_write ht (steady_state _) .zset key) fun popped => settled_ite ?_ ?_
  · exact settled_bind (settled_pure _) fun _ => settled_pure _
  · exact settled_bind (byLive_deleteIfEmpty ht key) fun _ => settled_pure _

theorem popFirstZset_byLive (edge : Edge) : ∀ keys, ByLiveE e t (popFirstZset edge keys)
  | [] => settledE_pure _
  | key :: keys => by
    unfold popFirstZset
    refine settledE_bind (byLiveE_checkType ht _ _) fun _ => ?_
    refine settledE_bind (settledE_lift (popOneScored_byLive ht key edge 1)) fun popped => ?_
    cases popped with
    | nil => exact popFirstZset_byLive edge keys
    | cons _ _ => exact settledE_pure _

theorem mpopZsets_byLive (edge : Edge) (count : Nat) : ∀ keys, ByLiveE e t (mpopZsets edge count keys)
  | [] => settledE_pure _
  | key :: keys => by
    unfold mpopZsets
    refine settledE_bind (byLiveE_checkType ht _ _) fun _ => ?_
    refine settledE_bind (settledE_lift (popOneScored_byLive ht key edge count)) fun popped => ?_
    exact settledE_ite (settledE_pure _) (mpopZsets_byLive edge count keys)

end standing

/-! ## The commands -/

variable (h : e.PausedAt t u)

include h

theorem blockingMove_byLive (ends : End × End) (timeout : Bytes) :
    ByLiveE e t (blockingMove client argv ends timeout) :=
  settledE_bind (parseTimeout_byLive h.instant timeout) fun _ =>
    settledE_bind (byLiveE_checkType h.clock _ _) fun _ => settledE_bind (byLiveE_checkType h.clock _ _) fun _ =>
    settledE_bind (settledE_lift (Lists.moveOne_byLive h.clock _ _ _ _)) fun _ => settledE_pure _

/-- **Blocking and multi-key pops.** -/
theorem byLive {name : String} {handler : Client → List Bytes → Cmd Response}
    (hmem : (name, handler) ∈ arms) (client : Client) (argv : List Bytes) :
    ByLiveE e t (handler client argv) := by
  have ht := h.clock
  simp only [arms, List.mem_cons, Prod.mk.injEq, List.not_mem_nil, or_false] at hmem
  rcases hmem with ⟨rfl, rfl⟩ | ⟨rfl, rfl⟩ | ⟨rfl, rfl⟩ | ⟨rfl, rfl⟩ | ⟨rfl, rfl⟩ | ⟨rfl, rfl⟩ |
    ⟨rfl, rfl⟩ | ⟨rfl, rfl⟩ | ⟨rfl, rfl⟩ | ⟨rfl, rfl⟩
  · exact settledE_bind (byLiveE_minArgs _ _) fun _ => settledE_bind (parseTimeout_byLive h.instant _) fun _ =>
      settledE_bind (popFirstList_byLive ht _ _) fun _ => settledE_pure _
  · exact settledE_bind (byLiveE_minArgs _ _) fun _ => settledE_bind (parseTimeout_byLive h.instant _) fun _ =>
      settledE_bind (popFirstList_byLive ht _ _) fun _ => settledE_pure _
  · exact settledE_bind (byLiveE_exactArgs _ _) fun _ =>
      settledE_bind (byLiveE_fixed Lists.moveEnds_fixed) fun _ => blockingMove_byLive h _ _
  · exact settledE_bind (byLiveE_exactArgs _ _) fun _ => blockingMove_byLive h _ _
  · exact settledE_bind (byLiveE_minArgs _ _) fun _ => settledE_bind (parseMultiKey_byLive _ _ _) fun _ =>
      settledE_bind (byLiveE_orThrow _ _) fun _ => settledE_bind (mpopLists_byLive ht _ _ _) fun _ => settledE_pure _
  · exact settledE_bind (byLiveE_minArgs _ _) fun _ => settledE_bind (parseTimeout_byLive h.instant _) fun _ =>
      settledE_bind (parseMultiKey_byLive _ _ _) fun _ => settledE_bind (byLiveE_orThrow _ _) fun _ =>
      settledE_bind (mpopLists_byLive ht _ _ _) fun _ => settledE_pure _
  · exact settledE_bind (byLiveE_minArgs _ _) fun _ => settledE_bind (parseTimeout_byLive h.instant _) fun _ =>
      settledE_bind (popFirstZset_byLive ht _ _) fun _ => settledE_pure _
  · exact settledE_bind (byLiveE_minArgs _ _) fun _ => settledE_bind (parseTimeout_byLive h.instant _) fun _ =>
      settledE_bind (popFirstZset_byLive ht _ _) fun _ => settledE_pure _
  · exact settledE_bind (byLiveE_minArgs _ _) fun _ => settledE_bind (parseMultiKey_byLive _ _ _) fun _ =>
      settledE_bind (byLiveE_orThrow _ _) fun _ => settledE_bind (mpopZsets_byLive ht _ _ _) fun _ => settledE_pure _
  · exact settledE_bind (byLiveE_minArgs _ _) fun _ => settledE_bind (parseTimeout_byLive h.instant _) fun _ =>
      settledE_bind (parseMultiKey_byLive _ _ _) fun _ => settledE_bind (byLiveE_orThrow _ _) fun _ =>
      settledE_bind (mpopZsets_byLive ht _ _ _) fun _ => settledE_pure _

end Blocking

end Klyro
