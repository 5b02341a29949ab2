import Klyro.World
import Mathlib.Algebra.BigOperators.Group.Multiset.Basic
import Mathlib.Logic.Relation

/-!
# The counting allocator (`util/memory.rs`)

Threads allocate and free at the same time, and every call is several atomic steps: the system's own
allocation, `fetch_add` and `fetch_max` in `record_growth`, `fetch_sub`.  Between two steps of one call any
steps of others may come.

* `Allocator.Step` — one atomic step of one call.
* `Allocator.counted` — the bytes the counter should hold, call by call.
* `Step.counts` — every step moves the counter as it should, modulo the word.
* `used_and_peak` — in a run whose bytes fit a word, what the two counters hold at every point of it.

A relaxed operation on one counter takes its place in the order of that counter, and the maximum is taken
with a total that the addition gave: the steps of a call are in the order of the source as far as the two
counters can tell.
-/

set_option autoImplicit false

namespace Klyro

/-- A call of the allocator that is not over, by what it did last. -/
inductive Call where
  /-- The system gave a block, in the place of an old one for `realloc`. -/
  | given (size : Nat) (old : Option Nat)
  /-- `ALLOCATED.fetch_add`, with the total `record_growth` made of it. -/
  | added (size total : Nat) (old : Option Nat)
  /-- `PEAK.fetch_max` of a `realloc`, which still has the old block to take off. -/
  | recorded (size old : Nat)
  /-- `dealloc` begins. -/
  | leaving (size : Nat)
  /-- `ALLOCATED.fetch_sub` of a `dealloc`, which still has the block to give back. -/
  | subtracted (size : Nat)

namespace Call

/-- The bytes the call has in the counter. -/
def counted : Call → Nat
  | given _ old => old.getD 0
  | added size _ old => size + old.getD 0
  | recorded size old => size + old
  | leaving size => size
  | subtracted _ => 0

/-- The total that the peak has not been told. -/
def untold : Call → Option Nat
  | added _ total _ => some total
  | _ => none

/-- What the call is going to take off the counter. -/
def toSubtract : Call → Nat
  | given _ old | added _ _ old => old.getD 0
  | recorded _ old => old
  | leaving size => size
  | subtracted _ => 0

theorem toSubtract_le (call : Call) : call.toSubtract ≤ call.counted := by
  cases call <;> simp [toSubtract, counted]

end Call

/-- The two counters, the blocks the program holds, by their sizes, and the calls in progress. -/
structure Allocator where
  allocated : Nat := 0
  peak : Nat := 0
  live : Multiset Nat := 0
  calls : Multiset Call := 0
  /-- History variable: the largest value `ALLOCATED` has had. -/
  highest : Nat := 0

namespace Allocator

/-- `ALLOCATED.fetch_add(bytes) + bytes`. -/
def grown (s : Allocator) (bytes : Nat) : Nat := (s.allocated + bytes) % (u64Max + 1)

/-- **One atomic step of one call.** An allocation the system refuses is no step: nothing is counted. -/
inductive Step : Allocator → Allocator → Prop
  /-- `System.alloc`, `System.alloc_zeroed`. -/
  | alloc (s : Allocator) (size : Nat) : Step s { s with calls := .given size none ::ₘ s.calls }
  /-- `System.realloc` of a block the program holds. -/
  | realloc {s : Allocator} (size : Nat) {old : Nat} {live : Multiset Nat} (h : s.live = old ::ₘ live) :
      Step s { s with live := live, calls := .given size (some old) ::ₘ s.calls }
  /-- `dealloc` of a block the program holds. -/
  | dealloc {s : Allocator} {size : Nat} {live : Multiset Nat} (h : s.live = size ::ₘ live) :
      Step s { s with live := live, calls := .leaving size ::ₘ s.calls }
  /-- `ALLOCATED.fetch_add`. -/
  | add {s : Allocator} {size : Nat} {old : Option Nat} {calls : Multiset Call}
      (h : s.calls = .given size old ::ₘ calls) :
      Step s { s with
        allocated := s.grown size
        highest := max s.highest (s.grown size)
        calls := .added size (s.grown size) old ::ₘ calls }
  /-- `PEAK.fetch_max`, the end of `alloc`. -/
  | record {s : Allocator} {size total : Nat} {calls : Multiset Call}
      (h : s.calls = .added size total none ::ₘ calls) :
      Step s { s with peak := max s.peak total, live := size ::ₘ s.live, calls := calls }
  /-- `PEAK.fetch_max` in `realloc`. -/
  | recordMoved {s : Allocator} {size total old : Nat} {calls : Multiset Call}
      (h : s.calls = .added size total (some old) ::ₘ calls) :
      Step s { s with peak := max s.peak total, calls := .recorded size old ::ₘ calls }
  /-- `ALLOCATED.fetch_sub`, the end of `realloc`. -/
  | settle {s : Allocator} {size old : Nat} {calls : Multiset Call}
      (h : s.calls = .recorded size old ::ₘ calls) :
      Step s { s with
        allocated := wrapSubU64 s.allocated old
        highest := max s.highest (wrapSubU64 s.allocated old)
        live := size ::ₘ s.live
        calls := calls }
  /-- `ALLOCATED.fetch_sub` in `dealloc`. -/
  | subtract {s : Allocator} {size : Nat} {calls : Multiset Call} (h : s.calls = .leaving size ::ₘ calls) :
      Step s { s with
        allocated := wrapSubU64 s.allocated size
        highest := max s.highest (wrapSubU64 s.allocated size)
        calls := .subtracted size ::ₘ calls }
  /-- `System.dealloc`, the end of `dealloc`. -/
  | free {s : Allocator} {size : Nat} {calls : Multiset Call} (h : s.calls = .subtracted size ::ₘ calls) :
      Step s { s with calls := calls }

/-- `used_bytes`. -/
def usedBytes (s : Allocator) : Nat := s.allocated

/-- `peak_bytes`. -/
def peakBytes (s : Allocator) : Nat := s.peak

/-- The bytes that are in the counter: the blocks the program holds, and those of the calls in progress. -/
def counted (s : Allocator) : Nat := s.live.sum + (s.calls.map Call.counted).sum

/-- What is counted fits a word. -/
def Fits (s : Allocator) : Prop := s.counted ≤ u64Max

instance (s : Allocator) : Decidable s.Fits := inferInstanceAs (Decidable (_ ≤ _))

/-! ## The counter -/

variable {s s' : Allocator}

theorem grown_counted {bytes n : Nat} (h : s.allocated = n % (u64Max + 1)) :
    s.grown bytes = (n + bytes) % (u64Max + 1) := by
  unfold grown
  rw [h, Nat.mod_add_mod]

theorem wrapSubU64_counted {a b n : Nat} (h : a = (n + b) % (u64Max + 1)) :
    wrapSubU64 a b = n % (u64Max + 1) := by
  unfold wrapSubU64 u64Max at *
  omega

/-- A call has not told the peak of `total`. -/
def Untold (s : Allocator) (total : Nat) : Prop := ∃ call ∈ s.calls, call.untold = some total

/-- What a step does to the counters, and what it means. -/
inductive Effect (s s' : Allocator) : Prop where
  | quiet (hallocated : s'.allocated = s.allocated) (hhighest : s'.highest = s.highest)
      (hpeak : s'.peak = s.peak) (hcounted : s'.counted = s.counted)
      (huntold : ∀ total, s'.Untold total ↔ s.Untold total)
  | added (bytes : Nat) (hallocated : s'.allocated = s.grown bytes)
      (hhighest : s'.highest = max s.highest (s.grown bytes)) (hpeak : s'.peak = s.peak)
      (hcounted : s'.counted = s.counted + bytes)
      (huntold : ∀ total, s'.Untold total ↔ total = s.grown bytes ∨ s.Untold total)
  | told (told : Nat) (hallocated : s'.allocated = s.allocated) (hhighest : s'.highest = s.highest)
      (hpeak : s'.peak = max s.peak told) (hcounted : s'.counted = s.counted)
      (huntold : ∀ total, s.Untold total ↔ total = told ∨ s'.Untold total)
  | taken (bytes : Nat) (hallocated : s'.allocated = wrapSubU64 s.allocated bytes)
      (hhighest : s'.highest = max s.highest (wrapSubU64 s.allocated bytes)) (hpeak : s'.peak = s.peak)
      (hcounted : s.counted = s'.counted + bytes) (huntold : ∀ total, s'.Untold total ↔ s.Untold total)

/-- **What every step does.** -/
theorem Step.effect (h : Step s s') : Effect s s' := by
  cases h with
  | alloc size =>
    refine .quiet rfl rfl rfl ?_ ?_
    · simp [counted, Call.counted]
    · simp [Untold, Call.untold]
  | realloc size hlive =>
    refine .quiet rfl rfl rfl ?_ ?_
    · simp only [counted, hlive, Multiset.map_cons, Multiset.sum_cons, Call.counted, Option.getD_some]
      omega
    · simp [Untold, Call.untold]
  | dealloc hlive =>
    refine .quiet rfl rfl rfl ?_ ?_
    · simp only [counted, hlive, Multiset.map_cons, Multiset.sum_cons, Call.counted]
      omega
    · simp [Untold, Call.untold]
  | @add size old calls hcalls =>
    refine .added size rfl rfl rfl ?_ ?_
    · simp only [counted, hcalls, Multiset.map_cons, Multiset.sum_cons, Call.counted]
      omega
    · simp [Untold, Call.untold, hcalls, eq_comm]
  | @record size total calls hcalls =>
    refine .told total rfl rfl rfl ?_ ?_
    · simp only [counted, hcalls, Multiset.map_cons, Multiset.sum_cons, Call.counted, Option.getD_none]
      omega
    · simp [Untold, Call.untold, hcalls, eq_comm]
  | @recordMoved size total old calls hcalls =>
    refine .told total rfl rfl rfl ?_ ?_
    · simp only [counted, hcalls, Multiset.map_cons, Multiset.sum_cons, Call.counted, Option.getD_some]
    · simp [Untold, Call.untold, hcalls, eq_comm]
  | @settle size old calls hcalls =>
    refine .taken old rfl rfl rfl ?_ ?_
    · simp only [counted, hcalls, Multiset.map_cons, Multiset.sum_cons, Call.counted]
      omega
    · simp [Untold, Call.untold, hcalls]
  | @subtract size calls hcalls =>
    refine .taken size rfl rfl rfl ?_ ?_
    · simp only [counted, hcalls, Multiset.map_cons, Multiset.sum_cons, Call.counted]
      omega
    · simp [Untold, Call.untold, hcalls]
  | free hcalls =>
    refine .quiet rfl rfl rfl ?_ ?_
    · simp only [counted, hcalls, Multiset.map_cons, Multiset.sum_cons, Call.counted, zero_add]
    · simp [Untold, Call.untold, hcalls]

/-- **Every step moves the counter as it should**, modulo the word. -/
theorem Effect.counts (h : Effect s s') (hs : s.allocated = s.counted % (u64Max + 1)) :
    s'.allocated = s'.counted % (u64Max + 1) := by
  cases h with
  | quiet hallocated _ _ hcounted _ => rw [hallocated, hcounted, hs]
  | added bytes hallocated _ _ hcounted _ => rw [hallocated, hcounted, grown_counted hs]
  | told _ hallocated _ _ hcounted _ => rw [hallocated, hcounted, hs]
  | taken bytes hallocated _ _ hcounted _ =>
    rw [hcounted] at hs
    rw [hallocated, wrapSubU64_counted hs]

/-! ## The peak -/

/-- What the counters hold between any two steps of a run whose bytes fit a word. -/
structure Kept (s : Allocator) : Prop where
  counts : s.allocated = s.counted
  allocated_le : s.allocated ≤ s.highest
  peak_le : s.peak ≤ s.highest
  untold_le : ∀ total, s.Untold total → total ≤ s.highest
  /-- The peak has been told of the highest value, or a call is going to tell it. -/
  reached : s.peak = s.highest ∨ s.Untold s.highest

theorem Kept.start : Kept {} where
  counts := rfl
  allocated_le := le_rfl
  peak_le := le_rfl
  untold_le := by simp [Untold]
  reached := .inl rfl

/-- **Every step keeps the accounts.** -/
theorem Effect.kept (h : Effect s s') (hs : s.Kept) (hfits : s.Fits) (hfits' : s'.Fits) : s'.Kept := by
  have hword : ∀ {a : Allocator}, a.Fits → a.counted % (u64Max + 1) = a.counted :=
    fun ha => Nat.mod_eq_of_lt (Nat.lt_succ_of_le ha)
  have hcounts : s'.allocated = s'.counted := by
    rw [← hword hfits']
    refine h.counts ?_
    rw [hword hfits]
    exact hs.counts
  have hallocated_le := hs.allocated_le
  have hpeak_le := hs.peak_le
  cases h with
  | quiet hallocated hhighest hpeak hcounted huntold =>
    refine ⟨hcounts, by omega, by omega, fun total ht => ?_, ?_⟩
    · rw [hhighest]
      exact hs.untold_le total ((huntold total).mp ht)
    · rw [hpeak, hhighest, huntold]
      exact hs.reached
  | added bytes hallocated hhighest hpeak hcounted huntold =>
    refine ⟨hcounts, by omega, by omega, fun total ht => ?_, ?_⟩
    · rcases (huntold total).mp ht with rfl | ht
      · omega
      · have := hs.untold_le total ht
        omega
    · rw [huntold]
      rcases Nat.le_total s.highest (s.grown bytes) with hle | hle
      · exact .inr (.inl (by omega))
      · have hsame : s'.highest = s.highest := by omega
        rw [hpeak, hsame]
        exact hs.reached.imp id .inr
  | told told hallocated hhighest hpeak hcounted huntold =>
    have htold := hs.untold_le told ((huntold told).mpr (.inl rfl))
    refine ⟨hcounts, by omega, by omega, fun total ht => ?_, ?_⟩
    · rw [hhighest]
      exact hs.untold_le total ((huntold total).mpr (.inr ht))
    · rcases hs.reached with hreached | hreached
      · exact .inl (by omega)
      · rcases (huntold _).mp hreached with heq | hreached
        · exact .inl (by omega)
        · exact .inr (by rwa [hhighest])
  | taken bytes hallocated hhighest hpeak hcounted huntold =>
    have hless : s'.allocated ≤ s.allocated := by
      rw [hcounts, hs.counts, hcounted]
      exact Nat.le_add_right _ _
    have hsame : s'.highest = s.highest := by omega
    refine ⟨hcounts, by omega, by omega, fun total ht => ?_, ?_⟩
    · rw [hsame]
      exact hs.untold_le total ((huntold total).mp ht)
    · rw [hpeak, hsame, huntold]
      exact hs.reached

/-- A step between states whose bytes fit. -/
def FittingStep (s s' : Allocator) : Prop := Step s s' ∧ s'.Fits

theorem kept_of_run (h : Relation.ReflTransGen FittingStep {} s) : s.Kept ∧ s.Fits := by
  induction h with
  | refl => exact ⟨.start, Nat.zero_le _⟩
  | tail _ hstep ih => exact ⟨hstep.1.effect.kept ih.1 ih.2 hstep.2, hstep.2⟩

/-- **The two counters**, at any point of any interleaving: what is in use, nothing taken off that is not
there, and the highest value as soon as no call has it still to tell. -/
theorem used_and_peak (h : Relation.ReflTransGen FittingStep {} s) :
    s.usedBytes = s.counted ∧ (s.calls = 0 → s.usedBytes = s.live.sum) ∧
      (∀ call ∈ s.calls, call.toSubtract ≤ s.usedBytes) ∧
      s.peakBytes ≤ s.highest ∧ ((∀ total, ¬ s.Untold total) → s.peakBytes = s.highest) := by
  obtain ⟨hkept, -⟩ := kept_of_run h
  have hused : s.usedBytes = s.counted := hkept.counts
  refine ⟨hused, fun hcalls => ?_, fun call hmem => ?_, hkept.peak_le, fun hnone => ?_⟩
  · rw [hused, counted, hcalls]
    simp
  · obtain ⟨calls, hcalls⟩ := Multiset.exists_cons_of_mem hmem
    have hle := call.toSubtract_le
    rw [hused, counted, hcalls, Multiset.map_cons, Multiset.sum_cons]
    omega
  · exact hkept.reached.resolve_right (hnone _)

/-- One thread has added its eight bytes and not told the peak; another was just given sixteen. -/
def midway : Allocator where
  allocated := 8
  calls := .given 16 none ::ₘ .added 8 8 none ::ₘ 0
  highest := 8

theorem used_and_peak_midway : midway.usedBytes = midway.counted ∧
    ∀ call ∈ midway.calls, call.toSubtract ≤ midway.usedBytes := by
  have hfirst : FittingStep {} { calls := .given 8 none ::ₘ 0 } := ⟨.alloc _ 8, by decide⟩
  have hsecond : FittingStep { calls := .given 8 none ::ₘ 0 }
      { allocated := 8, calls := .added 8 8 none ::ₘ 0, highest := 8 } :=
    ⟨@Step.add { calls := .given 8 none ::ₘ 0 } 8 none 0 rfl, by decide⟩
  have hthird : FittingStep { allocated := 8, calls := .added 8 8 none ::ₘ 0, highest := 8 } midway :=
    ⟨.alloc _ 16, by decide⟩
  have hrun := used_and_peak (((Relation.ReflTransGen.single hfirst).tail hsecond).tail hthird)
  exact ⟨hrun.1, hrun.2.2.1⟩

end Allocator

end Klyro
