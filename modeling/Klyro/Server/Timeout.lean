import Klyro.Commands.Blocking

/-!
# Blocking timeouts (`parse_timeout`, `poll_timeout`)

The seconds a client names become a `Duration`, the `Duration` an `Instant`, and the time left to
the earliest `Instant` a 32-bit number of milliseconds for `poll`.

* `pollTimeout` — how long the event loop may sleep.
* `WaitsFor` — what it should be: the milliseconds left to the earliest deadline, in `[1, 1000]`.
* `timeouts_exact_iff` — when a timeout argument is answered without a panic and the sleep is
  the one `WaitsFor` describes.
-/

set_option autoImplicit false

namespace Klyro

open Blocking

/-- The value of an integer after it is cut to an `i32`. -/
def wrapI32 (i : Int) : Int := (i + 2147483648) % 4294967296 - 2147483648

/-- `POLL_INTERVAL_MS`. -/
def pollIntervalMs : Int := 1000

/-- `clamp(1, POLL_INTERVAL_MS)`. -/
def clampPoll (ms : Int) : Int :=
  if ms < 1 then 1 else if pollIntervalMs < ms then pollIntervalMs else ms

/-- `poll_timeout`. -/
def pollTimeout : Run App Int := do
  let a ← Act.get
  match App.nextBlockDeadline a with
  | none => pure pollIntervalMs
  | some deadline => do
    let t ← instantNow
    let remaining := asMillis (deadline - t)
    pure (clampPoll (wrapI32 remaining))

/-! ## The earliest deadline -/

/-- The deadlines the parked commands have. -/
def App.deadlines (a : App) : Set Instant := {d | ∃ waiter ∈ a.blocked, waiter.deadline = some d}

theorem App.mem_deadlines {a : App} {d : Instant} :
    d ∈ a.deadlines ↔ d ∈ a.blocked.filterMap Blocked.deadline := by
  rw [List.mem_filterMap]
  rfl

theorem App.nextBlockDeadline_eq_none {a : App} : a.nextBlockDeadline = none ↔ a.deadlines = ∅ := by
  unfold nextBlockDeadline
  rw [List.min?_eq_none_iff, List.eq_nil_iff_forall_not_mem, Set.eq_empty_iff_forall_notMem]
  simp only [mem_deadlines]

theorem App.nextBlockDeadline_eq_some {a : App} {d : Instant} :
    a.nextBlockDeadline = some d ↔ IsLeast a.deadlines d := by
  unfold nextBlockDeadline
  rw [List.min?_eq_some_iff]
  constructor
  · rintro ⟨hmem, hle⟩
    exact ⟨mem_deadlines.mpr hmem, fun d' h => hle d' (mem_deadlines.mp h)⟩
  · rintro ⟨hmem, hle⟩
    exact ⟨mem_deadlines.mp hmem, fun d' h => hle (mem_deadlines.mpr h)⟩

/-- The time `poll` should be given at `t`: the milliseconds left to the earliest deadline, within
`[1, 1000]`, and the whole interval when nothing waits for a deadline. -/
def WaitsFor (a : App) (t : Instant) (ms : Int) : Prop :=
  (∀ d, IsLeast a.deadlines d → ms = max 1 (min 1000 (asMillis (d - t) : Int))) ∧
    (a.deadlines = ∅ → ms = 1000)

/-- The milliseconds left to the earliest deadline are less than a second, or their low 32 bits are
a signed number of at least a second. -/
def SleepFits (a : App) (t : Instant) : Prop :=
  ∀ d, IsLeast a.deadlines d →
    asMillis (d - t) < 1000 ∨
      1000 ≤ asMillis (d - t) % 2 ^ 32 ∧ asMillis (d - t) % 2 ^ 32 < 2 ^ 31

theorem clampPoll_eq (ms : Int) : clampPoll ms = max 1 (min 1000 ms) := by
  unfold clampPoll pollIntervalMs
  omega

/-- The cut to 32 bits goes unseen behind the clamp. -/
theorem clampPoll_wrap_iff (left : Nat) :
    clampPoll (wrapI32 left) = max 1 (min 1000 (left : Int)) ↔
      left < 1000 ∨ 1000 ≤ left % 2 ^ 32 ∧ left % 2 ^ 32 < 2 ^ 31 := by
  rw [clampPoll_eq]
  unfold wrapI32
  omega

/-- Twenty-five days ahead the event loop spins. -/
example : clampPoll (wrapI32 2147484000) = 1 := by decide

theorem sat_pollTimeout_iff (e : Env) (a : App) (w : World) :
    Act.Sat pollTimeout e a w (fun ms _ _ => WaitsFor a (e.instant w.instants) ms) (fun _ => False) ↔
      SleepFits a (e.instant w.instants) := by
  unfold pollTimeout
  rw [Act.sat_bind, Act.sat_get]
  unfold WaitsFor SleepFits
  cases hnext : a.nextBlockDeadline with
  | none =>
    have hempty := App.nextBlockDeadline_eq_none.mp hnext
    have hleast : ∀ d, ¬ IsLeast a.deadlines d := fun d h => by
      rw [hempty] at h
      exact h.1
    simp [hleast, pollIntervalMs]
  | some deadline =>
    have hleast := App.nextBlockDeadline_eq_some.mp hnext
    have huniq : ∀ d, IsLeast a.deadlines d ↔ d = deadline := fun d =>
      ⟨fun h => h.unique hleast, fun h => h ▸ hleast⟩
    have hne : a.deadlines ≠ ∅ := Set.nonempty_iff_ne_empty.mp hleast.nonempty
    simp only [huniq, forall_eq, hne, false_implies, and_true]
    have hsat := clampPoll_wrap_iff (asMillis (deadline - e.instant w.instants))
    exact hsat

/-! ## The timeout argument -/

/-- The nanoseconds `from_secs_f64` makes of a positive finite number of seconds. -/
def nanosOf (seconds : F64) : Nat :=
  SoftFloat.halfEven (seconds.units * nanosPerSec) (2 ^ Format.unitExp ⟨53, 11⟩)

/-- If the word is a positive finite number of seconds, the moment that long after `t` is one an
`Instant` can hold. -/
def TimeoutFits (word : Bytes) (t : Instant) : Prop :=
  ∀ seconds, parseF64 word = some seconds → seconds.lt (SoftFloat.zero false) = false →
    seconds.isFinite = true → seconds.feq (SoftFloat.zero false) = false →
    ((t + nanosOf seconds : Nat) : Int) < (i64Max + 1) * nanosPerSec

variable (e : Env) (s : Store) (w : World)

theorem sat_deadlineIn_iff (seconds : F64) :
    Act.Sat (deadlineIn seconds) e s w (fun _ _ _ => True) (fun _ => False) ↔
      ((e.instant w.instants + nanosOf seconds : Nat) : Int) < (i64Max + 1) * nanosPerSec := by
  have hdef : deadlineIn seconds = (do
      let t ← instantNow
      if u64Max < nanosOf seconds / nanosPerSec then Act.panic .overflow
      else if i64Max < ((t + nanosOf seconds) / nanosPerSec : Nat) then Act.panic .overflow
      else pure (t + nanosOf seconds)) := rfl
  rw [hdef, Act.sat_bind, sat_instantNow]
  simp only [Act.sat_ite, Act.sat_panic, Act.sat_pure, imp_false, implies_true, and_true, not_lt]
  generalize nanosOf seconds = nanos
  unfold nanosPerSec u64Max i64Max
  omega

/-- A timeout argument is answered, with an error reply or with a deadline. -/
def AnswersTimeout (word : Bytes) : Prop :=
  Act.SatE (parseTimeout word) e s w (fun _ _ _ => True) (fun reply _ _ => reply.isError = true)
    (fun _ => False)

theorem answersTimeout_iff (word : Bytes) :
    AnswersTimeout e s w word ↔ TimeoutFits word (e.instant w.instants) := by
  unfold AnswersTimeout TimeoutFits parseTimeout
  cases hword : parseF64 word with
  | none =>
    refine ⟨fun _ _ h => (by cases h), fun _ => ?_⟩
    simp [Reply.isError]
  | some seconds =>
    simp only [Option.some.injEq, forall_eq']
    cases hneg : seconds.lt (SoftFloat.zero false) with
    | true =>
      refine ⟨fun _ h => (by cases h), fun _ => ?_⟩
      simp [Reply.isError]
    | false =>
      cases hfin : seconds.isFinite with
      | false =>
        refine ⟨fun _ _ h => (by cases h), fun _ => ?_⟩
        simp [Reply.isError]
      | true =>
        cases hzero : seconds.feq (SoftFloat.zero false) with
        | true =>
          refine ⟨fun _ _ _ h => (by cases h), fun _ => ?_⟩
          simp
        | false =>
          simp only [Bool.false_eq_true, if_false, Bool.not_true, true_implies]
          rw [Act.satE_bind, Act.satE_lift]
          exact sat_deadlineIn_iff e s w seconds

/-! ## Both together -/

/-- A timeout argument is answered whatever it is, and the event loop sleeps until the earliest
deadline. -/
def TimeoutsExact (word : Bytes) (a : App) (w' : World) : Prop :=
  AnswersTimeout e s w word ∧
    Act.Sat pollTimeout e a w' (fun ms _ _ => WaitsFor a (e.instant w'.instants) ms) (fun _ => False)

/-- **When blocking timeouts are exact**: the deadline fits an `Instant`, and the cut of the time
left to 32 bits goes unseen. -/
theorem timeouts_exact_iff (word : Bytes) (a : App) (w' : World) :
    TimeoutsExact e s w word a w' ↔
      TimeoutFits word (e.instant w.instants) ∧ SleepFits a (e.instant w'.instants) := by
  unfold TimeoutsExact
  rw [answersTimeout_iff, sat_pollTimeout_iff]

/-- A finite timeout of `1e30` seconds is answered by a panic. -/
theorem parseTimeout_huge : Act.SatE (parseTimeout [49, 101, 51, 48]) (stillEnv 0) {} {}
    (fun _ _ _ => False) (fun _ _ _ => False) (fun _ => True) := by
  decide +kernel

section

attribute [local irreducible] parseTimeout

theorem not_timeouts_exact : ¬ ∀ (e : Env) (s : Store) (w : World) (word : Bytes) (a : App)
    (w' : World), TimeoutsExact e s w word a w' := by
  intro h
  have hdone := (h (stillEnv 0) {} {} [49, 101, 51, 48] {} {}).1
  refine Act.not_sat_false _ (Act.sat_mono (Act.sat_and hdone parseTimeout_huge) ?_ (fun _ h => h.1))
  rintro (reply | deadline) _ _ h
  · exact h.2
  · exact h.2

end

end Klyro
