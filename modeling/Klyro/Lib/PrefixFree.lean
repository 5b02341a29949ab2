import Mathlib.Data.List.Basic

/-!
# Prefix-free languages

A language whose words end where they say they end, so that a stream of them can be cut in one way
only.

* `PrefixFree` — a word of the language followed by anything determines the word.
* `append_inj_of_terminated` — a line is determined by its terminator.
* `PrefixFree.counted` — a known number of words is determined word by word.
* `PrefixFree.stream` — so is a whole stream of nonempty words.
-/

set_option autoImplicit false

variable {α : Type}

/-- No word of the language goes on after the end of another. -/
def PrefixFree (L : List α → Prop) : Prop :=
  ∀ {w v s t : List α}, L w → L v → w ++ s = v ++ t → w = v

/-- The text before the first terminator, and what follows it. -/
theorem append_inj_of_terminated {a : α} {w : List α} :
    ∀ {v s t : List α}, a ∉ w → a ∉ v → w ++ a :: s = v ++ a :: t → w = v ∧ s = t := by
  induction w with
  | nil =>
    intro v s t _ hv h
    cases v with
    | nil => exact ⟨rfl, (List.cons.inj h).2⟩
    | cons b v => exact absurd (by simp [(List.cons.inj h).1]) hv
  | cons b w ih =>
    intro v s t hw hv h
    cases v with
    | nil => exact absurd (by simp [← (List.cons.inj h).1]) hw
    | cons c v =>
      rw [List.cons_append, List.cons_append, List.cons.injEq] at h
      obtain ⟨rfl, h⟩ := h
      obtain ⟨rfl, rfl⟩ := ih (fun hm => hw (by simp [hm])) (fun hm => hv (by simp [hm])) h
      exact ⟨rfl, rfl⟩

/-- As many words on both sides: the first ones are the same, and so on. -/
theorem PrefixFree.counted {L : List α → Prop} {ws : List (List α)}
    (hfree : ∀ w ∈ ws, ∀ {v s t : List α}, L v → w ++ s = v ++ t → w = v) :
    ∀ {vs : List (List α)} {s t : List α}, (∀ v ∈ vs, L v) → ws.length = vs.length →
      ws.flatten ++ s = vs.flatten ++ t → ws = vs := by
  induction ws with
  | nil =>
    intro vs s t _ hlen _
    exact (List.length_eq_zero_iff.mp hlen.symm).symm
  | cons w ws ih =>
    intro vs s t hvs hlen h
    cases vs with
    | nil => exact nomatch hlen
    | cons v vs =>
      rw [List.flatten_cons, List.flatten_cons, List.append_assoc, List.append_assoc] at h
      obtain rfl := hfree w (by simp) (hvs v (by simp)) h
      have hrest : ws = vs :=
        ih (fun u hu => hfree u (by simp [hu])) (fun u hu => hvs u (by simp [hu]))
          (Nat.succ.inj hlen) (List.append_cancel_left h)
      rw [hrest]

/-- **A stream of nonempty words splits in one way.** -/
theorem PrefixFree.stream {L : List α → Prop} (hfree : PrefixFree L) (hne : ∀ w, L w → w ≠ [])
    {ws : List (List α)} :
    ∀ {vs : List (List α)}, (∀ w ∈ ws, L w) → (∀ v ∈ vs, L v) → ws.flatten = vs.flatten →
      ws = vs := by
  induction ws with
  | nil =>
    intro vs _ hvs h
    cases vs with
    | nil => rfl
    | cons v vs => exact absurd (List.append_eq_nil_iff.mp h.symm).1 (hne v (hvs v (by simp)))
  | cons w ws ih =>
    intro vs hws hvs h
    cases vs with
    | nil => exact absurd (List.append_eq_nil_iff.mp h).1 (hne w (hws w (by simp)))
    | cons v vs =>
      rw [List.flatten_cons, List.flatten_cons] at h
      obtain rfl := hfree (hws w (by simp)) (hvs v (by simp)) h
      have hrest : ws = vs :=
        ih (fun u hu => hws u (by simp [hu])) (fun u hu => hvs u (by simp [hu]))
          (List.append_cancel_left h)
      rw [hrest]
