import Mathlib.Data.List.Perm.Basic
import Mathlib.Logic.Function.Basic

/-!
# Options given in groups

A request is spelled as groups: a keyword and its values.  A group fills a slot, raises a flag or
adds to what may be given many times, and what is filled later wins.

* `Said` — what some groups say; `++` joins, `total` joins all.
* `Same` — the same up to the order of what is given many times.
* `Apart` — no slot is filled twice.
* `total_same` — groups that are apart say the same in every order.
* `reads_groups` — a loop that reads group by group says what its groups say together.
-/

set_option autoImplicit false

namespace Klyro

section said

variable {ι φ μ : Type} {V : ι → Type}

/-- What some groups say. -/
structure Said (V : ι → Type) (φ μ : Type) where
  value : ∀ k, Option (V k) := fun _ => none
  flag : φ → Bool := fun _ => false
  listed : List μ := []

namespace Said

/-- One slot is filled. -/
def one [DecidableEq ι] (k : ι) (v : V k) : Said V φ μ where
  value := Function.update (fun _ => none) k (some v)

/-- Another slot is not. -/
theorem one_value_of_ne [DecidableEq ι] {k k' : ι} (h : k' ≠ k) (v : V k) :
    (one k v : Said V φ μ).value k' = none := by
  unfold one
  exact Function.update_of_ne h (some v) fun _ => none

/-- One flag is raised. -/
def raise [DecidableEq φ] (f : φ) : Said V φ μ where
  flag g := decide (g = f)

/-- The later one wins. -/
instance : Append (Said V φ μ) where
  append a b :=
    { value := fun k => (b.value k).or (a.value k)
      flag := fun f => b.flag f || a.flag f
      listed := a.listed ++ b.listed }

variable {a b c d : Said V φ μ}

theorem append_value (k : ι) : (a ++ b).value k = (b.value k).or (a.value k) := rfl

theorem append_flag (f : φ) : (a ++ b).flag f = (b.flag f || a.flag f) := rfl

theorem append_listed : (a ++ b).listed = a.listed ++ b.listed := rfl

/-- All of it. -/
def total : List (Said V φ μ) → Said V φ μ
  | [] => {}
  | a :: as => a ++ total as

theorem total_listed (as : List (Said V φ μ)) : (total as).listed = as.flatMap listed := by
  induction as with
  | nil => rfl
  | cons a as ih =>
    show a.listed ++ (total as).listed = _
    rw [ih, List.flatMap_cons]

/-- The same, up to the order of what is given many times. -/
structure Same (a b : Said V φ μ) : Prop where
  value : ∀ k, a.value k = b.value k
  flag : ∀ f, a.flag f = b.flag f
  listed : a.listed.Perm b.listed

/-- No slot is filled by both. -/
def Apart (a b : Said V φ μ) : Prop := ∀ k, a.value k = none ∨ b.value k = none

theorem Apart.symm (h : Apart a b) : Apart b a := fun k => (h k).symm

theorem Same.refl (a : Said V φ μ) : Same a a := ⟨fun _ => rfl, fun _ => rfl, .refl _⟩

theorem Same.trans (hab : Same a b) (hbc : Same b c) : Same a c :=
  ⟨fun k => (hab.value k).trans (hbc.value k), fun f => (hab.flag f).trans (hbc.flag f),
    hab.listed.trans hbc.listed⟩

theorem Same.append (hab : Same a b) (hcd : Same c d) : Same (a ++ c) (b ++ d) where
  value k := by rw [append_value, append_value, hab.value, hcd.value]
  flag f := by rw [append_flag, append_flag, hab.flag, hcd.flag]
  listed := hab.listed.append hcd.listed

/-- Two groups that are apart change places. -/
theorem same_swap (h : Apart a b) (c : Said V φ μ) : Same (a ++ (b ++ c)) (b ++ (a ++ c)) where
  value k := by
    simp only [append_value]
    rcases h k with hk | hk
    · rw [hk, Option.or_none, Option.or_none]
    · rw [hk, Option.or_none, Option.or_none]
  flag f := by
    simp only [append_flag]
    rw [Bool.or_assoc, Bool.or_assoc, Bool.or_comm (b.flag f)]
  listed := by
    simp only [append_listed, ← List.append_assoc]
    exact List.perm_append_comm.append_right _

/-- **Groups that are apart say the same in every order.** -/
theorem total_same {as bs : List (Said V φ μ)} (hperm : as.Perm bs) (hapart : as.Pairwise Apart) :
    Same (total as) (total bs) := by
  induction hperm with
  | nil => exact .refl _
  | cons a _ ih => exact (Same.refl a).append (ih (List.pairwise_cons.mp hapart).2)
  | swap a b cs =>
    have hab := (List.pairwise_cons.mp hapart).1 a (List.mem_cons_self ..)
    exact same_swap hab (total cs)
  | trans hfirst _ ihfirst ihsecond =>
    refine (ihfirst hapart).trans (ihsecond ?_)
    exact (hfirst.pairwise_iff fun h => h.symm).mp hapart

end Said

end said

/-! ## Reading -/

section reading

variable {ι φ μ γ ω σ : Type} {V : ι → Type} {m : Type → Type} [Monad m] [LawfulMonad m]

/-- **A loop that takes one group after the other**, each group saying the same wherever it stands,
ends with what all of them say. -/
theorem reads_groups (loop : Nat → List ω → σ → m σ) {words : γ → List ω}
    {means : γ → m (Said V φ μ)} {put : Said V φ μ → σ → σ} {P : γ → Prop} (hnil : ∀ fuel o, loop fuel [] o = pure o)
    (hstep : ∀ fuel g rest o, P g → loop (fuel + 1) (words g ++ rest) o =
      means g >>= fun s => loop fuel rest (put s o))
    (hempty : ∀ o, put {} o = o) (hput : ∀ a b o, put (a ++ b) o = put b (put a o)) :
    ∀ (gs : List γ) (fuel : Nat) (o : σ), (∀ g ∈ gs, P g) → gs.length ≤ fuel →
      loop fuel (gs.flatMap words) o =
        gs.mapM means >>= fun ss => pure (put (Said.total ss) o) := by
  intro gs
  induction gs with
  | nil =>
    intro fuel o _ _
    rw [List.flatMap_nil, hnil, List.mapM_nil, pure_bind]
    exact congrArg pure (hempty o).symm
  | cons g gs ih =>
    intro fuel o hP hfuel
    obtain ⟨fuel, rfl⟩ : ∃ n, fuel = n + 1 := ⟨fuel - 1, by simp at hfuel; omega⟩
    rw [List.flatMap_cons, hstep fuel g _ o (hP g (List.mem_cons_self ..)), List.mapM_cons,
      bind_assoc]
    refine bind_congr fun s => ?_
    rw [ih fuel _ (fun g hg => hP g (List.mem_cons_of_mem _ hg)) (Nat.le_of_succ_le_succ hfuel),
      bind_assoc]
    refine bind_congr fun ss => ?_
    rw [pure_bind]
    exact congrArg pure (hput s (Said.total ss) o).symm

end reading

end Klyro
