import Klyro.Lib.Act

/-!
# One program follows another

A program over one kind of state and its specification over another: from states that an abstraction
relates, the specification gives what the program gives and reads the world as often.

* `Act.Follows` — that, for one run, with an invariant of the program's state.
* `follows_bind`, `follows_map` — programs that are put together.
-/

set_option autoImplicit false

namespace Act

variable {ε κ σ τ α β : Type} {I : σ → Prop} {f : σ → τ} {e : ε} {s : σ} {c : κ} {R : Panic → Prop}

/-- Where `m` gives something, `n` gives the same from the abstraction of its state, and leaves the
abstraction of what `m` leaves. -/
def Follows (I : σ → Prop) (f : σ → τ) (R : Panic → Prop) (m : Act ε κ σ α) (n : Act ε κ τ α) (e : ε)
    (s : σ) (c : κ) : Prop :=
  Sat m e s c (fun a s' c' => I s' ∧
    Sat n e (f s) c (fun a' t c'' => a' = a ∧ t = f s' ∧ c'' = c') (fun _ => False)) R

theorem follows_pure (h : I s) (a : α) : Follows I f R (pure a : Act ε κ σ α) (pure a) e s c :=
  ⟨h, rfl, rfl, rfl⟩

/-- **One after the other.** -/
theorem follows_bind {m : Act ε κ σ α} {n : Act ε κ τ α} {g : α → Act ε κ σ β} {k : α → Act ε κ τ β}
    (h : Follows I f R m n e s c) (hrest : ∀ a s' c', I s' → Follows I f R (g a) (k a) e s' c') :
    Follows I f R (m >>= g) (n >>= k) e s c := by
  unfold Follows at h ⊢
  rw [sat_bind]
  refine sat_mono h ?_ (fun _ h => h)
  rintro a s' c' ⟨hinv, hn⟩
  refine sat_mono (hrest a s' c' hinv) ?_ (fun _ h => h)
  rintro b s'' c'' ⟨hinv', hk⟩
  refine ⟨hinv', ?_⟩
  rw [sat_bind]
  refine sat_mono hn ?_ (fun _ h => h)
  rintro _ _ _ ⟨rfl, rfl, rfl⟩
  exact hk

theorem follows_map {m : Act ε κ σ α} {n : Act ε κ τ α} (g : α → β) (h : Follows I f R m n e s c) :
    Follows I f R (g <$> m) (g <$> n) e s c := by
  unfold Follows at h ⊢
  rw [sat_map]
  refine sat_mono h ?_ (fun _ h => h)
  rintro a s' c' ⟨hinv, hn⟩
  refine ⟨hinv, ?_⟩
  rw [sat_map]
  refine sat_mono hn ?_ (fun _ h => h)
  rintro _ _ _ ⟨rfl, rfl, rfl⟩
  exact ⟨rfl, rfl, rfl⟩

end Act
