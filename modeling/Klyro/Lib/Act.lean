import Mathlib.Order.Basic

/-!
# Stateful computations that read an environment and may panic

`Act ε κ σ α` is a computation over a local state `σ` that reads a fixed environment `ε` (the
answers the outside world is going to give) and moves a cursor `κ` through those answers.  It
either finishes or panics.

* `Act.Sat` — the weakest precondition of a computation, with one postcondition for a normal
  end and one for a panic; `sat_pure`, `sat_bind`, `sat_mono` are its rules.
* `Act.Preserves` — a computation that leaves a part of the state alone.
* `Act.Within` — a computation whose ends are related by a preorder on the states.
* `Act.Returns` — a computation whose results, however it runs, have a property.
* `Act.zoom` — running a computation on a part of a larger state.
* `Act.SatE` — the same for a computation with an early answer (`Result<_, _>` and `?`), with a
  third postcondition for that answer; `satE_bind` is the rule for `?`.
-/

set_option autoImplicit false

universe u

/-- The ways a computation can panic. -/
inductive Panic where
  /-- `expect` or `unwrap` on nothing, with its message. -/
  | expect (message : String)
  /-- An index or a slice out of range. -/
  | bounds
  /-- `Vec::swap_remove` out of range. -/
  | swapRemove
  /-- An arithmetic operation of the standard library that left its range. -/
  | overflow
  /-- An allocation above the largest one possible. -/
  | capacity
  /-- A division by zero. -/
  | divZero
deriving DecidableEq, Repr

/-- How a computation ends. -/
inductive Outcome (κ σ α : Type) where
  | done (value : α) (state : σ) (cursor : κ)
  | panicked (panic : Panic)
deriving DecidableEq, Repr

/-- A computation over the state `σ` in the environment `ε`. -/
def Act (ε κ σ α : Type) : Type := ε → σ → κ → Outcome κ σ α

namespace Act

variable {ε κ σ τ α β : Type}

/-- Finish at once. -/
protected def pure (a : α) : Act ε κ σ α := fun _ s c => .done a s c

/-- Run `m`, then `f` on its value. -/
protected def bind (m : Act ε κ σ α) (f : α → Act ε κ σ β) : Act ε κ σ β := fun e s c =>
  match m e s c with
  | .done a s' c' => f a e s' c'
  | .panicked p => .panicked p

instance : Monad (Act ε κ σ) where
  pure := Act.pure
  bind := Act.bind

theorem pure_apply (a : α) (e : ε) (s : σ) (c : κ) :
    (pure a : Act ε κ σ α) e s c = .done a s c := rfl

theorem bind_apply (m : Act ε κ σ α) (f : α → Act ε κ σ β) (e : ε) (s : σ) (c : κ) :
    (m >>= f) e s c = match m e s c with
      | .done a s' c' => f a e s' c'
      | .panicked p => .panicked p := rfl

theorem id_map_act (m : Act ε κ σ α) : id <$> m = m := by
  funext e s c
  show (match m e s c with
    | .done a s' c' => Outcome.done a s' c'
    | .panicked p => .panicked p) = m e s c
  cases m e s c <;> rfl

theorem bind_assoc_act {γ : Type} (m : Act ε κ σ α) (f : α → Act ε κ σ β) (g : β → Act ε κ σ γ) :
    m >>= f >>= g = m >>= fun a => f a >>= g := by
  funext e s c
  simp only [bind_apply]
  cases m e s c <;> rfl

instance : LawfulMonad (Act ε κ σ) :=
  LawfulMonad.mk' _ id_map_act (fun _ _ => rfl) bind_assoc_act

/-- The state. -/
def get : Act ε κ σ σ := fun _ s c => .done s s c

/-- Change the state. -/
def modify (f : σ → σ) : Act ε κ σ Unit := fun _ s c => .done () (f s) c

/-- Change the state and answer. -/
def state (f : σ → α × σ) : Act ε κ σ α := fun _ s c => .done (f s).1 (f s).2 c

/-- Replace the state. -/
def set (s : σ) : Act ε κ σ Unit := modify fun _ => s

/-- Stop with a panic. -/
def panic (p : Panic) : Act ε κ σ α := fun _ _ _ => .panicked p

/-- `Option::expect`. -/
def expect (message : String) : Option α → Act ε κ σ α
  | some a => pure a
  | none => panic (.expect message)

/-- Run `m` on the part `get s` of the state and put the result back. -/
def zoom (get : σ → τ) (put : τ → σ → σ) (m : Act ε κ τ α) : Act ε κ σ α := fun e s c =>
  match m e (get s) c with
  | .done a t c' => .done a (put t s) c'
  | .panicked p => .panicked p

/-- Run `f` on every element, in order. -/
def forList (f : α → Act ε κ σ Unit) : List α → Act ε κ σ Unit
  | [] => pure ()
  | a :: as => do f a; forList f as

/-- Run `f` on every element, in order, and collect the values. -/
def mapList (f : α → Act ε κ σ β) : List α → Act ε κ σ (List β)
  | [] => pure []
  | a :: as => do
    let b ← f a
    let bs ← mapList f as
    pure (b :: bs)

/-- How many elements `f` answers `true` on, run in order. -/
def countList (f : α → Act ε κ σ Bool) : List α → Act ε κ σ Nat
  | [] => pure 0
  | a :: as => do
    let hit ← f a
    let n ← countList f as
    pure (if hit then n + 1 else n)

/-! ## Weakest preconditions -/

/-- Every normal end of `m` from `s`, `c` satisfies `Q`, every panic satisfies `R`. -/
def Sat (m : Act ε κ σ α) (e : ε) (s : σ) (c : κ) (Q : α → σ → κ → Prop)
    (R : Panic → Prop) : Prop :=
  match m e s c with
  | .done a s' c' => Q a s' c'
  | .panicked p => R p

variable {e : ε} {s : σ} {c : κ} {Q Q' : α → σ → κ → Prop} {R R' : Panic → Prop}

@[simp] theorem sat_pure {a : α} : Sat (pure a : Act ε κ σ α) e s c Q R ↔ Q a s c := Iff.rfl

@[simp] theorem sat_bind {m : Act ε κ σ α} {f : α → Act ε κ σ β} {P : β → σ → κ → Prop} :
    Sat (m >>= f) e s c P R ↔ Sat m e s c (fun a s' c' => Sat (f a) e s' c' P R) R := by
  unfold Sat
  rw [bind_apply]
  cases m e s c <;> rfl

@[simp] theorem sat_map {m : Act ε κ σ α} {f : α → β} {P : β → σ → κ → Prop} :
    Sat (f <$> m) e s c P R ↔ Sat m e s c (fun a s' c' => P (f a) s' c') R := by
  rw [map_eq_pure_bind, sat_bind]
  rfl

@[simp] theorem sat_get {P : σ → σ → κ → Prop} : Sat get e s c P R ↔ P s s c := Iff.rfl

@[simp] theorem sat_modify {f : σ → σ} {P : Unit → σ → κ → Prop} :
    Sat (modify f) e s c P R ↔ P () (f s) c := Iff.rfl

@[simp] theorem sat_state {f : σ → α × σ} :
    Sat (state f) e s c Q R ↔ Q (f s).1 (f s).2 c := Iff.rfl

@[simp] theorem sat_set {s' : σ} {P : Unit → σ → κ → Prop} :
    Sat (set s') e s c P R ↔ P () s' c := Iff.rfl

@[simp] theorem sat_panic {p : Panic} : Sat (panic p : Act ε κ σ α) e s c Q R ↔ R p := Iff.rfl

@[simp] theorem sat_expect_some {message : String} {a : α} :
    Sat (expect message (some a)) e s c Q R ↔ Q a s c := Iff.rfl

@[simp] theorem sat_expect_none {message : String} :
    Sat (expect message (none : Option α)) e s c Q R ↔ R (.expect message) := Iff.rfl

@[simp] theorem sat_ite {p : Prop} [Decidable p] {m n : Act ε κ σ α} :
    Sat (if p then m else n) e s c Q R ↔
      (p → Sat m e s c Q R) ∧ (¬ p → Sat n e s c Q R) := by
  by_cases h : p <;> simp [h]

@[simp] theorem sat_zoom {get : σ → τ} {put : τ → σ → σ} {m : Act ε κ τ α} :
    Sat (zoom get put m) e s c Q R ↔
      Sat m e (get s) c (fun a t c' => Q a (put t s) c') R := by
  unfold Sat zoom
  cases m e (get s) c <;> rfl

theorem sat_mono {m : Act ε κ σ α} (h : Sat m e s c Q R)
    (hQ : ∀ a s' c', Q a s' c' → Q' a s' c') (hR : ∀ p, R p → R' p) : Sat m e s c Q' R' := by
  unfold Sat at h ⊢
  split at h
  · exact hQ _ _ _ h
  · exact hR _ h

theorem sat_and {m : Act ε κ σ α} (h : Sat m e s c Q R) (h' : Sat m e s c Q' R') :
    Sat m e s c (fun a s' c' => Q a s' c' ∧ Q' a s' c') (fun p => R p ∧ R' p) := by
  unfold Sat at h h' ⊢
  split at h <;> simp_all

/-- Postconditions that agree on what `m` can end in may be exchanged. -/
theorem sat_congr {m : Act ε κ σ α} {P : α → σ → κ → Prop} (h : Sat m e s c P R)
    (hQ : ∀ a s' c', P a s' c' → (Q a s' c' ↔ Q' a s' c')) :
    Sat m e s c Q R' ↔ Sat m e s c Q' R' := by
  unfold Sat at h ⊢
  split at h
  · exact hQ _ _ _ h
  · exact Iff.rfl

/-- Two ways to go on may be exchanged where they agree on what comes before can end in. -/
theorem bind_congr_of_sat {m : Act ε κ σ α} {f g : α → Act ε κ σ β} {P : α → σ → κ → Prop}
    {R : Panic → Prop} (h : Sat m e s c P R)
    (hfg : ∀ a s' c', P a s' c' → f a e s' c' = g a e s' c') : (m >>= f) e s c = (m >>= g) e s c := by
  unfold Sat at h
  rw [bind_apply, bind_apply]
  cases hm : m e s c with
  | done a s' c' =>
    rw [hm] at h
    exact hfg a s' c' h
  | panicked p => rfl

theorem sat_true (m : Act ε κ σ α) : Sat m e s c (fun _ _ _ => True) (fun _ => True) := by
  unfold Sat
  split <;> trivial

/-- Every computation ends in one of the two ways. -/
theorem not_sat_false (m : Act ε κ σ α) : ¬ Sat m e s c (fun _ _ _ => False) (fun _ => False) := by
  unfold Sat
  split <;> exact id

theorem sat_of_done {m : Act ε κ σ α} {a : α} {s' : σ} {c' : κ} (h : m e s c = .done a s' c') :
    Sat m e s c Q R ↔ Q a s' c' := by
  unfold Sat
  rw [h]

theorem sat_of_panicked {m : Act ε κ σ α} {p : Panic} (h : m e s c = .panicked p) :
    Sat m e s c Q R ↔ R p := by
  unfold Sat
  rw [h]

/-- A computation that cannot panic ends. -/
theorem exists_of_sat {m : Act ε κ σ α} (h : Sat m e s c Q (fun _ => False)) :
    ∃ a s' c', m e s c = .done a s' c' ∧ Q a s' c' := by
  unfold Sat at h
  split at h
  · exact ⟨_, _, _, ‹_›, h⟩
  · exact h.elim

instance [∀ a s' c', Decidable (Q a s' c')] [∀ p, Decidable (R p)] {m : Act ε κ σ α} :
    Decidable (Sat m e s c Q R) :=
  match h : m e s c with
  | .done a s' c' => decidable_of_iff (Q a s' c') (sat_of_done h).symm
  | .panicked p => decidable_of_iff (R p) (sat_of_panicked h).symm

/-- A list of computations keeps what each of them keeps. -/
theorem sat_forList {f : α → Act ε κ σ Unit} {I : σ → κ → Prop}
    (step : ∀ a s c, I s c → Sat (f a) e s c (fun _ s' c' => I s' c') R) :
    ∀ (as : List α) (s : σ) (c : κ), I s c →
      Sat (forList f as) e s c (fun _ s' c' => I s' c') R
  | [], _, _, h => h
  | a :: as, s, c, h => by
    unfold forList
    rw [sat_bind]
    exact sat_mono (step a s c h) (fun _ s' c' h' => sat_forList step as s' c' h') fun _ h => h

/-! ## Parts of the state -/

section preserves

variable {υ : Type} {f : σ → υ}

/-- A computation that leaves what `f` reads of the state alone. -/
def Preserves (f : σ → υ) (m : Act ε κ σ α) : Prop :=
  ∀ e s c, Sat m e s c (fun _ s' _ => f s' = f s) (fun _ => True)

theorem preserves_pure (a : α) : Preserves f (pure a : Act ε κ σ α) := fun _ _ _ => rfl

theorem preserves_get : Preserves f (get : Act ε κ σ σ) := fun _ _ _ => rfl

theorem preserves_modify {g : σ → σ} (h : ∀ s, f (g s) = f s) :
    Preserves f (modify g : Act ε κ σ Unit) := fun _ s _ => h s

theorem preserves_state {g : σ → α × σ} (h : ∀ s, f (g s).2 = f s) :
    Preserves f (state g : Act ε κ σ α) := fun _ s _ => h s

theorem preserves_panic (p : Panic) : Preserves f (panic p : Act ε κ σ α) := fun _ _ _ => trivial

theorem preserves_bind {m : Act ε κ σ α} {g : α → Act ε κ σ β} (hm : Preserves f m)
    (hg : ∀ a, Preserves f (g a)) : Preserves f (m >>= g) := by
  intro e s c
  rw [sat_bind]
  refine sat_mono (hm e s c) ?_ (fun _ h => h)
  intro a s' c' hs
  exact sat_mono (hg a e s' c') (fun _ _ _ hs' => hs'.trans hs) (fun _ h => h)

theorem preserves_map {m : Act ε κ σ α} {g : α → β} (hm : Preserves f m) : Preserves f (g <$> m) := by
  intro e s c
  rw [sat_map]
  exact hm e s c

theorem preserves_ite {p : Prop} [Decidable p] {m n : Act ε κ σ α} (hm : Preserves f m)
    (hn : Preserves f n) : Preserves f (if p then m else n) := by
  split
  · exact hm
  · exact hn

/-- The part run on is none that `f` reads. -/
theorem preserves_zoom {get : σ → τ} {put : τ → σ → σ} {m : Act ε κ τ α}
    (h : ∀ t s, f (put t s) = f s) : Preserves f (zoom get put m) := by
  intro e s c
  rw [sat_zoom]
  exact sat_mono (sat_true m) (fun _ t _ _ => h t s) (fun _ h => h)

/-- What `f` reads is read of the part run on. -/
theorem preserves_zoom_of {get : σ → τ} {put : τ → σ → σ} {m : Act ε κ τ α} {g : τ → υ}
    (hm : Preserves g m) (h : ∀ t s, g t = g (get s) → f (put t s) = f s) :
    Preserves f (zoom get put m) := by
  intro e s c
  rw [sat_zoom]
  exact sat_mono (hm e (get s) c) (fun _ t _ ht => h t s ht) (fun _ h => h)

theorem preserves_forList {g : α → Act ε κ σ Unit} (hg : ∀ a, Preserves f (g a)) (as : List α) :
    Preserves f (forList g as) := by
  induction as with
  | nil => exact preserves_pure ()
  | cons a as ih => exact preserves_bind (hg a) fun _ => ih

theorem preserves_mapList {g : α → Act ε κ σ β} (hg : ∀ a, Preserves f (g a)) (as : List α) :
    Preserves f (mapList g as) := by
  induction as with
  | nil => exact preserves_pure []
  | cons a as ih => exact preserves_bind (hg a) fun _ => preserves_bind ih fun _ => preserves_pure _

end preserves

/-! ## Early answers -/

section early

variable {ρ : Type} {x : ExceptT ρ (Act ε κ σ) α} {E E' : ρ → σ → κ → Prop}

/-- The postcondition of a computation that may stop early with an answer in `ρ`. -/
def either (Q : α → σ → κ → Prop) (E : ρ → σ → κ → Prop) : Except ρ α → σ → κ → Prop
  | .ok a => Q a
  | .error b => E b

/-- `Sat` for a computation that may stop early: those ends satisfy `E`. -/
def SatE (x : ExceptT ρ (Act ε κ σ) α) (e : ε) (s : σ) (c : κ) (Q : α → σ → κ → Prop)
    (E : ρ → σ → κ → Prop) (R : Panic → Prop) : Prop :=
  Sat x.run e s c (either Q E) R

@[simp] theorem satE_pure {a : α} :
    SatE (pure a : ExceptT ρ (Act ε κ σ) α) e s c Q E R ↔ Q a s c := Iff.rfl

@[simp] theorem satE_bind {f : α → ExceptT ρ (Act ε κ σ) β} {P : β → σ → κ → Prop} :
    SatE (x >>= f) e s c P E R ↔ SatE x e s c (fun a s' c' => SatE (f a) e s' c' P E R) E R := by
  unfold SatE
  rw [ExceptT.run_bind, sat_bind]
  refine iff_of_eq (congrFun (congrArg _ ?_) R)
  funext r s' c'
  cases r <;> rfl

@[simp] theorem satE_throw {b : ρ} :
    SatE (throw b : ExceptT ρ (Act ε κ σ) α) e s c Q E R ↔ E b s c := Iff.rfl

@[simp] theorem satE_lift {m : Act ε κ σ α} :
    SatE (liftM m : ExceptT ρ (Act ε κ σ) α) e s c Q E R ↔ Sat m e s c Q R := by
  unfold SatE
  rw [ExceptT.run_liftM, sat_map]
  rfl

@[simp] theorem satE_ite {p : Prop} [Decidable p] {y : ExceptT ρ (Act ε κ σ) α} :
    SatE (if p then x else y) e s c Q E R ↔
      (p → SatE x e s c Q E R) ∧ (¬ p → SatE y e s c Q E R) := by
  by_cases h : p <;> simp [h]

instance [∀ a s' c', Decidable (Q a s' c')] [∀ b s' c', Decidable (E b s' c')] :
    ∀ r s' c', Decidable (either Q E r s' c')
  | .ok a, s', c' => inferInstanceAs (Decidable (Q a s' c'))
  | .error b, s', c' => inferInstanceAs (Decidable (E b s' c'))

instance [∀ a s' c', Decidable (Q a s' c')] [∀ b s' c', Decidable (E b s' c')]
    [∀ p, Decidable (R p)] : Decidable (SatE x e s c Q E R) :=
  inferInstanceAs (Decidable (Sat _ _ _ _ (either Q E) _))

theorem satE_mono (h : SatE x e s c Q E R) (hQ : ∀ a s' c', Q a s' c' → Q' a s' c')
    (hE : ∀ b s' c', E b s' c' → E' b s' c') (hR : ∀ p, R p → R' p) : SatE x e s c Q' E' R' := by
  refine sat_mono h ?_ hR
  rintro (b | a) s' c' hr
  · exact hE b s' c' hr
  · exact hQ a s' c' hr

/-- Whatever `x` does, the rest does what is wanted. -/
theorem satE_bind_any {f : α → ExceptT ρ (Act ε κ σ) β} {P : β → σ → κ → Prop}
    (hf : ∀ a s' c', SatE (f a) e s' c' P E R) (hE : ∀ b s' c', E b s' c') (hR : ∀ p, R p) :
    SatE (x >>= f) e s c P E R := by
  rw [satE_bind]
  refine sat_mono (sat_true x.run) ?_ (fun p _ => hR p)
  rintro (b | a) s' c' -
  · exact hE b s' c'
  · exact hf a s' c'

end early

/-! ## Relations between the ends of a computation -/

section within

variable {P : σ → σ → Prop} {ρ : Type}

/-- A computation that moves the state along `P`. -/
def Within (P : σ → σ → Prop) (m : Act ε κ σ α) : Prop :=
  ∀ e s c, Sat m e s c (fun _ s' _ => P s s') (fun _ => True)

theorem Within.mono {P' : σ → σ → Prop} {m : Act ε κ σ α} (h : Within P m)
    (hP : ∀ s s', P s s' → P' s s') : Within P' m :=
  fun e s c => sat_mono (h e s c) (fun _ s' _ => hP s s') (fun _ h => h)

theorem within_panic (p : Panic) : Within P (panic p : Act ε κ σ α) := fun _ _ _ => trivial

theorem within_modify {f : σ → σ} (h : ∀ s, P s (f s)) : Within P (modify f : Act ε κ σ Unit) :=
  fun _ s _ => h s

theorem within_map {m : Act ε κ σ α} {f : α → β} (hm : Within P m) : Within P (f <$> m) := by
  intro e s c
  rw [sat_map]
  exact hm e s c

/-- Running on a part of the state. -/
theorem within_zoom {τ : Type} {R : τ → τ → Prop} {get : σ → τ} {put : τ → σ → σ} {m : Act ε κ τ α}
    (hm : Within R m) (h : ∀ s t, R (get s) t → P s (put t s)) : Within P (zoom get put m) := by
  intro e s c
  rw [sat_zoom]
  exact sat_mono (hm e (get s) c) (fun _ t _ ht => h s t ht) (fun _ h => h)

theorem within_ite {p : Prop} [Decidable p] {m n : Act ε κ σ α} (hm : Within P m)
    (hn : Within P n) : Within P (if p then m else n) := by
  split
  · exact hm
  · exact hn

/-- The same for a computation that may stop early. -/
def WithinE (P : σ → σ → Prop) (x : ExceptT ρ (Act ε κ σ) α) : Prop := Within P x.run

theorem withinE_iff {x : ExceptT ρ (Act ε κ σ) α} : WithinE P x ↔ ∀ e s c,
    SatE x e s c (fun _ s' _ => P s s') (fun _ s' _ => P s s') (fun _ => True) := by
  constructor
  · exact fun h e s c => sat_mono (h e s c) (fun r _ _ hP => by cases r <;> exact hP) (fun _ h => h)
  · exact fun h e s c => sat_mono (h e s c) (fun r _ _ hP => by cases r <;> exact hP) (fun _ h => h)

theorem withinE_lift {m : Act ε κ σ α} (h : Within P m) :
    WithinE P (liftM m : ExceptT ρ (Act ε κ σ) α) := by
  unfold WithinE
  rw [ExceptT.run_liftM]
  exact within_map h

theorem withinE_ite {p : Prop} [Decidable p] {x y : ExceptT ρ (Act ε κ σ) α} (hx : WithinE P x)
    (hy : WithinE P y) : WithinE P (if p then x else y) := by
  split
  · exact hx
  · exact hy

variable [IsPreorder σ P]

/-- A computation that leaves the state as it is. -/
theorem within_of_same {m : Act ε κ σ α}
    (h : ∀ e s c, Sat m e s c (fun _ s' _ => s' = s) (fun _ => True)) : Within P m := by
  intro e s c
  refine sat_mono (h e s c) ?_ (fun _ h => h)
  rintro _ s' _ rfl
  exact refl_of P s'

theorem within_pure (a : α) : Within P (pure a : Act ε κ σ α) := fun _ s _ => refl_of P s

theorem within_get : Within P (get : Act ε κ σ σ) := fun _ s _ => refl_of P s

theorem within_expect (message : String) (o : Option α) : Within P (expect message o : Act ε κ σ α) := by
  cases o with
  | none => exact within_panic _
  | some a => exact within_pure a

theorem within_bind {m : Act ε κ σ α} {f : α → Act ε κ σ β} (hm : Within P m)
    (hf : ∀ a, Within P (f a)) : Within P (m >>= f) := by
  intro e s c
  rw [sat_bind]
  refine sat_mono (hm e s c) ?_ (fun _ h => h)
  intro a s' c' hs
  exact sat_mono (hf a e s' c') (fun _ _ _ hs' => trans_of P hs hs') (fun _ h => h)

theorem within_forList {f : α → Act ε κ σ Unit} (hf : ∀ a, Within P (f a)) (as : List α) :
    Within P (forList f as) := by
  induction as with
  | nil => exact within_pure ()
  | cons a as ih => exact within_bind (hf a) fun _ => ih

theorem within_mapList {f : α → Act ε κ σ β} (hf : ∀ a, Within P (f a)) (as : List α) :
    Within P (mapList f as) := by
  induction as with
  | nil => exact within_pure []
  | cons a as ih => exact within_bind (hf a) fun _ => within_bind ih fun _ => within_pure _

theorem within_countList {f : α → Act ε κ σ Bool} (hf : ∀ a, Within P (f a)) (as : List α) :
    Within P (countList f as) := by
  induction as with
  | nil => exact within_pure 0
  | cons a as ih => exact within_bind (hf a) fun _ => within_bind ih fun _ => within_pure _

theorem withinE_pure (a : α) : WithinE P (pure a : ExceptT ρ (Act ε κ σ) α) := within_pure _

theorem withinE_throw (b : ρ) : WithinE P (throw b : ExceptT ρ (Act ε κ σ) α) := within_pure _

theorem withinE_bind {x : ExceptT ρ (Act ε κ σ) α} {f : α → ExceptT ρ (Act ε κ σ) β}
    (hx : WithinE P x) (hf : ∀ a, WithinE P (f a)) : WithinE P (x >>= f) := by
  unfold WithinE
  rw [ExceptT.run_bind]
  refine within_bind hx ?_
  intro r
  cases r with
  | ok a => exact hf a
  | error b => exact within_pure _

end within

/-! ## Properties of the results -/

section returns

variable {ρ : Type} {P : α → Prop} {Q : β → Prop}

/-- A computation that ends with a result in `P`, whatever the state. -/
def Returns (P : α → Prop) (m : Act ε κ σ α) : Prop :=
  ∀ e s c, Sat m e s c (fun a _ _ => P a) (fun _ => True)

theorem returns_pure {a : α} (h : P a) : Returns P (pure a : Act ε κ σ α) := fun _ _ _ => h

theorem returns_bind {m : Act ε κ σ β} {f : β → Act ε κ σ α} (hf : ∀ b, Returns P (f b)) :
    Returns P (m >>= f) := by
  intro e s c
  rw [sat_bind]
  exact sat_mono (sat_true m) (fun b s' c' _ => hf b e s' c') (fun _ h => h)

theorem returns_map {m : Act ε κ σ β} {f : β → α} (hf : ∀ b, P (f b)) : Returns P (f <$> m) := by
  intro e s c
  rw [sat_map]
  exact sat_mono (sat_true m) (fun b _ _ _ => hf b) (fun _ h => h)

theorem returns_ite {p : Prop} [Decidable p] {m n : Act ε κ σ α} (hm : Returns P m)
    (hn : Returns P n) : Returns P (if p then m else n) := by
  split
  · exact hm
  · exact hn

theorem returns_zoom {τ : Type} {get : σ → τ} {put : τ → σ → σ} {m : Act ε κ τ α}
    (hm : Returns P m) : Returns P (zoom get put m) := by
  intro e s c
  rw [sat_zoom]
  exact hm e (get s) c

/-- The results a computation may end with unless it stops early. -/
def ReturnsE (P : α → Prop) (x : ExceptT ρ (Act ε κ σ) α) : Prop :=
  Returns (fun r => ∀ a, r = .ok a → P a) x.run

theorem returnsE_pure {a : α} (h : P a) : ReturnsE P (pure a : ExceptT ρ (Act ε κ σ) α) := by
  refine returns_pure fun b hb => ?_
  cases hb
  exact h

theorem returnsE_throw (b : ρ) : ReturnsE P (throw b : ExceptT ρ (Act ε κ σ) α) :=
  returns_pure fun _ h => by cases h

theorem returnsE_bind {x : ExceptT ρ (Act ε κ σ) β} {f : β → ExceptT ρ (Act ε κ σ) α}
    (hf : ∀ b, ReturnsE P (f b)) : ReturnsE P (x >>= f) := by
  unfold ReturnsE
  rw [ExceptT.run_bind]
  refine returns_bind fun r => ?_
  cases r with
  | ok b => exact hf b
  | error b => exact returns_pure fun _ h => by cases h

/-- What follows a computation knows of its results what every one of them has. -/
theorem returns_bind_of {m : Act ε κ σ β} {f : β → Act ε κ σ α} (hm : Returns Q m)
    (hf : ∀ b, Q b → Returns P (f b)) : Returns P (m >>= f) := by
  intro e s c
  rw [sat_bind]
  exact sat_mono (hm e s c) (fun b s' c' hb => hf b hb e s' c') (fun _ h => h)

theorem returns_mapList {f : β → Act ε κ σ α} (hf : ∀ b, Returns P (f b)) (bs : List β) :
    Returns (fun as => ∀ a ∈ as, P a) (mapList f bs) := by
  induction bs with
  | nil => exact returns_pure fun _ h => by cases h
  | cons b bs ih =>
    refine returns_bind_of (hf b) fun a ha => returns_bind_of ih fun as has => returns_pure ?_
    intro a' ha'
    rcases List.mem_cons.mp ha' with rfl | ha'
    · exact ha
    · exact has a' ha'

theorem returnsE_ite {p : Prop} [Decidable p] {x y : ExceptT ρ (Act ε κ σ) α} (hx : ReturnsE P x)
    (hy : ReturnsE P y) : ReturnsE P (if p then x else y) := by
  split
  · exact hx
  · exact hy

theorem returnsE_lift {m : Act ε κ σ α} (h : Returns P m) :
    ReturnsE P (liftM m : ExceptT ρ (Act ε κ σ) α) := by
  intro e s c
  refine sat_map.mpr (sat_mono (h e s c) ?_ (fun _ h => h))
  intro a _ _ ha b hb
  cases hb
  exact ha

theorem returnsE_bind_of {x : ExceptT ρ (Act ε κ σ) β} {f : β → ExceptT ρ (Act ε κ σ) α}
    (hx : ReturnsE Q x) (hf : ∀ b, Q b → ReturnsE P (f b)) : ReturnsE P (x >>= f) := by
  unfold ReturnsE
  rw [ExceptT.run_bind]
  refine returns_bind_of hx fun r hr => ?_
  cases r with
  | ok b => exact hf b (hr b rfl)
  | error b => exact returns_pure fun _ h => by cases h

/-- A refusal in front of the rest. -/
theorem returnsE_guard {p : Prop} [Decidable p] {r : ρ} {rest : Unit → ExceptT ρ (Act ε κ σ) α}
    (h : ReturnsE P (rest ())) : ReturnsE P (if p then throw r >>= rest else rest ()) :=
  returnsE_ite (returnsE_bind_of (returnsE_throw (P := fun _ : Unit => False) r)
    fun _ h => h.elim) h

end returns

end Act

/-- `?` on a success. -/
theorem ok_bind {ρ α β : Type} (a : α) (f : α → Except ρ β) : (Except.ok a >>= f) = f a := rfl
