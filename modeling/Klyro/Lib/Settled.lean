import Klyro.Lib.Act

/-!
# Ends settled by what is seen of the state

Of a state only what `f` sees of it may matter: from two states that it sees alike a computation gives the
same, or panics in the same way, and leaves states that it sees alike.

* `Act.Settled` — that, among the states with an invariant.
* `settled_bind` and its companions — computations that are put together.
* `settled_zoom` — a computation on a part of the state.
* `Act.Steady` — the whole state is seen, and of the surroundings nothing but the environment.
-/

set_option autoImplicit false

namespace Act

variable {ε κ σ τ α β ι : Type} {I : σ → Prop} {f : σ → τ} {e : ε}

/-- How `m` ends from every state of which `f` sees `x`. -/
def EndsAs (I : σ → Prop) (f : σ → τ) (e : ε) (m : Act ε κ σ α) (x : τ) (r : Except Panic (α × τ)) : Prop :=
  ∀ s c, I s → f s = x → Sat m e s c (fun a s' _ => I s' ∧ r = .ok (a, f s')) (fun p => r = .error p)

/-- **What `f` sees of the state settles how `m` ends.** -/
def Settled (I : σ → Prop) (f : σ → τ) (e : ε) (m : Act ε κ σ α) : Prop := ∀ x, ∃ r, EndsAs I f e m x r

/-- The same of several computations, which all end alike. -/
def SettledAll (I : σ → Prop) (f : σ → τ) (e : ε) (m : ι → Act ε κ σ α) : Prop :=
  ∀ x, ∃ r, ∀ i, EndsAs I f e (m i) x r

/-- The state settles how `m` ends. -/
abbrev Steady (e : ε) (m : Act ε κ σ α) : Prop := Settled (fun _ => True) id e m

section rules

theorem settled_pure (a : α) : Settled I f e (pure a : Act ε κ σ α) := by
  refine fun x => ⟨.ok (a, x), ?_⟩
  rintro s c hs rfl
  exact ⟨hs, rfl⟩

theorem settled_panic (p : Panic) : Settled I f e (panic p : Act ε κ σ α) :=
  fun _ => ⟨.error p, fun _ _ _ _ => rfl⟩

theorem endsAs_bind_error {m : Act ε κ σ α} {g : α → Act ε κ σ β} {x : τ} {p : Panic}
    (hm : EndsAs I f e m x (.error p)) : EndsAs I f e (m >>= g) x (.error p) := by
  intro s c hs hx
  rw [sat_bind]
  refine sat_mono (hm s c hs hx) ?_ ?_
  · rintro a s' c' ⟨-, hend⟩
    cases hend
  · rintro q hend
    cases hend
    rfl

theorem endsAs_bind_ok {m : Act ε κ σ α} {g : α → Act ε κ σ β} {x y : τ} {a : α}
    {r : Except Panic (β × τ)} (hm : EndsAs I f e m x (.ok (a, y))) (hg : EndsAs I f e (g a) y r) :
    EndsAs I f e (m >>= g) x r := by
  intro s c hs hx
  rw [sat_bind]
  refine sat_mono (hm s c hs hx) ?_ (fun _ h => by cases h)
  rintro a s' c' ⟨hs', hend⟩
  cases hend
  exact hg s' c' hs' rfl

/-- **One after the other**, each of several alike. -/
theorem settledAll_bind {m : ι → Act ε κ σ α} {g : ι → α → Act ε κ σ β} (hm : SettledAll I f e m)
    (hg : ∀ a, SettledAll I f e fun i => g i a) : SettledAll I f e fun i => m i >>= g i := by
  intro x
  obtain ⟨r, hr⟩ := hm x
  cases r with
  | error p => exact ⟨.error p, fun i => endsAs_bind_error (hr i)⟩
  | ok p =>
    obtain ⟨r', hr'⟩ := hg p.1 p.2
    exact ⟨r', fun i => endsAs_bind_ok (hr i) (hr' i)⟩

theorem Settled.all {m : Act ε κ σ α} (hm : Settled I f e m) : SettledAll I f e fun _ : ι => m := by
  intro x
  obtain ⟨r, hr⟩ := hm x
  exact ⟨r, fun _ => hr⟩

theorem SettledAll.one {m : ι → Act ε κ σ α} (hm : SettledAll I f e m) (i : ι) : Settled I f e (m i) := by
  intro x
  obtain ⟨r, hr⟩ := hm x
  exact ⟨r, hr i⟩

/-- **One after the other.** -/
theorem settled_bind {m : Act ε κ σ α} {g : α → Act ε κ σ β} (hm : Settled I f e m)
    (hg : ∀ a, Settled I f e (g a)) : Settled I f e (m >>= g) :=
  (settledAll_bind hm.all fun a => (hg a).all).one ()

theorem settled_map {m : Act ε κ σ α} (g : α → β) (hm : Settled I f e m) : Settled I f e (g <$> m) := by
  rw [map_eq_pure_bind]
  exact settled_bind hm fun _ => settled_pure _

theorem settled_ite {p : Prop} [Decidable p] {m n : Act ε κ σ α} (hm : Settled I f e m)
    (hn : Settled I f e n) : Settled I f e (if p then m else n) := by
  split
  · exact hm
  · exact hn

theorem settled_expect (message : String) (o : Option α) :
    Settled I f e (expect message o : Act ε κ σ α) := by
  cases o with
  | none => exact settled_panic _
  | some a => exact settled_pure a

/-- What an operation answers and leaves, as functions of what is seen. -/
theorem settled_of {m : Act ε κ σ α} (answer : τ → α) (left : τ → τ)
    (h : ∀ s c, I s → Sat m e s c (fun a s' _ => I s' ∧ a = answer (f s) ∧ f s' = left (f s))
      (fun _ => False)) : Settled I f e m := by
  refine fun x => ⟨.ok (answer x, left x), ?_⟩
  rintro s c hs rfl
  refine sat_mono (h s c hs) ?_ (fun _ h => h.elim)
  rintro _ s' _ ⟨hs', rfl, hleft⟩
  rw [← hleft]
  exact ⟨hs', rfl⟩

/-- The state is read for what is seen of it. -/
theorem settled_get_bind {g : σ → Act ε κ σ α} (hsame : ∀ s s', I s → I s' → f s = f s' → g s = g s')
    (hg : ∀ s, I s → Settled I f e (g s)) : Settled I f e (get >>= g) := by
  intro x
  by_cases hx : ∃ s, I s ∧ f s = x
  · obtain ⟨s, hs, rfl⟩ := hx
    obtain ⟨r, hr⟩ := hg s hs (f s)
    refine ⟨r, fun s' c hs' hsee => ?_⟩
    rw [sat_bind, sat_get, hsame s' s hs' hs hsee]
    exact hr s' c hs' hsee
  · exact ⟨.error .bounds, fun s c hs hsee => (hx ⟨s, hs, hsee⟩).elim⟩

/-- The state is read for something that makes no difference. -/
theorem settled_get_bind_all {m : ι → Act ε κ σ α} (g : σ → ι) (hm : SettledAll I f e m) :
    Settled I f e (get >>= fun s => m (g s)) := by
  intro x
  obtain ⟨r, hr⟩ := hm x
  exact ⟨r, fun s c hs hsee => hr (g s) s c hs hsee⟩

/-- **On a part of the state**, which is seen by a part of what is seen. -/
theorem settled_zoom {σ' υ : Type} {J : σ' → Prop} {h : σ' → υ} {get : σ → σ'} {put : σ' → σ → σ}
    {m : Act ε κ σ' α} (see : τ → υ) (left : υ → τ → τ) (hJ : ∀ s, I s → J (get s))
    (hI : ∀ s y, I s → J y → I (put y s)) (hsee : ∀ s, see (f s) = h (get s))
    (hleft : ∀ s y, f (put y s) = left (h y) (f s)) (hm : Settled J h e m) :
    Settled I f e (zoom get put m) := by
  intro x
  obtain ⟨r, hr⟩ := hm (see x)
  refine ⟨r.map fun p => (p.1, left p.2 x), ?_⟩
  rintro s c hs rfl
  rw [sat_zoom]
  refine sat_mono (hr (get s) c (hJ s hs) (hsee s).symm) ?_ ?_
  · rintro a y c' ⟨hy, rfl⟩
    exact ⟨hI s y hs hy, by rw [hleft]; rfl⟩
  · rintro p rfl
    rfl

theorem settled_forList {g : α → Act ε κ σ Unit} (hg : ∀ a, Settled I f e (g a)) (as : List α) :
    Settled I f e (forList g as) := by
  induction as with
  | nil => exact settled_pure ()
  | cons a as ih => exact settled_bind (hg a) fun _ => ih

theorem settled_mapList_mem {g : α → Act ε κ σ β} {as : List α} (hg : ∀ a ∈ as, Settled I f e (g a)) :
    Settled I f e (mapList g as) := by
  induction as with
  | nil => exact settled_pure []
  | cons a as ih =>
    refine settled_bind (hg a List.mem_cons_self) fun _ => ?_
    exact settled_bind (ih fun b hb => hg b (List.mem_cons_of_mem a hb)) fun _ => settled_pure _

theorem settled_mapList {g : α → Act ε κ σ β} (hg : ∀ a, Settled I f e (g a)) (as : List α) :
    Settled I f e (mapList g as) := settled_mapList_mem fun a _ => hg a

theorem settled_countList {g : α → Act ε κ σ Bool} (hg : ∀ a, Settled I f e (g a)) (as : List α) :
    Settled I f e (countList g as) := by
  induction as with
  | nil => exact settled_pure 0
  | cons a as ih => exact settled_bind (hg a) fun _ => settled_bind ih fun _ => settled_pure _

/-- **Two states seen alike**: one run tells how the other ends. -/
theorem Settled.alike {m : Act ε κ σ α} (h : Settled I f e m) {s t : σ} (hs : I s) (ht : I t)
    (hsame : f s = f t) (c d : κ) : Sat m e s c
      (fun a s' _ => Sat m e t d (fun a' t' _ => a' = a ∧ I s' ∧ I t' ∧ f s' = f t') (fun _ => False))
      (fun p => Sat m e t d (fun _ _ _ => False) (· = p)) := by
  obtain ⟨r, hr⟩ := h (f t)
  refine sat_mono (hr s c hs hsame) ?_ ?_
  · rintro a s' c' ⟨hs', rfl⟩
    refine sat_mono (hr t d ht rfl) ?_ (fun _ h => by cases h)
    rintro a' t' d' ⟨ht', hend⟩
    injection hend with hend
    injection hend with ha hf
    exact ⟨ha.symm, hs', ht', hf⟩
  · rintro p rfl
    refine sat_mono (hr t d ht rfl) ?_ ?_
    · rintro a' t' d' ⟨-, hend⟩
      cases hend
    · intro q hend
      injection hend with hend
      exact hend.symm

end rules

/-! ## The whole state -/

section steady

theorem steady_get : Steady e (get : Act ε κ σ σ) := settled_of id id fun _ _ _ => ⟨trivial, rfl, rfl⟩

theorem steady_modify (g : σ → σ) : Steady e (modify g : Act ε κ σ Unit) :=
  settled_of (fun _ => ()) g fun _ _ _ => ⟨trivial, rfl, rfl⟩

theorem steady_set (s : σ) : Steady e (set s : Act ε κ σ Unit) := steady_modify _

theorem steady_state (g : σ → α × σ) : Steady e (state g : Act ε κ σ α) :=
  settled_of (fun s => (g s).1) (fun s => (g s).2) fun _ _ _ => ⟨trivial, rfl, rfl⟩

/-- On a part of the state. -/
theorem steady_zoom {get : σ → τ} {put : τ → σ → σ} {m : Act ε κ τ α} (hm : Steady e m) :
    Steady e (zoom get put m) :=
  settled_zoom get put (fun _ _ => trivial) (fun _ _ _ _ => trivial) (fun _ => rfl) (fun _ _ => rfl) hm

/-- On a value beside the state. -/
theorem settled_beside {m : Act ε κ τ α} (v : τ) {υ : Type} {k : σ → υ} (hm : Steady e m) :
    Settled I k e (zoom (fun _ => v) (fun _ s => s) m : Act ε κ σ α) :=
  settled_zoom (fun _ => v) (fun _ x => x) (fun _ _ => trivial) (fun _ _ hs _ => hs) (fun _ => rfl)
    (fun _ _ => rfl) hm

end steady

/-! ## Early answers -/

section early

variable {ρ : Type}

/-- The same of a computation that may stop early. -/
abbrev SettledE (I : σ → Prop) (f : σ → τ) (e : ε) (x : ExceptT ρ (Act ε κ σ) α) : Prop :=
  Settled I f e x.run

theorem settledE_pure (a : α) : SettledE I f e (pure a : ExceptT ρ (Act ε κ σ) α) := settled_pure _

theorem settledE_throw (b : ρ) : SettledE I f e (throw b : ExceptT ρ (Act ε κ σ) α) := settled_pure _

theorem settledE_lift {m : Act ε κ σ α} (h : Settled I f e m) :
    SettledE I f e (liftM m : ExceptT ρ (Act ε κ σ) α) := by
  unfold SettledE
  rw [ExceptT.run_liftM]
  exact settled_map _ h

theorem settledE_bind {x : ExceptT ρ (Act ε κ σ) α} {g : α → ExceptT ρ (Act ε κ σ) β}
    (hx : SettledE I f e x) (hg : ∀ a, SettledE I f e (g a)) : SettledE I f e (x >>= g) := by
  unfold SettledE
  rw [ExceptT.run_bind]
  refine settled_bind hx ?_
  intro r
  cases r with
  | ok a => exact hg a
  | error b => exact settled_pure _

theorem settledE_ite {p : Prop} [Decidable p] {x y : ExceptT ρ (Act ε κ σ) α} (hx : SettledE I f e x)
    (hy : SettledE I f e y) : SettledE I f e (if p then x else y) := by
  split
  · exact hx
  · exact hy

/-- A refusal in front of the rest. -/
theorem settledE_guard {p : Prop} [Decidable p] {r : ρ} {rest : Unit → ExceptT ρ (Act ε κ σ) α}
    (h : SettledE I f e (rest ())) : SettledE I f e (if p then throw r >>= rest else rest ()) :=
  settledE_ite (settledE_bind (settledE_throw r) fun _ => h) h

end early

end Act
