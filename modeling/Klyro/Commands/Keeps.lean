import Klyro.Commands.Blocks
import Klyro.Commands.Keyspec

/-!
# Handlers that may fail after a write

`MEM.ADD` hands out an id before its checks and `ZINCRBY` stores its sum before it looks at it, so
less is true of them than of the others.

* `Shy` — no key turned into a list or a sorted set, which is all that a parked command waits for.
* `Keeps W` — a handler that writes keys in `W` only and is shy however it ends.
* `Fixed` — a part of a handler that depends on its arguments only.
* `Mild`, `Peeks` — computations on a value in place, and those that leave it alone.
-/

set_option autoImplicit false

namespace Klyro

open Keyspace

/-- The arm a name is looked up to is one of the arms. -/
theorem mem_of_lookup {β : Type} {arms : List (String × β)} {name : String} {arm : β}
    (h : arms.lookup name = some arm) : (name, arm) ∈ arms := by
  obtain ⟨before, after, rfl, -⟩ := List.lookup_eq_some_iff.mp h
  exact List.mem_append_right _ List.mem_cons_self

/-! ## Shy handlers -/

/-- The types a blocking command pops from. -/
def Poppable (type : StoreType) : Prop := type = .list ∨ type = .zset

/-- Every list and every sorted set there is was there before. -/
def Shy (s s' : Store) : Prop := ∀ k x d, s'.view k = some (x, d) → Poppable x.typeOf →
  ∃ x' d', s.view k = some (x', d') ∧ x'.typeOf = x.typeOf

theorem Shy.refl (s : Store) : Shy s s := fun _ x d h _ => ⟨x, d, h, rfl⟩

theorem Shy.trans {s s' s'' : Store} (h : Shy s s') (h' : Shy s' s'') : Shy s s'' := by
  intro k x d hx hpop
  obtain ⟨x', d', hx', htype'⟩ := h' k x d hx hpop
  obtain ⟨x'', d'', hx'', htype''⟩ := h k x' d' hx' (htype' ▸ hpop)
  exact ⟨x'', d'', hx'', htype''.trans htype'⟩

theorem Quiet.shy {e : Env} {s s' : Store} {w w' : World} (h : Quiet e s w s' w') : Shy s s' := by
  intro k x d hx _
  rcases h.kept k id with hk | ⟨hk, -⟩
  · exact ⟨x, d, hk ▸ hx, rfl⟩
  · rw [hk] at hx
    cases hx

/-- Only `key` was changed, and it holds no list and no sorted set. -/
theorem Shy.of_update {s s' : Store} {key : Bytes} {x : Option (Value × Option SystemTime)}
    (hview : s'.view = Function.update s.view key x)
    (hx : ∀ v d, x = some (v, d) → ¬ Poppable v.typeOf) : Shy s s' := by
  intro k v d hv hpop
  rw [hview] at hv
  by_cases hk : k = key
  · subst hk
    rw [Function.update_self] at hv
    exact absurd hpop (hx v d hv)
  · rw [Function.update_of_ne hk] at hv
    exact ⟨v, d, hv, rfl⟩

section keeps

variable {α β τ : Type} {W : Bytes → Prop} {key : Bytes}

/-- A handler that writes keys in `W` only, and whichever way it ends makes no key poppable. -/
def Keeps (W : Bytes → Prop) (m : Cmd α) : Prop := ∀ (e : Env) (s : Store) (w : World),
  Act.SatE m e s w (fun _ s' w' => Moves e W s w s' w' ∧ Shy s s')
    (fun r s' w' => r.isError = true ∧ Moves e W s w s' w' ∧ Shy s s') (Allowed false)

theorem Looks.keeps {m : Cmd α} (h : Looks m) : Keeps W m := by
  intro e s w
  refine Act.satE_mono (h e s w) ?_ ?_ (fun _ h => h.allowed)
  · exact fun a s' w' hq => ⟨.of_quiet hq, hq.shy⟩
  · exact fun r s' w' h => ⟨h.1, .of_quiet h.2, h.2.shy⟩

theorem keeps_bind {m : Cmd α} {f : α → Cmd β} (hm : Keeps W m) (hf : ∀ a, Keeps W (f a)) :
    Keeps W (m >>= f) := by
  intro e s w
  rw [Act.satE_bind]
  refine Act.satE_mono (hm e s w) ?_ (fun _ _ _ h => h) (fun _ h => h)
  rintro a s' w' ⟨hmove, hshy⟩
  refine Act.satE_mono (hf a e s' w') ?_ ?_ (fun _ h => h)
  · exact fun b s'' w'' h => ⟨hmove.trans h.1, hshy.trans h.2⟩
  · exact fun r s'' w'' h => ⟨h.1, hmove.trans h.2.1, hshy.trans h.2.2⟩

theorem keeps_ite {p : Prop} [Decidable p] {m m' : Cmd α} (h : p → Keeps W m)
    (h' : ¬ p → Keeps W m') : Keeps W (if p then m else m') := by
  split
  · exact h ‹_›
  · exact h' ‹_›

/-- A refusal in front of the rest. -/
theorem keeps_guard {p : Prop} [Decidable p] {r : Reply} {rest : Unit → Cmd α}
    (hr : r.isError = true) (h : Keeps W (rest ())) :
    Keeps W (if p then throw r >>= rest else rest ()) :=
  keeps_ite (fun _ _ _ _ => ⟨hr, .refl, .refl _⟩) fun _ => h

theorem keeps_minArgs {argv : List Bytes} {name : String} {n : Nat} {f : Unit → Cmd α}
    (hf : n < argv.length → Keeps W (f ())) : Keeps W (minArgs argv name n >>= f) := by
  intro e s w
  rw [Act.satE_bind]
  unfold minArgs
  split
  · exact hf ‹_› e s w
  · exact ⟨rfl, .refl, .refl s⟩

theorem keeps_exactArgs {argv : List Bytes} {name : String} {n : Nat} {f : Unit → Cmd α}
    (hf : argv.length = n + 1 → Keeps W (f ())) : Keeps W (exactArgs argv name n >>= f) := by
  intro e s w
  rw [Act.satE_bind]
  unfold exactArgs
  split
  · exact hf ‹_› e s w
  · exact ⟨rfl, .refl, .refl s⟩

end keeps

/-! ## Parts that depend on the arguments only -/

/-- A part of a handler that depends on its arguments only: an answer or a refusal. -/
def Fixed {α : Type} (m : Cmd α) : Prop :=
  (∃ a, m = pure a) ∨ ∃ r : Reply, r.isError = true ∧ m = throw r

section fixed

variable {α β : Type}

theorem fixed_pure (a : α) : Fixed (pure a : Cmd α) := .inl ⟨a, rfl⟩

theorem fixed_throw {r : Reply} (h : r.isError = true) : Fixed (throw r : Cmd α) := .inr ⟨r, h, rfl⟩

theorem fixed_bind {m : Cmd α} {f : α → Cmd β} (hm : Fixed m) (hf : ∀ a, Fixed (f a)) :
    Fixed (m >>= f) := by
  rcases hm with ⟨a, rfl⟩ | ⟨r, hr, rfl⟩
  · rw [pure_bind]
    exact hf a
  · exact .inr ⟨r, hr, rfl⟩

theorem fixed_ite {p : Prop} [Decidable p] {m m' : Cmd α} (h : Fixed m) (h' : Fixed m') :
    Fixed (if p then m else m') := by
  split
  · exact h
  · exact h'

/-- A refusal in front of the rest. -/
theorem fixed_guard {p : Prop} [Decidable p] {r : Reply} {rest : Unit → Cmd α}
    (hr : r.isError = true) (h : Fixed (rest ())) :
    Fixed (if p then throw r >>= rest else rest ()) :=
  fixed_ite (.inr ⟨r, hr, rfl⟩) h

theorem fixed_orThrow {r : Reply} (h : r.isError = true) : ∀ o : Option α, Fixed (orThrow r o)
  | some a => fixed_pure a
  | none => fixed_throw h

theorem fixed_intArg (bytes : Bytes) : Fixed (intArg bytes) := fixed_orThrow rfl _

theorem fixed_floatArg (bytes : Bytes) : Fixed (floatArg bytes) := fixed_orThrow rfl _

theorem Fixed.looks {m : Cmd α} (h : Fixed m) : Looks m := by
  rcases h with ⟨a, rfl⟩ | ⟨r, hr, rfl⟩
  · exact looks_pure a
  · exact looks_throw hr

end fixed

/-! ## Computations on a value -/

section mild

variable {α β τ υ : Type}

theorem mild_pure (a : α) : Mild (pure a : Run τ α) := fun _ _ _ => le_rfl

theorem mild_get : Mild (Act.get : Run τ τ) := fun _ _ _ => le_rfl

theorem mild_now : Mild (now : Run τ SystemTime) := fun _ _ _ => Nat.le_succ _

theorem mild_env : Mild (env : Run τ Env) := fun _ _ _ => le_rfl

theorem mild_panic {p : Panic} (h : NoExpect p) : Mild (Act.panic p : Run τ α) := fun _ _ _ => h

theorem mild_bind {m : Run τ α} {f : α → Run τ β} (hm : Mild m) (hf : ∀ a, Mild (f a)) :
    Mild (m >>= f) := by
  intro e v w
  rw [Act.sat_bind]
  refine Act.sat_mono (hm e v w) ?_ (fun _ h => h)
  intro a v' w' hw
  exact Act.sat_mono (hf a e v' w') (fun _ _ _ hw' => hw.trans hw') (fun _ h => h)

theorem mild_ite {p : Prop} [Decidable p] {m m' : Run τ α} (h : Mild m) (h' : Mild m') :
    Mild (if p then m else m') := by
  split
  · exact h
  · exact h'

theorem mild_zoom {get : τ → υ} {put : υ → τ → τ} {m : Run υ α} (h : Mild m) :
    Mild (Act.zoom get put m) := by
  intro e v w
  rw [Act.sat_zoom]
  exact h e (get v) w

theorem mild_forList {f : α → Run τ Unit} (hf : ∀ a, Mild (f a)) (as : List α) :
    Mild (Act.forList f as) := by
  induction as with
  | nil => exact mild_pure ()
  | cons a as ih => exact mild_bind (hf a) fun _ => ih

section durations

attribute [local irreducible] addDuration

theorem mild_addDuration (t : SystemTime) (d : Duration) : Mild (addDuration t d : Run τ _) := by
  unfold addDuration
  exact mild_ite (mild_pure _) (mild_panic fun _ h => by cases h)

end durations

/-- A computation that leaves the value alone. -/
def Peeks (use : Run τ α) : Prop := ∀ (e : Env) (v : τ) (w : World),
  Act.Sat use e v w (fun _ v' w' => v' = v ∧ w.ticks ≤ w'.ticks) NoExpect

theorem Peeks.mild {use : Run τ α} (h : Peeks use) : Mild use := fun e v w =>
  Act.sat_mono (h e v w) (fun _ _ _ h => h.2) (fun _ h => h)

theorem peeks_pure (a : α) : Peeks (pure a : Run τ α) := fun _ _ _ => ⟨rfl, le_rfl⟩

theorem peeks_get : Peeks (Act.get : Run τ τ) := fun _ _ _ => ⟨rfl, le_rfl⟩

theorem peeks_now : Peeks (now : Run τ SystemTime) := fun _ _ _ => ⟨rfl, Nat.le_succ _⟩

theorem peeks_env : Peeks (env : Run τ Env) := fun _ _ _ => ⟨rfl, le_rfl⟩

theorem peeks_heapBytes : Peeks (heapBytes : Run τ Nat) := fun _ _ _ => ⟨rfl, le_rfl⟩

theorem peeks_bind {m : Run τ α} {f : α → Run τ β} (hm : Peeks m) (hf : ∀ a, Peeks (f a)) :
    Peeks (m >>= f) := by
  intro e v w
  rw [Act.sat_bind]
  refine Act.sat_mono (hm e v w) ?_ (fun _ h => h)
  rintro a v' w' ⟨rfl, hw⟩
  exact Act.sat_mono (hf a e v' w') (fun _ _ _ h => ⟨h.1, hw.trans h.2⟩) (fun _ h => h)

theorem peeks_ite {p : Prop} [Decidable p] {m m' : Run τ α} (h : Peeks m) (h' : Peeks m') :
    Peeks (if p then m else m') := by
  split
  · exact h
  · exact h'

theorem peeks_panic {p : Panic} (h : NoExpect p) : Peeks (Act.panic p : Run τ α) := fun _ _ _ => h

theorem peeks_mapList {f : α → Run τ β} (hf : ∀ a, Peeks (f a)) (as : List α) :
    Peeks (Act.mapList f as) := by
  induction as with
  | nil => exact peeks_pure _
  | cons a as ih => exact peeks_bind (hf a) fun _ => peeks_bind ih fun _ => peeks_pure _

end mild

end Klyro
