import Klyro.Commands.Basic
import Klyro.Store.Refine

/-!
# Commands while the clock stands

At a clock that stands a command is a function of the live keys: it has one answer and leaves one
map.

* `Gives e t K m a K'` — from every store that shows `K`, `m` answers `a` and leaves `K'` in sight.
* `GivesE` — the same of a handler, whose answer may be a refusal.
* `gives_write`, `gives_getOrCreate`, `gives_deleteIfEmpty`, `gives_setExpireAt`,
  `givesE_checkType` — the store's operations.
-/

set_option autoImplicit false

namespace Klyro

open Store Keyspace

section gives

variable {α β : Type} {e : Env} {t : SystemTime} {K K' K'' : Keyspace} {key : Bytes}

/-- **What a computation answers and leaves in sight**, from any store that shows `K`. -/
def Gives (e : Env) (t : SystemTime) (K : Keyspace) (m : Run Store α) (a : α) (K' : Keyspace) :
    Prop :=
  ∀ (s : Store) (w : World), Indexed s → s.live t = K →
    Act.Sat m e s w (fun a' s' _ => a' = a ∧ Indexed s' ∧ s'.live t = K') (fun _ => False)

/-- The same of a handler. -/
abbrev GivesE (e : Env) (t : SystemTime) (K : Keyspace) (m : Cmd α) (r : Except Reply α)
    (K' : Keyspace) : Prop := Gives e t K m.run r K'

theorem gives_pure (a : α) : Gives e t K (pure a) a K := fun _ _ hs hK => ⟨rfl, hs, hK⟩

theorem gives_bind {m : Run Store α} {f : α → Run Store β} {a : α} {b : β} (hm : Gives e t K m a K')
    (hf : Gives e t K' (f a) b K'') : Gives e t K (m >>= f) b K'' := by
  intro s w hs hK
  rw [Act.sat_bind]
  refine Act.sat_mono (hm s w hs hK) ?_ (fun _ h => h)
  rintro _ s' w' ⟨rfl, hs', hK'⟩
  exact hf s' w' hs' hK'

theorem givesE_pure (a : α) : GivesE e t K (pure a) (.ok a) K := gives_pure _

theorem givesE_lift {m : Run Store α} {a : α} (hm : Gives e t K m a K') :
    GivesE e t K (liftM m) (.ok a) K' := by
  intro s w hs hK
  rw [ExceptT.run_liftM, Act.sat_map]
  refine Act.sat_mono (hm s w hs hK) ?_ (fun _ h => h)
  rintro _ s' _ ⟨rfl, hs'⟩
  exact ⟨rfl, hs'⟩

/-- The first part of a handler succeeds. -/
theorem givesE_bind {m : Cmd α} {f : α → Cmd β} {a : α} {r : Except Reply β}
    (hm : GivesE e t K m (.ok a) K') (hf : GivesE e t K' (f a) r K'') :
    GivesE e t K (m >>= f) r K'' := by
  intro s w hs hK
  rw [ExceptT.run_bind, Act.sat_bind]
  refine Act.sat_mono (hm s w hs hK) ?_ (fun _ h => h)
  rintro _ s' w' ⟨rfl, hs', hK'⟩
  exact hf s' w' hs' hK'

/-- The first part of a handler refuses. -/
theorem givesE_refused {m : Cmd α} {f : α → Cmd β} {reply : Reply}
    (hm : GivesE e t K m (.error reply) K') : GivesE e t K (m >>= f) (.error reply) K' := by
  intro s w hs hK
  rw [ExceptT.run_bind, Act.sat_bind]
  refine Act.sat_mono (hm s w hs hK) ?_ (fun _ h => h)
  rintro _ s' w' ⟨rfl, hs', hK'⟩
  exact ⟨rfl, hs', hK'⟩

/-! ## Arguments -/

section arguments

variable {argv : List Bytes} {n : Nat}

theorem minArgs_eq (h : n < argv.length) (name : String) : minArgs argv name n = pure () := if_pos h

theorem exactArgs_eq (h : argv.length = n + 1) (name : String) : exactArgs argv name n = pure () :=
  if_pos h

theorem intArg_eq {word : Bytes} {amount : Int} (h : parseI64 word = some amount) :
    intArg word = pure amount := by
  unfold intArg
  rw [h]
  rfl

end arguments

/-! ## The operations of the store -/

section operations

variable {τ : Type} {V : Variant τ} {d : Option SystemTime} (ht : e.StandsAt t)

theorem wrap_eq {v v' : τ} {d' : Option SystemTime}
    (h : some (V.wrap v, d) = some (V.wrap v', d')) : v' = v ∧ d' = d := by
  rw [Option.some.injEq, Prod.mk.injEq] at h
  have hunwrap := congrArg V.unwrap h.1
  rw [V.unwrap_wrap, V.unwrap_wrap] at hunwrap
  exact ⟨(Option.some.inj hunwrap).symm, h.2.symm⟩

theorem live_put {s s' : Store} {v : τ} (use : τ → τ)
    (hview : s'.view = Function.update s.view key (some (V.wrap v, d)))
    (hkept : MapOp.pruned t (some (V.wrap (use v), d)) = some (V.wrap (use v), d)) :
    (setValue key (V.wrap (use v)) s').live t =
      Function.update (s.live t) key (some (V.wrap (use v), d)) :=
  live_setValue hview hkept

include ht

/-- A value in place is changed. -/
theorem gives_write {g : τ → α × τ} {v : τ} {d : Option SystemTime}
    (hlive : K key = some (V.wrap v, d)) : Gives e t K (write V key (Act.state g)) (some (g v).1)
      (Function.update K key (some (V.wrap (g v).2, d))) := by
  rintro s w hs rfl
  refine sat_write (fun p hp => hp.2 hs) ?_ ?_
  · intro s' w' _ hother _ _
    rw [ht] at hother
    exact absurd hlive (hother v d)
  · intro v' d' s' w' _ hlive' hview hidx
    rw [ht] at hlive' hview
    obtain ⟨rfl, rfl⟩ := wrap_eq (hlive.symm.trans hlive')
    have hput : s'.view = Function.update s.view key (some (V.wrap v', d')) := by
      rw [hview, ← hlive]
      rfl
    exact ⟨rfl, (hidx hs).setValue, live_put (fun v => (g v).2) hput (pruned_of_live hlive)⟩

/-- There is nothing to change. -/
theorem gives_write_none {use : Run τ α} (hnone : K key = none) :
    Gives e t K (write V key use) none K := by
  rintro s w hs rfl
  refine sat_write (fun p hp => hp.2 hs) ?_ ?_
  · intro s' w' _ _ hview hidx
    rw [ht] at hview
    exact ⟨rfl, hidx hs, live_expire hview⟩
  · intro v d s' w' _ hlive _ _
    rw [ht] at hlive
    cases hnone.symm.trans hlive

/-- A value in place is changed, after an empty one is made where there is none. -/
theorem gives_getOrCreate {g : τ → α × τ} {v : τ} {d : Option SystemTime}
    (hfound : K key = some (V.wrap v, d) ∨ K key = none ∧ v = V.empty ∧ d = none) :
    Gives e t K (getOrCreate V key (Act.state g)) (some (g v).1)
      (Function.update K key (some (V.wrap (g v).2, d))) := by
  rintro s w hs rfl
  refine sat_getOrCreate (fun p hp => hp.2 hs) ?_ ?_
  · intro x d' s' w' _ hlive hx _ _
    rw [ht] at hlive
    rcases hfound with h | ⟨h, -⟩
    · cases h.symm.trans hlive
      rw [V.unwrap_wrap] at hx
      cases hx
    · cases h.symm.trans hlive
  · intro v' d' s' w' _ hlive hview hidx
    rw [ht] at hlive
    have hsame : v' = v ∧ d' = d := by
      rcases hlive with hlive | ⟨hlive, rfl, rfl⟩
      · rcases hfound with h | ⟨h, -⟩
        · exact wrap_eq (h.symm.trans hlive)
        · cases h.symm.trans hlive
      · rcases hfound with h | ⟨-, rfl, rfl⟩
        · cases h.symm.trans hlive
        · exact ⟨rfl, rfl⟩
    obtain ⟨rfl, rfl⟩ := hsame
    refine ⟨rfl, (hidx hs).setValue, live_put (fun v => (g v).2) hview ?_⟩
    rcases hfound with h | ⟨-, -, rfl⟩
    · exact pruned_of_live h
    · rfl

theorem gives_deleteIfEmpty (key : Bytes) :
    Gives e t K (Store.deleteIfEmpty key) () (Function.update K key (unlessEmpty (K key))) := by
  rintro s w hs rfl
  refine Act.sat_mono (deleteIfEmpty_spec key) ?_ (fun p hp => hp.2 hs)
  rintro _ s' w' ⟨-, hview, hidx⟩
  rw [ht] at hview
  refine ⟨rfl, hidx hs, ?_⟩
  rw [live_update hview, pruned_unlessEmpty]
  rfl

/-- The type of a key is looked at. -/
theorem gives_peekType (key : Bytes) :
    Gives e t K (Store.peekType key) ((K key).map fun p => p.1.typeOf) K := by
  rintro s w hs rfl
  refine Act.sat_mono (peekType_spec key) ?_ (fun p hp => hp.2 hs)
  rintro _ s' w' ⟨-, rfl, hview, hidx⟩
  rw [ht] at hview ⊢
  exact ⟨rfl, hidx hs, live_expire hview⟩

theorem gives_hasKey (key : Bytes) : Gives e t K (Store.hasKey key) (K key).isSome K := by
  rintro s w hs rfl
  refine Act.sat_mono (hasKey_spec key) ?_ (fun p hp => hp.2 hs)
  rintro _ s' w' ⟨-, rfl, hview, hidx⟩
  rw [ht] at hview ⊢
  exact ⟨rfl, hidx hs, live_expire hview⟩

theorem gives_getString {value : Bytes} (hlive : K key = some (.str value, d)) :
    Gives e t K (Store.getString key) (some value) K := by
  rintro s w hs rfl
  unfold Store.getString
  rw [Act.sat_bind]
  refine sat_find (fun _ hp => hp.2 hs) ?_ ?_
  · intro s' w' _ hnone
    rw [ht] at hnone
    cases hnone.symm.trans hlive
  · intro entry s' w' _ hfound hview hidx _
    rw [ht] at hfound hview
    have hvalue : entry.value = .str value := congrArg Prod.fst
      (Option.some.inj (hfound.symm.trans hlive))
    rw [Act.sat_pure, Option.map_some, hvalue]
    exact ⟨rfl, hidx hs, live_expire hview⟩

omit ht in
theorem gives_setString (key value : Bytes) :
    Gives e t K (Store.setString key value) () (Function.update K key (some (.str value, none))) := by
  rintro s w hs rfl
  refine Act.sat_mono (setString_spec key value) ?_ (fun p hp => hp.2 hs)
  rintro _ s' w' ⟨-, hview, hidx⟩
  exact ⟨rfl, hidx hs, live_update hview⟩

/-- A live key is given a deadline, which may have passed already. -/
theorem gives_setExpireAt {x : Value} (hlive : K key = some (x, d)) (d' : Option SystemTime) :
    Gives e t K (Store.setExpireAt key d') true
      (Function.update K key (MapOp.pruned t (some (x, d')))) := by
  rintro s w hs rfl
  refine Act.sat_mono (setExpireAt_spec key d') ?_ (fun p hp => hp.2 hs)
  rintro _ s' w' ⟨-, ha, hview, hidx⟩
  have hlive' : s.view.liveAt t key = some (x, d) := hlive
  rw [ht, hlive'] at ha hview
  exact ⟨ha, hidx hs, live_update hview⟩

theorem givesE_checkType {want : StoreType} (h : ∀ x d, K key = some (x, d) → x.typeOf = want) :
    GivesE e t K (checkType key want) (.ok ()) K := by
  refine givesE_bind (givesE_lift (gives_peekType ht key)) ?_
  rw [if_neg]
  · exact givesE_pure ()
  · cases hx : K key with
    | none => simp
    | some p => simp [h p.1 p.2 hx]

theorem givesE_wrongtype {want : StoreType} {x : Value} {d : Option SystemTime}
    (hlive : K key = some (x, d)) (h : x.typeOf ≠ want) :
    GivesE e t K (checkType key want) (.error wrongtype) K := by
  refine givesE_bind (givesE_lift (gives_peekType ht key)) ?_
  rw [if_pos]
  · exact fun _ _ hs hK => ⟨rfl, hs, hK⟩
  · simp [hlive, h]

end operations

end gives

end Klyro
