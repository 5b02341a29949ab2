import Klyro.Commands.Effects
import Klyro.Commands.Lists
import Klyro.Store.Runs

/-!
# The writing steps of the handlers

The shapes in which handlers write, each with the effect it has.

* `writes_setString`, `writes_updateString`, `writes_setExpireAt`, `writes_del`, `writes_rename`,
  `writes_copy`, `writes_flush` — single store operations.
* `does_obtain` — `get_or_create_*(..).expect(..)` on a key whose type was checked.
* `does_tidied` — `write_*` followed by `delete_if_empty`.
* `sat_popOne`, `does_moveOne` — the list moves.
-/

set_option autoImplicit false

namespace Klyro

open Keyspace

section blocks

variable {α β τ : Type} {strict : Bool} {known : List (Bytes × StoreType)} {W : Bytes → Prop}
  {mute : α → Bool} {key : Bytes}

theorem allowed_of_outOfRange {s : Store} {p : Panic} (h : Store.OutOfRange s p) : Allowed strict p :=
  (NoExpect.of_outOfRange h).allowed

/-! ## Store operations -/

theorem Reads.writes {m : Run Store β} (h : Reads m) : Writes strict known W m := by
  intro e s w _
  exact Act.sat_mono (h e s w) (fun _ _ _ hq => .of_quiet hq) (fun _ h => h.allowed)

/-- The types are known no more once keys are written. -/
theorem writes_bind {γ : Type} {m : Run Store β} {f : β → Run Store γ} (hm : Writes strict known W m)
    (hf : ∀ b, Writes strict [] W (f b)) : Writes strict known W (m >>= f) := by
  intro e s w ht
  rw [Act.sat_bind]
  refine Act.sat_mono (hm e s w ht) ?_ (fun _ h => h)
  intro b s' w' hmove
  refine Act.sat_mono (hf b e s' w' (typed_nil s')) ?_ (fun _ h => h)
  exact fun c s'' w'' hmove' => hmove.trans hmove'

theorem writes_forList {f : β → Run Store Unit} {bs : List β}
    (hf : ∀ b ∈ bs, Writes strict [] W (f b)) : Writes strict known W (Act.forList f bs) := by
  have hstep : ∀ bs : List β, (∀ b ∈ bs, Writes strict [] W (f b)) →
      Writes strict [] W (Act.forList f bs) := by
    intro bs
    induction bs with
    | nil => exact fun _ => (reads_pure _).writes
    | cons b bs ih =>
      intro hall
      exact writes_bind (hall b List.mem_cons_self) fun _ =>
        ih fun b' hb' => hall b' (List.mem_cons_of_mem _ hb')
  exact fun e s w _ => hstep bs hf e s w (typed_nil s)

theorem writes_countList {f : β → Run Store Bool} {bs : List β}
    (hf : ∀ b ∈ bs, Writes strict [] W (f b)) : Writes strict known W (Act.countList f bs) := by
  have hstep : ∀ bs : List β, (∀ b ∈ bs, Writes strict [] W (f b)) →
      Writes strict [] W (Act.countList f bs) := by
    intro bs
    induction bs with
    | nil => exact fun _ => (reads_pure _).writes
    | cons b bs ih =>
      intro hall
      refine writes_bind (hall b List.mem_cons_self) fun _ => ?_
      exact writes_bind (ih fun b' hb' => hall b' (List.mem_cons_of_mem _ hb')) fun _ =>
        (reads_pure _).writes
  exact fun e s w _ => hstep bs hf e s w (typed_nil s)

theorem writes_setString (value : Bytes) (hW : W key) :
    Writes strict known W (Store.setString key value) := by
  intro e s w _
  refine Act.sat_mono (Store.setString_spec key value) ?_ (fun _ h => allowed_of_outOfRange h)
  rintro _ s' w' ⟨hw, hview, hidx⟩
  refine .of_update hw hW hview hidx fun _ v d hv => ?_
  cases hv
  rfl

theorem writes_updateString (value : Bytes) (hW : W key) :
    Writes strict known W (Store.updateString key value) := by
  intro e s w _
  refine Act.sat_mono (Store.updateString_spec key value) ?_ (fun _ h => allowed_of_outOfRange h)
  rintro _ s' w' ⟨hw, hview, hidx⟩
  refine .of_update hw hW hview hidx fun _ v d hv => ?_
  cases hv
  rfl

theorem writes_setExpireAt (deadline : Option SystemTime) (hW : W key) :
    Writes strict known W (Store.setExpireAt key deadline) := by
  intro e s w _
  refine Act.sat_mono (Store.setExpireAt_spec key deadline) ?_ (fun _ h => allowed_of_outOfRange h)
  rintro _ s' w' ⟨hw, -, hview, hidx⟩
  refine .of_update hw hW hview hidx fun hn v d hv => ?_
  rw [Option.map_eq_some_iff] at hv
  obtain ⟨⟨v', d'⟩, hlive, hv⟩ := hv
  cases hv
  exact nonEmpty_liveAt hn hlive

theorem writes_del (hW : W key) : Writes strict known W (Store.del key) := by
  intro e s w _
  refine Act.sat_mono (Store.del_spec key) ?_ (fun _ h => allowed_of_outOfRange h)
  rintro _ s' w' ⟨hw, -, hview, hidx⟩
  exact .of_update hw hW hview hidx fun _ v d hv => by cases hv

theorem writes_rename {newKey : Bytes} (hW : W key) (hW' : W newKey) :
    Writes strict known W (Store.rename key newKey) := by
  intro e s w _
  refine Act.sat_mono (Store.rename_spec key newKey) ?_ (fun _ h => allowed_of_outOfRange h)
  rintro _ s' w' ⟨hw, -, hidx, hview⟩
  split at hview
  · exact .of_expire hw hview hidx
  · refine ⟨by rw [hw.ticks]; omega, fun k hk => .inl ?_, hidx, fun hn k v d hv => ?_⟩
    · have hne : k ≠ key := fun h => hk (h ▸ hW)
      have hne' : k ≠ newKey := fun h => hk (h ▸ hW')
      rw [hview, Function.update_of_ne hne', Function.update_of_ne hne]
    · rw [hview] at hv
      by_cases hk' : k = newKey
      · subst hk'
        rw [Function.update_self] at hv
        exact nonEmpty_liveAt hn hv
      · rw [Function.update_of_ne hk'] at hv
        by_cases hk : k = key
        · subst hk
          rw [Function.update_self] at hv
          cases hv
        · rw [Function.update_of_ne hk] at hv
          exact hn k v d hv

theorem writes_flush (hW : ∀ k, W k) : Writes strict known W Store.flush := by
  intro e s w _
  refine ⟨le_rfl, fun k hk => absurd (hW k) hk, fun _ => ?_, fun _ k v d hv => ?_⟩
  · exact (Store.indexed_empty s).congr rfl rfl rfl
  · cases hv

theorem writes_deleteIfEmpty (hW : W key) : Writes strict known W (Store.deleteIfEmpty key) := by
  intro e s w _
  refine Act.sat_mono (Store.deleteIfEmpty_spec key) ?_ (fun _ h => allowed_of_outOfRange h)
  rintro _ s' w' ⟨hw, hview, hidx⟩
  refine .of_update hw hW hview hidx fun hn v d hv => ?_
  exact Store.not_empty_of_unlessEmpty hv

/-! ## Values in place -/

/-- A computation on a value that only the clock and the generator are asked in. -/
def Mild (use : Run τ β) : Prop := ∀ (e : Env) (v : τ) (w : World),
  Act.Sat use e v w (fun _ _ w' => w.ticks ≤ w'.ticks) NoExpect

theorem mild_state (g : τ → β × τ) : Mild (Act.state g) := fun _ _ _ => le_rfl

theorem mild_modify (g : τ → τ) : Mild (Act.modify g) := fun _ _ _ => le_rfl

/-- `get_or_create_*(..).expect(..)` on a key that is absent or of the right type. -/
theorem sat_obtain {e : Env} {s : Store} {w : World} {V : Variant τ} {g : τ → β × τ}
    {message : String} {f : β → Cmd α} (hW : W key)
    (htype : ∀ x d, s.view key = some (x, d) → x.typeOf = V.type)
    (hne : ∀ v, (V.wrap (g v).2).isEmptyCollection = false)
    (hf : ∀ b, Finishes strict W mute (f b)) :
    Act.SatE (liftM (Store.getOrCreate V key (Act.state g)) >>= fun b => expect message b >>= f) e s w
      (fun a s' w' => Moves e W s w s' w' ∧ mute a = false) (fun _ _ _ => False)
      (Allowed strict) := by
  simp only [Act.satE_bind, Act.satE_lift]
  refine Store.sat_getOrCreate (fun _ h => allowed_of_outOfRange h) ?_ ?_
  · intro x d s' w' _ hlive hnone _ _
    exfalso
    unfold liveAt at hlive
    split at hlive
    · cases hlive
    · have hsome := (V.isSome_unwrap x).mpr (htype x d hlive)
      rw [hnone] at hsome
      cases hsome
  · intro v d s₁ w₁ hw₁ hfound hview₁ hidx₁
    rw [Act.sat_state]
    show Act.SatE (f (g v).1) e (Store.setValue key (V.wrap (g v).2) s₁) w₁ _ _ _
    have hmove : Moves e W s w (Store.setValue key (V.wrap (g v).2) s₁) w₁ := by
      refine .of_update hw₁ hW (x := some (V.wrap (g v).2, d)) ?_ (fun h => (hidx₁ h).setValue) ?_
      · rw [Store.view_setValue, hview₁, Function.update_self, Function.update_idem]
        rfl
      · intro _ v' d' hv'
        cases hv'
        exact hne v
    refine Act.satE_mono (hf _ e _ w₁) ?_ (fun _ _ _ h => h) (fun _ h => h)
    exact fun a s'' w'' h => ⟨hmove.trans h.1, h.2⟩

/-- `get_or_create_*(..).expect(..)` on a key whose type was checked. -/
theorem does_obtain {V : Variant τ} {g : τ → β × τ} {message : String} {f : β → Cmd α} (hW : W key)
    (hk : (key, V.type) ∈ known) (hne : ∀ v, (V.wrap (g v).2).isEmptyCollection = false)
    (hf : ∀ b, Finishes strict W mute (f b)) :
    Does strict known W mute
      (liftM (Store.getOrCreate V key (Act.state g)) >>= fun b => expect message b >>= f) := by
  intro e s w ht
  refine Act.satE_mono (sat_obtain hW (ht _ hk) hne hf) ?_ (fun _ _ _ h => h.elim) (fun _ h => h)
  exact fun a s' w' h => ⟨h.1, fun hmute => by rw [h.2] at hmute; cases hmute⟩

/-- `write_*` followed by `delete_if_empty`. -/
theorem does_tidied {V : Variant τ} {use : Run τ β} {f : Option β → Unit → Cmd α} (hW : W key)
    (huse : Mild use) (hf : ∀ b u, Finishes strict W mute (f b u)) :
    Does strict known W mute
      (liftM (Store.write V key use) >>= fun b => liftM (Store.deleteIfEmpty key) >>= f b) := by
  intro e s w ht
  -- whatever the write leaves at the key, the tidying makes it a sound content
  have htidy : ∀ (b : Option β) (s₁ : Store) (w₁ : World), w.ticks ≤ w₁.ticks →
      (∀ k, k ≠ key → s₁.view k = s.view k) → (s.Indexed → s₁.Indexed) →
      Act.SatE (liftM (Store.deleteIfEmpty key) >>= f b) e s₁ w₁
        (fun a s' w' => Moves e W s w s' w' ∧ (mute a = true → Quiet e s w s' w'))
        (fun r s' w' => r.isError = true ∧ Quiet e s w s' w') (Allowed strict) := by
    intro b s₁ w₁ hw₁ hother hidx₁
    rw [Act.satE_bind, Act.satE_lift]
    refine Act.sat_mono (Store.deleteIfEmpty_spec key) ?_ (fun _ h => allowed_of_outOfRange h)
    rintro _ s₂ w₂ ⟨hw₂, hview₂, hidx₂⟩
    have hmove : Moves e W s w s₂ w₂ := by
      refine ⟨by rw [hw₂.ticks]; omega, fun k hk => .inl ?_, fun h => hidx₂ (hidx₁ h), ?_⟩
      · have hne : k ≠ key := fun h => hk (h ▸ hW)
        rw [hview₂, Function.update_of_ne hne, hother k hne]
      · intro hn k v d hv
        rw [hview₂] at hv
        by_cases hk : k = key
        · subst hk
          rw [Function.update_self] at hv
          exact Store.not_empty_of_unlessEmpty hv
        · rw [Function.update_of_ne hk, hother k hk] at hv
          exact hn k v d hv
    exact (hf b ()).after hmove
  rw [Act.satE_bind, Act.satE_lift]
  refine Store.sat_write (fun _ h => allowed_of_outOfRange h) ?_ ?_
  · intro s₁ w₁ hw₁ _ hview₁ hidx₁
    refine htidy none s₁ w₁ (by rw [hw₁.ticks]; omega) (fun k hk => ?_) hidx₁
    rw [hview₁, expire_of_ne hk]
  · intro v d s₁ w₁ hw₁ _ hview₁ hidx₁
    refine Act.sat_mono (huse e v w₁) ?_ (fun _ h => h.allowed)
    intro b v' w₂ hw₂
    refine htidy (some b) _ w₂ (by have := hw₁.ticks; omega) (fun k hk => ?_)
      (fun h => (hidx₁ h).setValue)
    rw [Store.view_setValue, Function.update_of_ne hk, hview₁, expire_of_ne hk]

/-- A write that leaves no empty value behind, and only writes when it answers so. -/
theorem does_write {V : Variant τ} {g : τ → β × τ} (mute' : Option β → Bool) (hW : W key)
    (hne : ∀ v, (V.wrap v).isEmptyCollection = false → (V.wrap (g v).2).isEmptyCollection = false)
    (hsame : ∀ v, mute' (some (g v).1) = true → (g v).2 = v) :
    Does strict known W mute' (liftM (Store.write V key (Act.state g)) : Cmd (Option β)) := by
  refine does_lift fun e s w _ => ?_
  refine Store.sat_write (fun _ h => allowed_of_outOfRange h) ?_ ?_
  · intro s₁ w₁ hw₁ _ hview₁ hidx₁
    exact ⟨.of_expire hw₁ hview₁ hidx₁, fun _ => .of_expire hw₁ hview₁ hidx₁⟩
  · intro v d s₁ w₁ hw₁ hlive hview₁ hidx₁
    rw [Act.sat_state]
    have hview : (Store.setValue key (V.wrap (g v).2) s₁).view =
        Function.update s.view key (some (V.wrap (g v).2, d)) := by
      rw [Store.view_setValue, hview₁, expire_self, hlive, update_expire]
      rfl
    refine ⟨.of_update hw₁ hW hview (fun h => (hidx₁ h).setValue) fun hn v' d' hv' => ?_, ?_⟩
    · cases hv'
      exact hne v (nonEmpty_liveAt hn hlive)
    · intro hmute
      have hexpired : (Store.setValue key (V.wrap (g v).2) s₁).view =
          s.view.expire (e.clock w.ticks) key := by
        rw [hview, hsame v hmute, expire, hlive]
      exact .of_expire hw₁ hexpired fun h => (hidx₁ h).setValue

/-! ## Pops -/

open Lists (End popFrom pop popOne moveOne pushTo)

/-- What `pop_one` does, in its two cases. -/
theorem sat_popOne {e : Env} {s : Store} {w : World} {side : End}
    {Q : Option Bytes → Store → World → Prop} {R : Panic → Prop}
    (hR : ∀ p, Store.OutOfRange s p → R p)
    (hnone : ∀ s' w', Store.Later 1 w w' →
      (∀ l d, s.view.liveAt (e.clock w.ticks) key = some (.list l, d) → popFrom l side = none) →
      s'.view = s.view.expire (e.clock w.ticks) key → (s.Indexed → s'.Indexed) → Q none s' w')
    (hsome : ∀ l l' d value (s₁ : Store) (w₁ : World), Store.Later 1 w w₁ →
      s.view.liveAt (e.clock w.ticks) key = some (.list l, d) →
      popFrom l side = some (value, l') →
      s₁.view = Function.update s.view key (some (.list l', d)) → (s.Indexed → s₁.Indexed) →
      ∀ (s' : Store) (w' : World), Store.Later 1 w₁ w' →
      s'.view = Function.update s₁.view key
        (Store.unlessEmpty (s₁.view.liveAt (e.clock w₁.ticks) key)) →
      (s₁.Indexed → s'.Indexed) → Q (some value) s' w') :
    Act.Sat (popOne key side) e s w Q R := by
  unfold popOne
  rw [Act.sat_bind]
  refine Store.sat_write (V := .list) hR ?_ ?_
  · intro s₁ w₁ hw₁ hother hview₁ hidx₁
    exact hnone s₁ w₁ hw₁ (fun l d h => absurd h (hother l d)) hview₁ hidx₁
  · intro l d s₁ w₁ hw₁ hlive hview₁ hidx₁
    have hset : ∀ l', (Store.setValue key (.list l') s₁).view =
        Function.update s.view key (some (.list l', d)) := by
      intro l'
      rw [Store.view_setValue, hview₁, expire_self, hlive, update_expire]
      rfl
    unfold pop
    rw [Act.sat_state]
    cases hpop : popFrom l side with
    | none =>
      refine hnone _ w₁ hw₁ (fun l' d' h => ?_) ?_ (fun h => (hidx₁ h).setValue)
      · rw [hlive] at h
        cases h
        exact hpop
      · exact (hset l).trans (by rw [expire, hlive]; rfl)
    | some popped =>
      obtain ⟨value, l'⟩ := popped
      show Act.Sat (do Store.deleteIfEmpty key; pure (some value)) e (Store.setValue key (.list l') s₁)
        w₁ Q R
      rw [Act.sat_bind]
      refine Act.sat_mono (Store.deleteIfEmpty_spec key) ?_
        (fun p h => hR p (h.of_indexed fun h => (hidx₁ h).setValue))
      rintro _ s₂ w₂ ⟨hw₂, hview₂, hidx₂⟩
      exact hsome l l' d value _ w₁ hw₁ hlive hpop (hset l') (fun h => (hidx₁ h).setValue) s₂ w₂ hw₂
        hview₂ hidx₂

theorem does_popOne {side : End} (hW : W key) :
    Does strict known W Option.isNone (liftM (popOne key side) : Cmd (Option Bytes)) := by
  refine does_lift fun e s w _ => ?_
  refine sat_popOne (fun _ h => allowed_of_outOfRange h) ?_ ?_
  · intro s' w' hw _ hview hidx
    exact ⟨.of_expire hw hview hidx, fun _ => .of_expire hw hview hidx⟩
  · intro l l' d value s₁ w₁ hw₁ _ _ hview₁ hidx₁ s' w' hw' hview' hidx'
    rw [hview₁, Function.update_idem] at hview'
    refine ⟨.of_update (hw₁.trans hw') hW hview' (fun h => hidx' (hidx₁ h)) fun _ v d hv => ?_, ?_⟩
    · exact Store.not_empty_of_unlessEmpty hv
    · exact fun h => by cases h

/-- What `move_one` does when the destination was checked to be a list: nothing, or the value taken
off the source is pushed to the destination and the source tidied. -/
theorem sat_moveOne {e : Env} {s : Store} {w : World} {source destination : Bytes}
    {takeFrom putTo : End} {Q : Option Bytes → Store → World → Prop} {R : Panic → Prop}
    (hR : ∀ p, Store.OutOfRange s p → R p)
    (htype : ∀ x d, s.view destination = some (x, d) → x.typeOf = .list)
    (hnone : ∀ s' w', Store.Later 1 w w' →
      (∀ l d, s.view.liveAt (e.clock w.ticks) source = some (.list l, d) →
        popFrom l takeFrom = none) →
      s'.view = s.view.expire (e.clock w.ticks) source → (s.Indexed → s'.Indexed) → Q none s' w')
    (hsome : ∀ l l' d value m dm (s₁ : Store) (w₁ : World), Store.Later 1 w w₁ →
      s.view.liveAt (e.clock w.ticks) source = some (.list l, d) →
      popFrom l takeFrom = some (value, l') →
      s₁.view = Function.update s.view source (some (.list l', d)) → (s.Indexed → s₁.Indexed) →
      (s₁.view.liveAt (e.clock w₁.ticks) destination = some (.list m, dm) ∨
        s₁.view.liveAt (e.clock w₁.ticks) destination = none ∧ m = [] ∧ dm = none) →
      ∀ (s₂ : Store) (w₂ : World), Store.Later 1 w₁ w₂ →
      s₂.view = Function.update s₁.view destination (some (.list (pushTo m putTo value), dm)) →
      (s₁.Indexed → s₂.Indexed) →
      ∀ (s' : Store) (w' : World), Store.Later 1 w₂ w' →
      s'.view = Function.update s₂.view source
        (Store.unlessEmpty (s₂.view.liveAt (e.clock w₂.ticks) source)) →
      (s₂.Indexed → s'.Indexed) → Q (some value) s' w') :
    Act.Sat (moveOne source destination takeFrom putTo) e s w Q R := by
  unfold moveOne
  rw [Act.sat_bind]
  refine Store.sat_write (V := .list) hR ?_ ?_
  · intro s₁ w₁ hw₁ hother hview₁ hidx₁
    exact hnone s₁ w₁ hw₁ (fun l d h => absurd h (hother l d)) hview₁ hidx₁
  · intro l d s₀ w₁ hw₁ hlive hview₀ hidx₀
    have hset : ∀ l', (Store.setValue source (.list l') s₀).view =
        Function.update s.view source (some (.list l', d)) := by
      intro l'
      rw [Store.view_setValue, hview₀, expire_self, hlive, update_expire]
      rfl
    unfold pop
    rw [Act.sat_state]
    cases hpop : popFrom l takeFrom with
    | none =>
      refine hnone _ w₁ hw₁ (fun l' d' h => ?_) ?_ (fun h => (hidx₀ h).setValue)
      · rw [hlive] at h
        cases h
        exact hpop
      · exact (hset l).trans (by rw [expire, hlive]; rfl)
    | some popped =>
      obtain ⟨value, l'⟩ := popped
      have hidx₁ : s.Indexed → (Store.setValue source (.list l') s₀).Indexed :=
        fun h => (hidx₀ h).setValue
      have hview₁ := hset l'
      show Act.Sat (do
        let pushed ← Store.getOrCreateList destination (Act.modify fun l => pushTo l putTo value)
        Act.expect "type checked" pushed
        Store.deleteIfEmpty source
        pure (some value)) e (Store.setValue source (.list l') s₀) w₁ Q R
      generalize Store.setValue source (.list l') s₀ = s₁ at hidx₁ hview₁
      have htype₁ : ∀ x d, s₁.view destination = some (x, d) → x.typeOf = .list := by
        intro x d' hx
        rw [hview₁] at hx
        by_cases hk : destination = source
        · subst hk
          rw [Function.update_self] at hx
          cases hx
          rfl
        · rw [Function.update_of_ne hk] at hx
          exact htype x d' hx
      have hR₁ : ∀ p, Store.OutOfRange s₁ p → R p := fun p h => hR p (h.of_indexed hidx₁)
      rw [Act.sat_bind]
      refine Store.sat_getOrCreate (V := .list) hR₁ ?_ ?_
      · -- the destination was checked
        intro x dx s₂ w₂ _ hlive₁ hnot _ _
        exfalso
        unfold liveAt at hlive₁
        split at hlive₁
        · cases hlive₁
        · have hsome' := (Variant.list.isSome_unwrap x).mpr (htype₁ x dx hlive₁)
          rw [hnot] at hsome'
          cases hsome'
      · intro m dm s₂ w₂ hw₂ hfound hview₂ hidx₂
        rw [Act.sat_modify]
        show Act.Sat (do Store.deleteIfEmpty source; pure (some value)) e
          (Store.setValue destination (.list (pushTo m putTo value)) s₂) w₂ Q R
        have hview₃ : (Store.setValue destination (.list (pushTo m putTo value)) s₂).view =
            Function.update s₁.view destination (some (.list (pushTo m putTo value), dm)) := by
          rw [Store.view_setValue, hview₂, Function.update_self, Function.update_idem]
          rfl
        rw [Act.sat_bind]
        refine Act.sat_mono (Store.deleteIfEmpty_spec source) ?_
          (fun p h => hR₁ p (h.of_indexed fun h => (hidx₂ h).setValue))
        rintro _ s' w' ⟨hw', hview', hidx'⟩
        exact hsome l l' d value m dm s₁ w₁ hw₁ hlive hpop hview₁ hidx₁ hfound _ w₂ hw₂ hview₃
          (fun h => (hidx₂ h).setValue) s' w' hw' hview' hidx'

theorem isEmptyCollection_pushTo (l : ListValue) (side : End) (value : Bytes) :
    (Value.list (pushTo l side value)).isEmptyCollection = false := by
  cases side <;> simp [pushTo, Value.isEmptyCollection]

/-- Something is taken off the source, something non-empty put at the destination, and the source
tidied. -/
theorem Moves.of_transfer {e : Env} {s s₁ s₂ s' : Store} {w w' : World} {source destination : Bytes}
    {x y z : Option (Value × Option SystemTime)} (hw : w.ticks ≤ w'.ticks) (hW : W source)
    (hW' : W destination) (hview₁ : s₁.view = Function.update s.view source x)
    (hview₂ : s₂.view = Function.update s₁.view destination y)
    (hy : ∀ v d, y = some (v, d) → v.isEmptyCollection = false)
    (hview' : s'.view = Function.update s₂.view source (Store.unlessEmpty z))
    (hidx : s.Indexed → s'.Indexed) : Moves e W s w s' w' := by
  refine ⟨hw, fun k hk => .inl ?_, hidx, fun hn k v d hv => ?_⟩
  · have hne : k ≠ source := fun h => hk (h ▸ hW)
    have hne' : k ≠ destination := fun h => hk (h ▸ hW')
    rw [hview', Function.update_of_ne hne, hview₂, Function.update_of_ne hne', hview₁,
      Function.update_of_ne hne]
  · rw [hview'] at hv
    by_cases hks : k = source
    · subst hks
      rw [Function.update_self] at hv
      exact Store.not_empty_of_unlessEmpty hv
    · rw [Function.update_of_ne hks, hview₂] at hv
      by_cases hkd : k = destination
      · subst hkd
        rw [Function.update_self] at hv
        exact hy v d hv
      · rw [Function.update_of_ne hkd, hview₁, Function.update_of_ne hks] at hv
        exact hn k v d hv

theorem does_moveOne {source destination : Bytes} {takeFrom putTo : End} (hW : W source)
    (hW' : W destination) (hk : (destination, .list) ∈ known) :
    Does strict known W Option.isNone
      (liftM (moveOne source destination takeFrom putTo) : Cmd (Option Bytes)) := by
  refine does_lift fun e s w ht => ?_
  refine sat_moveOne (fun _ h => allowed_of_outOfRange h) (fun x d hx => ht _ hk x d hx) ?_ ?_
  · intro s' w' hw _ hview hidx
    exact ⟨.of_expire hw hview hidx, fun _ => .of_expire hw hview hidx⟩
  · intro l l' d value m dm s₁ w₁ hw₁ _ _ hview₁ hidx₁ _ s₂ w₂ hw₂ hview₂ hidx₂ s' w' hw' hview' hidx'
    have hticks : w.ticks ≤ w'.ticks := by
      have := hw₁.ticks
      have := hw₂.ticks
      have := hw'.ticks
      omega
    refine ⟨.of_transfer hticks hW hW' hview₁ hview₂ (fun v dv hv => ?_) hview'
      fun h => hidx' (hidx₂ (hidx₁ h)), fun h => by cases h⟩
    cases hv
    exact isEmptyCollection_pushTo m putTo value

end blocks

end Klyro
