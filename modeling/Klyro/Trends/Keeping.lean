import Klyro.Trends.Saved

/-!
# What is true of every value stays true

* `Keeping P` — a relation between keyspaces: if `P` is true of all values before, it is after.
* `keeping_of_update`, `keeping_of_expire`, `keeping_of_quiet` — changes that keep it.
* `write_keeping`, `getOrCreate_keeping`, `deleteIfEmpty_keeping` — the store's operations.
* `tick_keeping`, `save_keeping` — housekeeping, where `P` is true of every memory index.
-/

set_option autoImplicit false

namespace Klyro

open Store Keyspace Served

/-- `P` is true of every value. -/
def Holds (P : Value → Prop) (s : Store) : Prop := ∀ k x d, s.view k = some (x, d) → P x

/-- If `P` is true of every value, it stays so. -/
def Keeping (P : Value → Prop) (s s' : Store) : Prop := Holds P s → Holds P s'

variable {P : Value → Prop}

instance : Lookups (Keeping P) where
  refl _ h := h
  trans _ _ _ h h' hs := h' (h hs)
  of_glances h hs k x d hx := by
    rcases h.kept k with hk | hk
    · exact hs k x d (hk ▸ hx)
    · rw [hk] at hx
      cases hx

section changes

variable {s s' : Store} {key : Bytes} {t : SystemTime}

/-- One key changes. -/
theorem keeping_of_update {x : Option (Value × Option SystemTime)}
    (hview : s'.view = Function.update s.view key x)
    (hx : Holds P s → ∀ v d, x = some (v, d) → P v) : Keeping P s s' := by
  intro hs k v d hv
  rw [hview] at hv
  by_cases hk : k = key
  · rw [hk, Function.update_self] at hv
    exact hx hs v d hv
  · rw [Function.update_of_ne hk] at hv
    exact hs k v d hv

/-- A key goes. -/
theorem keeping_of_removed (hview : s'.view = Function.update s.view key none) : Keeping P s s' :=
  keeping_of_update hview fun _ _ _ hv => by cases hv

theorem Holds.liveAt {v : Value} {d : Option SystemTime} (hs : Holds P s)
    (h : s.view.liveAt t key = some (v, d)) : P v := by
  unfold Keyspace.liveAt at h
  split at h
  · cases h
  · exact hs key v d h

theorem keeping_of_expire (hview : s'.view = s.view.expire t key) : Keeping P s s' :=
  keeping_of_update hview fun hs _ _ hv => hs.liveAt hv

theorem keeping_of_quiet {e : Env} {w w' : World} (h : Quiet e s w s' w') : Keeping P s s' := by
  intro hs k x d hx
  rcases h.kept k (fun hk => hk) with hk | ⟨hk, -⟩
  · exact hs k x d (hk ▸ hx)
  · rw [hk] at hx
    cases hx

theorem eq_of_unlessEmpty {x : Option (Value × Option SystemTime)} {v : Value}
    {d : Option SystemTime} (h : unlessEmpty x = some (v, d)) : x = some (v, d) := by
  unfold unlessEmpty at h
  split at h
  · split at h
    · cases h
    · exact h
  · cases h

end changes

/-! ## The operations of the store -/

theorem evict_keeping (key : Bytes) : Act.Within (Keeping P) (Store.evict key) := fun _ _ _ =>
  Act.sat_mono (evict_spec key) (fun _ _ _ h => keeping_of_removed h.2.2.1) (fun _ _ => trivial)

theorem deleteIfEmpty_keeping (key : Bytes) : Act.Within (Keeping P) (Store.deleteIfEmpty key) := by
  intro e s w
  refine Act.sat_mono (deleteIfEmpty_spec key) ?_ (fun _ _ => trivial)
  rintro _ s' w' ⟨-, hview, -⟩
  exact keeping_of_update hview fun hs _ _ hv => hs.liveAt (eq_of_unlessEmpty hv)

section uses

variable {τ α : Type} {V : Variant τ} {use : Run τ α}

/-- A use of a value leaves a value of which `P` is true. -/
def Leaving (V : Variant τ) (P : Value → Prop) (v v' : τ) : Prop := P (V.wrap v) → P (V.wrap v')

theorem write_keeping (huse : Act.Within (Leaving V P) use) (key : Bytes) :
    Act.Within (Keeping P) (Store.write V key use) := by
  intro e s w
  refine sat_write (fun _ _ => trivial) (fun _ _ _ _ hview _ => keeping_of_expire hview) ?_
  intro v d s' w' _ hlive hview _
  refine Act.sat_mono (huse e v w') ?_ (fun _ _ => trivial)
  intro _ v' _ hleaves
  have hstored : (setValue key (V.wrap v') s').view =
      Function.update s.view key (some (V.wrap v', d)) := by
    rw [view_setValue, hview, expire_self, hlive, update_expire]
    rfl
  refine keeping_of_update hstored fun hs _ _ hv => ?_
  cases hv
  exact hleaves (hs.liveAt hlive)

theorem getOrCreate_keeping (hempty : P (V.wrap V.empty)) (huse : Act.Within (Leaving V P) use)
    (key : Bytes) : Act.Within (Keeping P) (Store.getOrCreate V key use) := by
  intro e s w
  refine sat_getOrCreate (fun _ _ => trivial) (fun _ _ _ _ _ _ _ hview _ => keeping_of_expire hview) ?_
  intro v d s' w' _ hfound hview _
  refine Act.sat_mono (huse e v w') ?_ (fun _ _ => trivial)
  intro _ v' _ hleaves
  have hstored : (setValue key (V.wrap v') s').view =
      Function.update s.view key (some (V.wrap v', d)) := by
    rw [view_setValue, hview, Function.update_self, Function.update_idem]
    rfl
  refine keeping_of_update hstored fun hs _ _ hv => ?_
  cases hv
  rcases hfound with hlive | ⟨-, rfl, -⟩
  · exact hleaves (hs.liveAt hlive)
  · exact hleaves hempty

end uses

/-! ## Housekeeping -/

theorem sweepExpired_keeping : Act.Within (Keeping P) Store.sweepExpired := by
  refine Act.within_bind (Act.within_of_same fun _ _ _ => rfl) fun t => ?_
  refine Act.within_bind Act.within_get fun s => Act.within_forList (fun key => ?_) _
  refine Act.within_bind (fun _ _ _ => ?_) fun _ => Act.within_modify fun _ h => h
  exact Act.sat_mono (removeEntry_spec key) (fun _ _ _ h => keeping_of_removed h.2.2.1)
    (fun _ _ => trivial)

theorem save_keeping : Act.Within (Following (Keeping P)) App.save := fun e a w =>
  Act.sat_mono (App.save_idles e a w) (fun _ _ _ hq => keeping_of_quiet hq) (fun _ _ => trivial)

section memories

variable (hmemory : ∀ m, P (.memory m))
include hmemory

/-- What a memory is changed to is a memory. -/
theorem existingMemory_keeping {α : Type} (use : Run Memory α) (key : Bytes) :
    Act.Within (Keeping P) (existingMemory key use) := by
  intro e s w
  refine sat_existingMemory (fun _ _ => trivial) (fun _ _ _ _ hview _ => keeping_of_expire hview) ?_
  intro m d s' w' _ _ hview _
  refine Act.sat_mono (Act.sat_true use) ?_ (fun _ _ => trivial)
  intro _ m' _ _
  refine trans_of (Keeping P) (keeping_of_expire hview) (keeping_of_update view_setValue ?_)
  intro _ v d hv
  obtain ⟨_, -, hv⟩ := Option.map_eq_some_iff.mp hv
  cases hv
  exact hmemory m'

theorem sweepMemoryRecords_keeping : Act.Within (Following (Keeping P)) App.sweepMemoryRecords := by
  refine Act.within_bind (onStore_look (Generic.ofNow_glances _)) fun keys => ?_
  refine Act.within_forList (fun key => Act.within_bind Act.within_get fun a => ?_) keys
  refine Act.within_bind (onStore_within (existingMemory_keeping hmemory _ key)) fun found => ?_
  cases found with
  | none => exact Act.within_pure _
  | some dropped =>
    refine Act.within_ite ?_ (Act.within_pure _)
    refine Act.within_bind (aside_within fun _ => ⟨rfl, rfl⟩) fun _ => ?_
    exact onStore_within (Act.within_modify fun _ h => h)

theorem tick_keeping : Act.Within (Following (Keeping P)) App.tick :=
  tick_within sweepExpired_keeping (sweepMemoryRecords_keeping hmemory) save_keeping

end memories

end Klyro
