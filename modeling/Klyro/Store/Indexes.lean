import Klyro.Store.Basic

/-!
# The two index vectors

`Store::keys` lists every key and `Store::volatile` every key with a deadline; each entry points
back at its positions.  `check_indexes` of the source's tests is `Indexed` here.

* `Indexed` — the invariant, and `indexed_iff`, its form for proofs: both vectors are `Placed`
  under the entries' back-pointers, and an entry has a volatile slot exactly when it has a
  deadline.
* `view` — what a key holds: its value and its deadline.
* `removeEntry_spec`, `insertEntry_spec`, `setExpiry_spec`, `touch_spec` — what the four places
  that write entries do to the view, and that they keep the invariant; out of range is only
  possible where it is broken already.
-/

set_option autoImplicit false

namespace Klyro

/-- What a key holds: a value and perhaps a deadline. -/
abbrev Keyspace := Bytes → Option (Value × Option SystemTime)

namespace Store

variable {e : Env} {s : Store} {w : World}

/-- What `key` holds. -/
def view (s : Store) : Keyspace := fun key =>
  (s.map.lookup key).map fun entry => (entry.value, entry.expireAt)

/-- The position an entry claims in `keys`. -/
def slotOf (s : Store) (key : Bytes) : Option Nat := (s.map.lookup key).map Entry.slot

/-- The position an entry claims in `volatile`. -/
def volatileSlotOf (s : Store) (key : Bytes) : Option Nat := (s.map.lookup key).bind Entry.volatileSlot

/-- **The index invariant.**  `keys` lists each key of the map once, at the entry's slot;
`volatile` lists each key with a deadline once, at the entry's volatile slot; an entry without a
deadline has no volatile slot. -/
structure Indexed (s : Store) : Prop where
  keys_nodup : s.keys.Nodup
  mem_keys : ∀ k, k ∈ s.keys ↔ ∃ entry, s.map.lookup k = some entry
  slot : ∀ i k entry, s.keys[i]? = some k → s.map.lookup k = some entry → entry.slot = i
  volatile_nodup : s.volatile.Nodup
  mem_volatile : ∀ k, k ∈ s.volatile ↔
    ∃ entry, s.map.lookup k = some entry ∧ entry.expireAt.isSome = true
  volatile_slot : ∀ i k entry, s.volatile[i]? = some k → s.map.lookup k = some entry →
    entry.volatileSlot = some i
  stable : ∀ k entry, s.map.lookup k = some entry → entry.expireAt = none →
    entry.volatileSlot = none

/-- The index invariant, checked entry by entry. -/
abbrev IndexesAgree (s : Store) : Prop :=
  s.keys.Nodup ∧ s.volatile.Nodup ∧
  (∀ k ∈ s.keys, (s.map.lookup k).isSome = true) ∧
  (∀ k ∈ s.volatile, (s.map.lookup k).isSome = true) ∧
  ∀ p ∈ s.map.pairs, s.keys[p.2.slot]? = some p.1 ∧
    (p.2.volatileSlot.bind fun i => s.volatile[i]?) =
      (if p.2.expireAt.isSome then some p.1 else none) ∧
    (p.2.expireAt = none → p.2.volatileSlot = none ∧ p.1 ∉ s.volatile)

theorem indexesAgree_iff (s : Store) : IndexesAgree s ↔ Indexed s := by
  constructor
  · rintro ⟨hkn, hvn, hk, hv, hp⟩
    have hp' : ∀ k entry, s.map.lookup k = some entry → _ := fun k entry h =>
      hp (k, entry) (Assoc.mem_pairs.mpr h)
    refine ⟨hkn, fun k => ⟨fun h => Option.isSome_iff_exists.mp (hk k h), ?_⟩, ?_, hvn,
      fun k => ⟨?_, ?_⟩, ?_, ?_⟩
    · rintro ⟨entry, h⟩
      exact List.mem_of_getElem? (hp' k entry h).1
    · intro i k entry hi h
      have hlt := (List.getElem?_eq_some_iff.mp hi).1
      exact ((List.getElem?_inj hlt hkn).mp (hi.trans (hp' k entry h).1.symm)).symm
    · intro h
      obtain ⟨entry, he⟩ := Option.isSome_iff_exists.mp (hv k h)
      refine ⟨entry, he, ?_⟩
      cases hd : entry.expireAt with
      | some d => rfl
      | none => exact absurd h ((hp' k entry he).2.2 hd).2
    · rintro ⟨entry, he, hd⟩
      have := (hp' k entry he).2.1
      dsimp only at this
      rw [if_pos hd, Option.bind_eq_some_iff] at this
      obtain ⟨i, -, hi⟩ := this
      exact List.mem_of_getElem? hi
    · intro i k entry hi he
      have hmem := List.mem_of_getElem? hi
      cases hd : entry.expireAt with
      | none => exact absurd hmem ((hp' k entry he).2.2 hd).2
      | some d =>
        have := (hp' k entry he).2.1
        dsimp only at this
        rw [hd, Option.isSome_some, if_pos rfl, Option.bind_eq_some_iff] at this
        obtain ⟨j, hj, hjk⟩ := this
        rw [hj, (List.getElem?_inj (List.getElem?_eq_some_iff.mp hi).1 hvn).mp (hi.trans hjk.symm)]
    · intro k entry he hd
      exact ((hp' k entry he).2.2 hd).1
  · intro h
    refine ⟨h.keys_nodup, h.volatile_nodup, fun k hk => ?_, fun k hk => ?_, ?_⟩
    · exact Option.isSome_iff_exists.mpr ((h.mem_keys k).mp hk)
    · obtain ⟨entry, he, -⟩ := (h.mem_volatile k).mp hk
      exact Option.isSome_iff_exists.mpr ⟨entry, he⟩
    · rintro ⟨k, entry⟩ hp
      have he := Assoc.mem_pairs.mp hp
      refine ⟨?_, ?_, fun hd => ⟨h.stable k entry he hd, fun hk => ?_⟩⟩
      · obtain ⟨i, hi⟩ := List.mem_iff_getElem?.mp ((h.mem_keys k).mpr ⟨entry, he⟩)
        dsimp only
        rw [h.slot i k entry hi he]
        exact hi
      · dsimp only
        cases hd : entry.expireAt with
        | none => simp [h.stable k entry he hd]
        | some d =>
          have hk := (h.mem_volatile k).mpr ⟨entry, he, by rw [hd]; rfl⟩
          obtain ⟨i, hi⟩ := List.mem_iff_getElem?.mp hk
          rw [h.volatile_slot i k entry hi he]
          simpa using hi
      · obtain ⟨entry', he', hd'⟩ := (h.mem_volatile k).mp hk
        rw [he] at he'
        cases he'
        dsimp only at hd
        rw [hd] at hd'
        cases hd'

instance (s : Store) : Decidable (Indexed s) := decidable_of_iff (IndexesAgree s) (indexesAgree_iff s)

/-- Both vectors agree with the back-pointers. -/
structure Slots (s : Store) : Prop where
  keys : Placed s.keys s.slotOf
  volatile : Placed s.volatile s.volatileSlotOf

/-- The entry of `k` has a volatile slot exactly when it has a deadline. -/
def InSync (s : Store) (k : Bytes) : Prop :=
  ∀ entry, s.map.lookup k = some entry → entry.volatileSlot.isSome = entry.expireAt.isSome

theorem slotOf_eq_some {k : Bytes} {i : Nat} :
    s.slotOf k = some i ↔ ∃ entry, s.map.lookup k = some entry ∧ entry.slot = i := by
  unfold slotOf
  rw [Option.map_eq_some_iff]

theorem volatileSlotOf_eq_some {k : Bytes} {i : Nat} :
    s.volatileSlotOf k = some i ↔ ∃ entry, s.map.lookup k = some entry ∧ entry.volatileSlot = some i := by
  unfold volatileSlotOf
  rw [Option.bind_eq_some_iff]

theorem Indexed.slots (h : Indexed s) : Slots s := by
  constructor
  · intro i k
    rw [slotOf_eq_some]
    constructor
    · intro hi
      obtain ⟨entry, he⟩ := (h.mem_keys k).mp (List.mem_of_getElem? hi)
      exact ⟨entry, he, h.slot i k entry hi he⟩
    · rintro ⟨entry, he, rfl⟩
      obtain ⟨j, hj⟩ := List.mem_iff_getElem?.mp ((h.mem_keys k).mpr ⟨entry, he⟩)
      rw [h.slot j k entry hj he]
      exact hj
  · intro i k
    rw [volatileSlotOf_eq_some]
    constructor
    · intro hi
      obtain ⟨entry, he, -⟩ := (h.mem_volatile k).mp (List.mem_of_getElem? hi)
      exact ⟨entry, he, h.volatile_slot i k entry hi he⟩
    · rintro ⟨entry, he, hs⟩
      have hexp : entry.expireAt.isSome = true := by
        cases hx : entry.expireAt with
        | some _ => rfl
        | none => rw [h.stable k entry he hx] at hs; cases hs
      obtain ⟨j, hj⟩ := List.mem_iff_getElem?.mp ((h.mem_volatile k).mpr ⟨entry, he, hexp⟩)
      have := h.volatile_slot j k entry hj he
      rw [hs] at this
      cases this
      exact hj

theorem Indexed.inSync (h : Indexed s) (k : Bytes) : InSync s k := by
  intro entry he
  cases hx : entry.expireAt with
  | none => rw [h.stable k entry he hx]; rfl
  | some d =>
    obtain ⟨j, hj⟩ := List.mem_iff_getElem?.mp ((h.mem_volatile k).mpr ⟨entry, he, by rw [hx]; rfl⟩)
    rw [h.volatile_slot j k entry hj he]
    rfl

theorem indexed_of_slots (h : Slots s) (hs : ∀ k, InSync s k) : Indexed s where
  keys_nodup := h.keys.nodup
  mem_keys := by
    intro k
    rw [h.keys.mem_iff]
    constructor
    · rintro ⟨i, hi⟩
      obtain ⟨entry, he, -⟩ := slotOf_eq_some.mp hi
      exact ⟨entry, he⟩
    · rintro ⟨entry, he⟩
      exact ⟨entry.slot, slotOf_eq_some.mpr ⟨entry, he, rfl⟩⟩
  slot := by
    intro i k entry hi he
    obtain ⟨entry', he', hs'⟩ := slotOf_eq_some.mp ((h.keys i k).mp hi)
    rw [he] at he'
    cases he'
    exact hs'
  volatile_nodup := h.volatile.nodup
  mem_volatile := by
    intro k
    rw [h.volatile.mem_iff]
    constructor
    · rintro ⟨i, hi⟩
      obtain ⟨entry, he, hv⟩ := volatileSlotOf_eq_some.mp hi
      exact ⟨entry, he, by rw [← hs k entry he, hv]; rfl⟩
    · rintro ⟨entry, he, hx⟩
      rw [← hs k entry he] at hx
      obtain ⟨i, hi⟩ := Option.isSome_iff_exists.mp hx
      exact ⟨i, volatileSlotOf_eq_some.mpr ⟨entry, he, hi⟩⟩
  volatile_slot := by
    intro i k entry hi he
    obtain ⟨entry', he', hv⟩ := volatileSlotOf_eq_some.mp ((h.volatile i k).mp hi)
    rw [he] at he'
    cases he'
    exact hv
  stable := by
    intro k entry he hx
    have := hs k entry he
    rw [hx] at this
    cases hv : entry.volatileSlot with
    | none => rfl
    | some i => rw [hv] at this; cases this

/-- Whether a key holds a value with a deadline. -/
def hasDeadline (K : Keyspace) (k : Bytes) : Bool := ((K k).bind Prod.snd).isSome

theorem hasDeadline_view {k : Bytes} {entry : Entry} (h : s.map.lookup k = some entry) :
    hasDeadline s.view k = entry.expireAt.isSome := by
  simp [hasDeadline, view, h]

theorem inSync_iff {k : Bytes} : InSync s k ↔ (s.volatileSlotOf k).isSome = hasDeadline s.view k := by
  unfold InSync volatileSlotOf hasDeadline view
  cases h : s.map.lookup k with
  | none => simp
  | some entry => simp

theorem indexed_iff : Indexed s ↔ Placed s.keys s.slotOf ∧ Placed s.volatile s.volatileSlotOf ∧
    ∀ k, (s.volatileSlotOf k).isSome = hasDeadline s.view k :=
  ⟨fun h => ⟨h.slots.keys, h.slots.volatile, fun k => inSync_iff.mp (h.inSync k)⟩,
    fun h => indexed_of_slots ⟨h.1, h.2.1⟩ fun k => inSync_iff.mpr (h.2.2 k)⟩

theorem isSome_view (k : Bytes) : (s.view k).isSome = (s.map.lookup k).isSome := by
  simp [view]

theorem slotOf_isSome (k : Bytes) : (s.slotOf k).isSome = (s.view k).isSome := by
  simp [view, slotOf]

/-- The index vectors are broken: the only way `swap_remove` gets out of range. -/
def OutOfRange (s : Store) (p : Panic) : Prop := p = .swapRemove ∧ ¬ Indexed s

/-! ## Writing entries -/

theorem lookup_repair (keys : List Bytes) (slot : Nat) (f : Entry → Entry) (map : Assoc Bytes Entry)
    (k : Bytes) : (repair keys slot f map).lookup k =
      if keys[slot]? = some k then (map.lookup k).map f else map.lookup k := by
  unfold repair
  cases h : keys[slot]? with
  | none => simp
  | some moved =>
    simp only [Option.some.injEq]
    rw [Assoc.lookup_adjust]
    by_cases hk : k = moved
    · subst hk
      rfl
    · rw [if_neg hk, if_neg (Ne.symm hk)]

/-- A projection that a change of entries respects is the same after `repair`. -/
theorem map_lookup_repair {β : Type} {g : Entry → β} {f : Entry → Entry} (h : ∀ entry, g (f entry) = g entry)
    (keys : List Bytes) (slot : Nat) (map : Assoc Bytes Entry) (k : Bytes) :
    ((repair keys slot f map).lookup k).map g = (map.lookup k).map g := by
  rw [lookup_repair]
  split
  · cases map.lookup k with
    | none => rfl
    | some entry => simp [h entry]
  · rfl

/-- The same for a change of one entry. -/
theorem map_lookup_adjust {β : Type} {g : Entry → β} {f : Entry → Entry} (h : ∀ entry, g (f entry) = g entry)
    (key : Bytes) (map : Assoc Bytes Entry) (k : Bytes) :
    ((map.adjust key f).lookup k).map g = (map.lookup k).map g := by
  rw [Assoc.lookup_adjust]
  split
  · rename_i hk
    subst hk
    cases map.lookup k with
    | none => rfl
    | some entry => simp [h entry]
  · rfl

theorem view_adjust {key : Bytes} {f : Entry → Entry}
    (h : ∀ entry, ((f entry).value, (f entry).expireAt) = (entry.value, entry.expireAt)) :
    (adjustEntry key f s).view = s.view :=
  funext (map_lookup_adjust h key s.map)

theorem slotOf_adjust {key : Bytes} {f : Entry → Entry} (h : ∀ entry, (f entry).slot = entry.slot) :
    (adjustEntry key f s).slotOf = s.slotOf :=
  funext (map_lookup_adjust h key s.map)

theorem volatileSlotOf_eq (s : Store) (k : Bytes) :
    s.volatileSlotOf k = ((s.map.lookup k).map Entry.volatileSlot).join := by
  unfold volatileSlotOf
  cases s.map.lookup k <;> rfl

theorem volatileSlotOf_adjust {key : Bytes} {f : Entry → Entry}
    (h : ∀ entry, (f entry).volatileSlot = entry.volatileSlot) :
    (adjustEntry key f s).volatileSlotOf = s.volatileSlotOf := by
  funext k
  rw [volatileSlotOf_eq, volatileSlotOf_eq]
  exact congrArg Option.join (map_lookup_adjust h key s.map k)

/-- `detach_volatile` for the key that sat at `slot` and has just lost its volatile slot. -/
theorem detachVolatile_spec {key : Bytes} {slot : Nat} {f : Bytes → Option Nat} {R : Panic → Prop}
    (hvol : ∀ k, s.volatileSlotOf k = if k = key then none else f k)
    (hR : ¬ (Placed s.volatile f ∧ f key = some slot) → R .swapRemove) :
    Act.Sat (detachVolatile slot) e s w
      (fun _ s' w' => w' = w ∧ s'.keys = s.keys ∧ s'.view = s.view ∧ s'.slotOf = s.slotOf ∧
        (Placed s.volatile f → f key = some slot → Placed s'.volatile s'.volatileSlotOf ∧
          ∀ k, (s'.volatileSlotOf k).isSome = (s.volatileSlotOf k).isSome)) R := by
  unfold detachVolatile
  rw [Act.sat_bind, Act.sat_get]
  cases hs : swapRemove s.volatile slot with
  | none =>
    simp only [Act.sat_panic]
    apply hR
    rintro ⟨hp, hk⟩
    obtain ⟨volatile', hv, -⟩ := hp.remove hk
    rw [hs] at hv
    cases hv
  | some volatile =>
    simp only [Act.sat_set]
    refine ⟨trivial, trivial, ?_, ?_, fun hp hk => ?_⟩
    · funext k
      unfold view
      dsimp only
      rw [map_lookup_repair]
      exact fun _ => rfl
    · funext k
      unfold slotOf
      dsimp only
      rw [map_lookup_repair]
      exact fun _ => rfl
    · obtain ⟨volatile', hv, hplaced⟩ := hp.remove hk
      rw [hs] at hv
      cases hv
      have hslots : ∀ k, ((repair volatile slot (fun e => { e with volatileSlot := some slot })
          s.map).lookup k).bind Entry.volatileSlot =
          if k = key then none else if volatile[slot]? = some k then some slot else f k := by
        intro k
        have hk' := hvol k
        unfold volatileSlotOf at hk'
        rw [lookup_repair]
        by_cases hm : volatile[slot]? = some k
        · rw [if_pos hm, if_pos hm]
          obtain ⟨i, hi⟩ := (hp.mem_iff k).mp (mem_of_swapRemove hs hm)
          have hkk : k ≠ key := by
            rintro rfl
            have := (hplaced slot k).mp hm
            simp at this
          rw [if_neg hkk] at hk' ⊢
          rw [hi] at hk'
          obtain ⟨entry, he, -⟩ := Option.bind_eq_some_iff.mp hk'
          simp [he]
        · rw [if_neg hm, if_neg hm]
          exact hk'
      refine ⟨hplaced.congr hslots, fun k => ?_⟩
      show (((repair volatile slot _ s.map).lookup k).bind Entry.volatileSlot).isSome = _
      rw [hslots k, hvol k]
      by_cases hkk : k = key
      · simp [hkk]
      · rw [if_neg hkk, if_neg hkk]
        split
        · rename_i hm
          obtain ⟨i, hi⟩ := (hp.mem_iff k).mp (mem_of_swapRemove hs hm)
          rw [hi]
          rfl
        · rfl

/-- **`remove_entry`** drops one key, answers its entry and keeps the index invariant. -/
theorem removeEntry_spec (key : Bytes) :
    Act.Sat (removeEntry key) e s w
      (fun r s' w' => w' = w ∧ r = s.map.lookup key ∧ s'.view = Function.update s.view key none ∧
        (Indexed s → Indexed s'))
      (OutOfRange s) := by
  unfold removeEntry
  rw [Act.sat_bind, Act.sat_get]
  cases he : s.map.lookup key with
  | none =>
    simp only [Act.sat_pure]
    refine ⟨trivial, trivial, ?_, id⟩
    rw [Function.update_eq_self_iff.mpr]
    simp [view, he]
  | some entry =>
    have hslot : s.slotOf key = some entry.slot := slotOf_eq_some.mpr ⟨entry, he, rfl⟩
    have hvslot : s.volatileSlotOf key = entry.volatileSlot := by simp [volatileSlotOf, he]
    cases hs : swapRemove s.keys entry.slot with
    | none =>
      simp only [hs, Act.sat_panic]
      refine ⟨rfl, fun h => ?_⟩
      obtain ⟨keys', hk, -⟩ := h.slots.keys.remove hslot
      rw [hs] at hk
      cases hk
    | some keys =>
      simp only [hs, Act.sat_bind, Act.sat_set]
      generalize hs₁ : Store.mk (repair keys entry.slot (fun e => { e with slot := entry.slot })
        (s.map.erase key)) keys s.volatile s.clock s.started s.dirty s.expired s.lookupHits
        s.lookupMisses = s₁
      have hkeys₁ : s₁.keys = keys := by rw [← hs₁]
      have hvolatile₁ : s₁.volatile = s.volatile := by rw [← hs₁]
      have hview₁ : s₁.view = Function.update s.view key none := by
        rw [← hs₁]
        funext k
        unfold view
        dsimp only
        rw [map_lookup_repair, Assoc.lookup_erase_eq, Function.update_apply]
        · split <;> rfl
        · exact fun _ => rfl
      have hvol₁ : ∀ k, s₁.volatileSlotOf k = if k = key then none else s.volatileSlotOf k := by
        intro k
        rw [← hs₁, volatileSlotOf_eq]
        dsimp only
        rw [map_lookup_repair, Assoc.lookup_erase_eq, volatileSlotOf_eq]
        · split <;> rfl
        · exact fun _ => rfl
      have hplaced₁ : Placed s.keys s.slotOf → Placed s₁.keys s₁.slotOf := by
        intro hp
        obtain ⟨keys', hk, hplaced⟩ := hp.remove hslot
        rw [hs] at hk
        cases hk
        rw [hkeys₁]
        refine hplaced.congr fun k => ?_
        rw [← hs₁]
        unfold slotOf
        rw [lookup_repair, Assoc.lookup_erase_eq]
        by_cases hkk : k = key
        · simp [hkk]
        · rw [if_neg hkk, if_neg hkk]
          split
          · rename_i hm
            obtain ⟨i, hi⟩ := (hp.mem_iff k).mp (mem_of_swapRemove hs hm)
            obtain ⟨entry', he', -⟩ := slotOf_eq_some.mp hi
            simp [he']
          · rfl
      have hdead : ∀ k, (if k = key then none else s.volatileSlotOf k).isSome =
          hasDeadline (Function.update s.view key none) k ↔
          k = key ∨ (s.volatileSlotOf k).isSome = hasDeadline s.view k := by
        intro k
        unfold hasDeadline
        rw [Function.update_apply]
        by_cases hkk : k = key <;> simp [hkk]
      cases hv : entry.volatileSlot with
      | none =>
        simp only [Act.sat_pure]
        refine ⟨trivial, trivial, hview₁, fun h => ?_⟩
        rw [indexed_iff] at h ⊢
        refine ⟨hplaced₁ h.1, ?_, fun k => ?_⟩
        · rw [hvolatile₁]
          refine h.2.1.congr fun k => ?_
          rw [hvol₁ k]
          split
          · rename_i hkk
            rw [hkk, hvslot, hv]
          · rfl
        · rw [hvol₁ k, hview₁]
          exact (hdead k).mpr (.inr (h.2.2 k))
      | some slot =>
        simp only [Act.sat_bind]
        refine Act.sat_mono (detachVolatile_spec (f := s.volatileSlotOf) hvol₁
          (R := OutOfRange s) ?_) ?_ (fun _ h => h)
        · intro hn
          refine ⟨rfl, fun h => hn ⟨?_, ?_⟩⟩
          · rw [hvolatile₁]
            exact h.slots.volatile
          · rw [hvslot, hv]
        · rintro _ s' w' ⟨rfl, hkeys', hview', hslot', hplaced'⟩
          simp only [Act.sat_pure]
          refine ⟨trivial, trivial, hview'.trans hview₁, fun h => ?_⟩
          rw [indexed_iff] at h ⊢
          obtain ⟨hpv, hsome⟩ := hplaced' (by rw [hvolatile₁]; exact h.2.1) (by rw [hvslot, hv])
          refine ⟨?_, hpv, fun k => ?_⟩
          · rw [hkeys', hslot']
            exact hplaced₁ h.1
          · rw [hsome k, hvol₁ k, hview', hview₁]
            exact (hdead k).mpr (.inr (h.2.2 k))

/-- Everything but the volatile membership of `key` is in order. -/
structure IndexedBut (s : Store) (key : Bytes) : Prop where
  keys : Placed s.keys s.slotOf
  volatile : Placed s.volatile s.volatileSlotOf
  sync : ∀ k, k ≠ key → (s.volatileSlotOf k).isSome = hasDeadline s.view k

theorem IndexedBut.indexed {key : Bytes} (h : IndexedBut s key)
    (hk : (s.volatileSlotOf key).isSome = hasDeadline s.view key) : Indexed s := by
  rw [indexed_iff]
  refine ⟨h.keys, h.volatile, fun k => ?_⟩
  by_cases hkk : k = key
  · rw [hkk]
    exact hk
  · exact h.sync k hkk

/-- `sync_volatile` brings the membership of `key` back in line. -/
theorem syncVolatile_spec (key : Bytes) {R : Panic → Prop} (hR : ¬ IndexedBut s key → R .swapRemove) :
    Act.Sat (syncVolatile key) e s w
      (fun _ s' w' => w' = w ∧ s'.view = s.view ∧ (IndexedBut s key → Indexed s')) R := by
  unfold syncVolatile
  rw [Act.sat_bind, Act.sat_get]
  cases he : s.map.lookup key with
  | none =>
    simp only [Act.sat_pure]
    refine ⟨trivial, trivial, fun h => h.indexed ?_⟩
    simp [volatileSlotOf, hasDeadline, view, he]
  | some entry =>
    have hvs : s.volatileSlotOf key = entry.volatileSlot := by simp [volatileSlotOf, he]
    have hdl := hasDeadline_view he
    cases hx : entry.expireAt.isSome with
    | true =>
      cases hv : entry.volatileSlot with
      | some slot =>
        simp only [hx, hv, Act.sat_pure]
        refine ⟨trivial, trivial, fun h => h.indexed ?_⟩
        rw [hvs, hdl, hx, hv]
        rfl
      | none =>
        simp only [hx, hv, Act.sat_set]
        have hview : (adjustEntry key (fun e => { e with volatileSlot := some s.volatile.length }) s).view =
            s.view := view_adjust fun _ => rfl
        refine ⟨trivial, hview, fun h => ?_⟩
        have hvol : ∀ k, (adjustEntry key
            (fun e => { e with volatileSlot := some s.volatile.length }) s).volatileSlotOf k =
            if k = key then some s.volatile.length else s.volatileSlotOf k := by
          intro k
          unfold volatileSlotOf adjustEntry
          rw [Assoc.lookup_adjust]
          by_cases hkk : k = key
          · simp [hkk, he]
          · simp [hkk]
        rw [indexed_iff]
        refine ⟨?_, ?_, fun k => ?_⟩
        · exact h.keys.congr (congrFun (slotOf_adjust fun _ => rfl))
        · exact (h.volatile.push (hvs.trans hv)).congr hvol
        · refine (congrArg Option.isSome (hvol k)).trans ?_
          refine Eq.trans ?_ (congrArg (fun K => hasDeadline K k) hview.symm)
          by_cases hkk : k = key
          · subst hkk
            rw [if_pos rfl, hdl, hx]
            rfl
          · rw [if_neg hkk]
            exact h.sync k hkk
    | false =>
      cases hv : entry.volatileSlot with
      | none =>
        simp only [hx, hv, Act.sat_pure]
        refine ⟨trivial, trivial, fun h => h.indexed ?_⟩
        rw [hvs, hdl, hx, hv]
        rfl
      | some slot =>
        simp only [hx, hv, Act.sat_bind, Act.sat_set]
        generalize hs₁ : adjustEntry key (fun e => { e with volatileSlot := none }) s = s₁
        have hvol₁ : ∀ k, s₁.volatileSlotOf k = if k = key then none else s.volatileSlotOf k := by
          intro k
          rw [← hs₁]
          unfold volatileSlotOf adjustEntry
          rw [Assoc.lookup_adjust]
          by_cases hkk : k = key
          · simp [hkk, he]
          · simp [hkk]
        have hview₁ : s₁.view = s.view := by
          rw [← hs₁]
          exact view_adjust fun _ => rfl
        have hslot₁ : s₁.slotOf = s.slotOf := by
          rw [← hs₁]
          exact slotOf_adjust fun _ => rfl
        have hvolatile₁ : s₁.volatile = s.volatile := by rw [← hs₁]; rfl
        have hkeys₁ : s₁.keys = s.keys := by rw [← hs₁]; rfl
        refine Act.sat_mono (detachVolatile_spec (f := s.volatileSlotOf) hvol₁ (R := R) ?_) ?_
          (fun _ h => h)
        · intro hn
          refine hR fun h => hn ⟨?_, hvs.trans hv⟩
          rw [hvolatile₁]
          exact h.volatile
        · rintro _ s' w' ⟨rfl, hkeys', hview', hslot', hplaced'⟩
          refine ⟨rfl, hview'.trans hview₁, fun h => ?_⟩
          obtain ⟨hpv, hsome⟩ := hplaced' (by rw [hvolatile₁]; exact h.volatile) (hvs.trans hv)
          rw [indexed_iff]
          refine ⟨?_, hpv, fun k => ?_⟩
          · rw [hkeys', hkeys₁, hslot']
            exact h.keys.congr (congrFun hslot₁)
          · rw [hsome k, hvol₁ k, hview', hview₁]
            by_cases hkk : k = key
            · subst hkk
              rw [if_pos rfl, hdl, hx]
              rfl
            · rw [if_neg hkk]
              exact h.sync k hkk

/-- **`insert_entry`** sets one key and keeps the index invariant. -/
theorem insertEntry_spec (key : Bytes) (entry : Entry) :
    Act.Sat (insertEntry key entry) e s w
      (fun _ s' w' => w' = w ∧
        s'.view = Function.update s.view key (some (entry.value, entry.expireAt)) ∧
        (Indexed s → Indexed s'))
      (OutOfRange s) := by
  unfold insertEntry
  rw [Act.sat_bind, Act.sat_get]
  have finish : ∀ s₁ : Store,
      s₁.view = Function.update s.view key (some (entry.value, entry.expireAt)) →
      (Indexed s → IndexedBut s₁ key) →
      Act.Sat (syncVolatile key) e s₁ w (fun _ s' w' => w' = w ∧
        s'.view = Function.update s.view key (some (entry.value, entry.expireAt)) ∧
        (Indexed s → Indexed s')) (OutOfRange s) := by
    intro s₁ hview₁ hbut
    refine Act.sat_mono (syncVolatile_spec key (R := OutOfRange s) ?_) ?_ (fun _ h => h)
    · exact fun hn => ⟨rfl, fun h => hn (hbut h)⟩
    · rintro _ s' w' ⟨rfl, hview', hidx⟩
      exact ⟨rfl, hview'.trans hview₁, fun h => hidx (hbut h)⟩
  have hview : ∀ entry' : Entry, entry'.value = entry.value → entry'.expireAt = entry.expireAt →
      ∀ k, ((s.map.insert key entry').lookup k).map (fun e => (e.value, e.expireAt)) =
        Function.update s.view key (some (entry.value, entry.expireAt)) k := by
    intro entry' h1 h2 k
    rw [Assoc.lookup_insert_eq, Function.update_apply]
    split
    · simp [h1, h2]
    · rfl
  have hother : ∀ entry' : Entry, entry'.value = entry.value → entry'.expireAt = entry.expireAt →
      ∀ k, k ≠ key → hasDeadline (fun k => ((s.map.insert key entry').lookup k).map
        fun e => (e.value, e.expireAt)) k = hasDeadline s.view k := by
    intro entry' h1 h2 k hk
    unfold hasDeadline
    dsimp only
    rw [hview entry' h1 h2 k, Function.update_of_ne hk]
  cases hp : s.map.lookup key with
  | some previous =>
    -- an overwrite keeps both positions
    simp only [Act.sat_bind, Act.sat_set]
    have hkeep : ∀ {β : Type} (g : Entry → β),
        g (entry.placedAt previous.slot previous.volatileSlot) = g previous → ∀ k,
        ((s.map.insert key (entry.placedAt previous.slot previous.volatileSlot)).lookup k).map g =
          (s.map.lookup k).map g := by
      intro β g hg k
      rw [Assoc.lookup_insert_eq]
      split
      · rename_i hk
        rw [hk, hp, Option.map_some, Option.map_some, hg]
      · rfl
    refine finish _ (funext (hview _ rfl rfl)) fun h => ?_
    rw [indexed_iff] at h
    have hvol : ∀ k, volatileSlotOf (Store.mk (s.map.insert key
        (entry.placedAt previous.slot previous.volatileSlot)) s.keys s.volatile s.clock s.started
        s.dirty s.expired s.lookupHits s.lookupMisses) k = s.volatileSlotOf k := by
      intro k
      rw [volatileSlotOf_eq, volatileSlotOf_eq]
      exact congrArg Option.join (hkeep Entry.volatileSlot rfl k)
    refine ⟨h.1.congr (hkeep Entry.slot rfl), h.2.1.congr hvol, fun k hk => ?_⟩
    rw [hvol k, h.2.2 k]
    exact (hother (entry.placedAt previous.slot previous.volatileSlot) rfl rfl k hk).symm
  | none =>
    -- a fresh key is appended
    simp only [Act.sat_bind, Act.sat_set]
    refine finish _ (funext (hview _ rfl rfl)) fun h => ?_
    rw [indexed_iff] at h
    have hslot : ∀ k, ((s.map.insert key (entry.placedAt s.keys.length none)).lookup k).map
        Entry.slot = if k = key then some s.keys.length else s.slotOf k := by
      intro k
      rw [Assoc.lookup_insert_eq]
      split <;> rfl
    have hvol : ∀ k, ((s.map.insert key (entry.placedAt s.keys.length none)).lookup k).bind
        Entry.volatileSlot = s.volatileSlotOf k := by
      intro k
      rw [Assoc.lookup_insert_eq]
      split
      · rename_i hk
        subst hk
        simp [Entry.placedAt, volatileSlotOf, hp]
      · rfl
    refine ⟨(h.1.push (by simp [slotOf, hp])).congr hslot, h.2.1.congr hvol, fun k hk => ?_⟩
    refine (congrArg Option.isSome (hvol k)).trans ((h.2.2 k).trans ?_)
    exact (hother (entry.placedAt s.keys.length none) rfl rfl k hk).symm

/-- A change of entries that leaves deadlines and positions alone keeps the invariant. -/
theorem Indexed.adjust {key : Bytes} {f : Entry → Entry} (h : Indexed s)
    (hf : ∀ entry, ((f entry).expireAt, (f entry).slot, (f entry).volatileSlot) =
      (entry.expireAt, entry.slot, entry.volatileSlot)) : Indexed (adjustEntry key f s) := by
  have hsplit := map_lookup_adjust
    (g := fun entry => (entry.expireAt, entry.slot, entry.volatileSlot)) hf key s.map
  have hslot : ∀ k, (adjustEntry key f s).slotOf k = s.slotOf k := by
    intro k
    have := congrArg (Option.map fun p => p.2.1) (hsplit k)
    rwa [Option.map_map, Option.map_map] at this
  have hvol : ∀ k, (adjustEntry key f s).volatileSlotOf k = s.volatileSlotOf k := by
    intro k
    rw [volatileSlotOf_eq, volatileSlotOf_eq]
    have := congrArg (Option.map fun p => p.2.2) (hsplit k)
    rw [Option.map_map, Option.map_map] at this
    exact congrArg Option.join this
  have hdl : ∀ k, hasDeadline (adjustEntry key f s).view k = hasDeadline s.view k := by
    intro k
    have := congrArg (fun x => (x.bind fun p => p.1).isSome) (hsplit k)
    unfold hasDeadline view adjustEntry
    rw [Option.bind_map, Option.bind_map]
    simpa [Option.bind_map, Function.comp_def] using this
  rw [indexed_iff] at h ⊢
  exact ⟨h.1.congr hslot, h.2.1.congr hvol, fun k => by rw [hvol k, hdl k]; exact h.2.2 k⟩

/-- Fields outside the map and the vectors do not matter. -/
theorem Indexed.congr {s' : Store} (h : Indexed s) (hm : s'.map = s.map) (hk : s'.keys = s.keys)
    (hv : s'.volatile = s.volatile) : Indexed s' := by
  obtain ⟨map, keys, volatile, _, _, _, _, _, _⟩ := s'
  cases hm
  cases hk
  cases hv
  exact ⟨h.keys_nodup, h.mem_keys, h.slot, h.volatile_nodup, h.mem_volatile, h.volatile_slot, h.stable⟩

/-- **Writing a deadline** (`e.expire_at = at` and `sync_volatile`). -/
theorem setExpiry_spec (key : Bytes) (deadline : Option SystemTime) :
    Act.Sat (syncVolatile key) e (adjustEntry key (fun e => { e with expireAt := deadline }) s) w
      (fun _ s' w' => w' = w ∧
        s'.view = Function.update s.view key ((s.view key).map fun p => (p.1, deadline)) ∧
        (Indexed s → Indexed s'))
      (OutOfRange s) := by
  have hview : (adjustEntry key (fun e => { e with expireAt := deadline }) s).view =
      Function.update s.view key ((s.view key).map fun p => (p.1, deadline)) := by
    funext k
    unfold view adjustEntry
    rw [Assoc.lookup_adjust, Function.update_apply]
    by_cases hk : k = key
    · subst hk
      rw [if_pos rfl, if_pos rfl, Option.map_map, Option.map_map]
      rfl
    · rw [if_neg hk, if_neg hk]
  have hbut : Indexed s → IndexedBut (adjustEntry key (fun e => { e with expireAt := deadline }) s) key := by
    intro h
    rw [indexed_iff] at h
    have hslot : ∀ k, (adjustEntry key (fun e => { e with expireAt := deadline }) s).slotOf k =
        s.slotOf k := congrFun (slotOf_adjust fun _ => rfl)
    have hvol : ∀ k, (adjustEntry key (fun e => { e with expireAt := deadline }) s).volatileSlotOf k =
        s.volatileSlotOf k := congrFun (volatileSlotOf_adjust fun _ => rfl)
    refine ⟨h.1.congr hslot, h.2.1.congr hvol, fun k hk => ?_⟩
    rw [hvol k, h.2.2 k, hview]
    unfold hasDeadline
    rw [Function.update_of_ne hk]
  refine Act.sat_mono (syncVolatile_spec key (R := OutOfRange s) ?_) ?_ (fun _ h => h)
  · exact fun hn => ⟨rfl, fun h => hn (hbut h)⟩
  · rintro _ s' w' ⟨rfl, hview', hidx⟩
    exact ⟨rfl, hview'.trans hview, fun h => hidx (hbut h)⟩

/-- `w'` is `w` after `n` more readings of the wall clock; the files are the same. -/
structure Later (n : Nat) (w w' : World) : Prop where
  ticks : w'.ticks = w.ticks + n
  ios : w'.ios = w.ios
  files : w'.files = w.files

theorem Later.refl (w : World) : Later 0 w w := ⟨rfl, rfl, rfl⟩

theorem Later.trans {m n : Nat} {w₁ w₂ w₃ : World} (h : Later m w₁ w₂) (h' : Later n w₂ w₃) :
    Later (m + n) w₁ w₃ :=
  ⟨by rw [h'.ticks, h.ticks]; omega, h'.ios.trans h.ios, h'.files.trans h.files⟩

theorem Later.tick (w : World) : Later 1 w { w with ticks := w.ticks + 1 } := ⟨rfl, rfl, rfl⟩

theorem recordHit_spec {σ : Type} {t : σ} (a : Access) (clock m : Nat) :
    Act.Sat (a.recordHit clock m) e t w (fun _ t' w' => t' = t ∧ Later 0 w w') (fun _ => False) := by
  unfold Access.recordHit
  simp only [Act.sat_ite, Act.sat_pure, Act.sat_bind, unitInterval, sat_nextU64]
  exact ⟨fun _ => ⟨trivial, .refl _⟩, fun _ => ⟨trivial, rfl, rfl, rfl⟩⟩

theorem minute_spec : Act.Sat minute e s w (fun _ s' w' => s' = s ∧ Later 0 w w') (fun _ => False) := by
  unfold minute
  simp only [Act.sat_bind, sat_instantNow, Act.sat_get, Act.sat_pure]
  exact ⟨trivial, rfl, rfl, rfl⟩

/-- **`touch`** changes no value and no deadline. -/
theorem touch_spec (key : Bytes) :
    Act.Sat (touch key) e s w (fun _ s' w' => Later 0 w w' ∧ s'.view = s.view ∧
      (Indexed s → Indexed s')) (fun _ => False) := by
  unfold touch
  simp only [Act.sat_bind, Act.sat_modify]
  refine Act.sat_mono minute_spec ?_ (fun _ h => h)
  rintro m s₁ w₁ ⟨rfl, hw₁⟩
  have hidx : Indexed s → Indexed { s with clock := s.clock + 1 } := fun h => h.congr rfl rfl rfl
  rw [Act.sat_get]
  dsimp only
  cases he : s.map.lookup key with
  | none =>
    simp only [Act.sat_pure]
    exact ⟨hw₁, rfl, hidx⟩
  | some entry =>
    simp only [Act.sat_bind]
    refine Act.sat_mono (recordHit_spec _ _ _) ?_ (fun _ h => h)
    rintro access s₂ w₂ ⟨rfl, hw₂⟩
    rw [Act.sat_modify]
    refine ⟨hw₁.trans hw₂, ?_, fun h => (hidx h).adjust fun _ => rfl⟩
    exact view_adjust (fun _ => rfl)

end Store

end Klyro
