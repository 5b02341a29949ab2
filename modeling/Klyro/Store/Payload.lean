import Klyro.Lib.Totals
import Klyro.Store.Glances

/-!
# How much a keyspace holds

* `Value.heldBytes`, `Memory.heldBytes` — the bytes of a value: of its elements, fields and members, of
  its records with their vectors.
* `Store.payload` — the bytes of a keyspace, its keys included.
* `Shrinks` — no key weighs more than before; `Shrinks.payload_le` turns it into the total.
* `del_shrinks`, `write_shrinks`, .. — the operations that take away.
-/

set_option autoImplicit false

namespace Klyro

/-! ## Payloads -/

/-- The bytes of a list of elements. -/
def bytesOf (items : List Bytes) : Nat := (items.map List.length).sum

/-- The bytes of a list of pairs. -/
def metaBytes (pairs : List (Bytes × Bytes)) : Nat := (pairs.map fun p => p.1.length + p.2.length).sum

/-- The bytes of a score, an `f64`. -/
def scoreBytes : Nat := 8

/-- The bytes of the vector in a slot: four for each number. -/
def VectorIndex.slotBytes (v : VectorIndex) (slot : Option Nat) : Nat :=
  match slot.bind v.get with
  | some values => 4 * values.length
  | none => 0

/-- The bytes of a record: its id, its text, its metadata and its vector. -/
def Memory.recordBytes (v : VectorIndex) (p : Bytes × MemoryRecord) : Nat :=
  p.1.length + p.2.text.length + metaBytes p.2.metadata + v.slotBytes p.2.slot

/-- The bytes of the records of a memory index. -/
def Memory.heldBytes (m : Memory) : Nat := Assoc.total (recordBytes m.vectors) m.records

/-- The bytes of a value. -/
def Value.heldBytes : Value → Nat
  | .str s => s.length
  | .list l => bytesOf l
  | .hash h => Assoc.total (fun p => p.1.length + p.2.length) h
  | .set s => Assoc.total (fun p => p.1.length) s
  | .zset z => (z.entries.map fun p => p.1.length + scoreBytes).sum
  | .memory m => m.heldBytes

/-- What a key weighs with what it holds. -/
def weight (key : Bytes) : Option (Value × Option SystemTime) → Nat
  | some (x, _) => key.length + x.heldBytes
  | none => 0

namespace Store

open Keyspace

variable {α τ : Type} {e : Env} {s s' s'' : Store} {w : World} {key : Bytes}

/-- **The payload of a keyspace.** -/
def payload (s : Store) : Nat :=
  Assoc.total (fun p => p.1.length + p.2.value.heldBytes) s.map

/-- No key weighs more than before. -/
def Shrinks (s s' : Store) : Prop := ∀ k, weight k (s'.view k) ≤ weight k (s.view k)

instance : IsPreorder Store Shrinks where
  refl _ _ := le_rfl
  trans _ _ _ h h' k := (h' k).trans (h k)

theorem weightAt_eq_weight (s : Store) (k : Bytes) :
    Assoc.weightAt (fun p : Bytes × Entry => p.1.length + p.2.value.heldBytes) s.map k =
      weight k (s.view k) := by
  unfold Assoc.weightAt
  rw [view_eq_map]
  cases s.map.lookup k with
  | none => rfl
  | some entry => rfl

/-- **A keyspace in which no key weighs more holds no more.** -/
theorem Shrinks.payload_le (h : Shrinks s s') : s'.payload ≤ s.payload := by
  apply Assoc.total_le_total
  intro k
  rw [weightAt_eq_weight, weightAt_eq_weight]
  exact h k

theorem Glances.shrinks (h : Glances s s') : Shrinks s s' := by
  intro k
  rcases h.kept k with hk | hk
  · rw [hk]
  · rw [hk]
    exact Nat.zero_le _

theorem Shrinks.of_view (h : s'.view = s.view) : Shrinks s s' := by
  intro k
  rw [h]

theorem Shrinks.of_update {x : Option (Value × Option SystemTime)}
    (h : s'.view = Function.update s.view key x) (hx : weight key x ≤ weight key (s.view key)) :
    Shrinks s s' := by
  intro k
  rw [h]
  by_cases hk : k = key
  · subst hk
    rwa [Function.update_self]
  · rw [Function.update_of_ne hk]

theorem weight_liveAt_le (K : Keyspace) (t : SystemTime) (k : Bytes) :
    weight k (K.liveAt t k) ≤ weight k (K k) := by
  unfold liveAt
  split
  · exact Nat.zero_le _
  · exact le_rfl

theorem Shrinks.of_expire {t : SystemTime} (h : s'.view = s.view.expire t key) : Shrinks s s' :=
  .of_update h (weight_liveAt_le _ _ _)

/-! ## What takes away -/

theorem shrinks_of_glances {m : Run Store α} (h : Act.Within Glances m) : Act.Within Shrinks m :=
  h.mono fun _ _ h => h.shrinks

theorem markDirty_shrinks : Act.Within Shrinks markDirty := Act.within_modify fun _ => .of_view rfl

theorem flush_shrinks : Act.Within Shrinks flush := fun _ _ _ _ => Nat.zero_le _

theorem del_shrinks (key : Bytes) : Act.Within Shrinks (del key) := by
  intro e s w
  refine Act.sat_mono (del_spec key) ?_ (fun _ _ => trivial)
  rintro _ s' w' ⟨-, -, hview, -⟩
  exact .of_update hview (Nat.zero_le _)

theorem evict_shrinks (key : Bytes) : Act.Within Shrinks (evict key) := by
  intro e s w
  refine Act.sat_mono (evict_spec key) ?_ (fun _ _ => trivial)
  rintro _ s' w' ⟨-, -, hview, -⟩
  exact .of_update hview (Nat.zero_le _)

theorem weight_unlessEmpty_le (x : Option (Value × Option SystemTime)) :
    weight key (unlessEmpty x) ≤ weight key x := by
  cases x with
  | none => exact le_rfl
  | some p =>
    unfold unlessEmpty
    dsimp only
    split
    · exact Nat.zero_le _
    · exact le_rfl

theorem deleteIfEmpty_shrinks (key : Bytes) : Act.Within Shrinks (deleteIfEmpty key) := by
  intro e s w
  refine Act.sat_mono (deleteIfEmpty_spec key) ?_ (fun _ _ => trivial)
  rintro _ s' w' ⟨-, hview, -⟩
  exact .of_update hview ((weight_unlessEmpty_le _).trans (weight_liveAt_le _ _ _))

theorem setExpireAt_shrinks (key : Bytes) (deadline : Option SystemTime) :
    Act.Within Shrinks (setExpireAt key deadline) := by
  intro e s w
  refine Act.sat_mono (setExpireAt_spec key deadline) ?_ (fun _ _ => trivial)
  rintro _ s' w' ⟨-, -, hview, -⟩
  refine .of_update hview (le_trans ?_ (weight_liveAt_le s.view (e.clock w.ticks) key))
  cases s.view.liveAt (e.clock w.ticks) key with
  | none => exact le_rfl
  | some p => exact le_rfl

/-- The second value of a variant weighs no more than the first. -/
def Lighter (V : Variant τ) (v v' : τ) : Prop := (V.wrap v').heldBytes ≤ (V.wrap v).heldBytes

instance (V : Variant τ) : IsPreorder τ (Lighter V) where
  refl _ := Nat.le_refl _
  trans _ _ _ h h' := Nat.le_trans h' h

theorem setValue_shrinks {t : SystemTime} {V : Variant τ} {v v' : τ} {d : Option SystemTime}
    (hlive : s.view.liveAt t key = some (V.wrap v, d)) (hview : s'.view = s.view.expire t key)
    (h : Lighter V v v') : Shrinks s (setValue key (V.wrap v') s') := by
  have hput : (setValue key (V.wrap v') s').view = Function.update s.view key (some (V.wrap v', d)) := by
    rw [view_setValue, hview, expire_self, hlive, update_expire]
    rfl
  apply Shrinks.of_update hput
  refine le_trans ?_ (weight_liveAt_le s.view t key)
  rw [hlive]
  exact Nat.add_le_add_left h _

theorem write_shrinks {V : Variant τ} {use : Run τ α} (huse : Act.Within (Lighter V) use) (key : Bytes) :
    Act.Within Shrinks (write V key use) := by
  intro e s w
  refine sat_write (fun _ _ => trivial) ?_ ?_
  · exact fun s' w' _ _ hview _ => .of_expire hview
  · intro v d s' w' _ hlive hview _
    refine Act.sat_mono (huse e v w') ?_ (fun _ h => h)
    exact fun _ v' _ h => setValue_shrinks hlive hview h

theorem existingMemory_shrinks {use : Run Memory α} (huse : Act.Within (Lighter .memory) use)
    (key : Bytes) : Act.Within Shrinks (existingMemory key use) := by
  intro e s w
  refine sat_existingMemory (fun _ _ => trivial) ?_ ?_
  · exact fun s' w' _ _ hview _ => .of_expire hview
  · intro m d s' w' _ hlive hview _
    refine Act.sat_mono (huse e m w') ?_ (fun _ h => h)
    exact fun _ m' _ h => setValue_shrinks (V := .memory) hlive hview h

end Store

end Klyro
