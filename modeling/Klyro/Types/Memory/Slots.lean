import Klyro.Lib.Splice
import Klyro.Lib.Totals
import Klyro.Types.Memory.Index

/-!
# Slots of the vector index (`types/memory/vector.rs`)

* `write_get`, `remove_get` — what a write and a removal do to every slot.
* `VectorIndex.Holds` — the slots in use and the free ones are all there are, each once.
* `insert_holds`, `overwrite_holds`, `remove_holds` — the operations keep that, touch no other slot,
  and never leave the array.
-/

set_option autoImplicit false

namespace Klyro

namespace VectorIndex

variable {e : Env} {w : World} {v v' : VectorIndex} {slot : Nat} {values : List F32} {held : List Nat}

theorem length_prepare (v : VectorIndex) (values : List F32) :
    (v.prepare values).length = values.length := by
  unfold VectorIndex.prepare normalized
  split
  · dsimp only
    split <;> simp
  · rfl

/-! ## One slot -/

/-- An array of the same size in which only `slot` may differ. -/
structure OnlySlot (v v' : VectorIndex) (slot : Nat) : Prop where
  length : v'.data.length = v.data.length
  dim : v'.dim = v.dim
  metric : v'.metric = v.metric
  others : ∀ s, s ≠ slot → v'.get s = v.get s

theorem get_eq_window (v : VectorIndex) (s : Nat) : v.get s =
    if s * v.dim + v.dim ≤ v.data.length then some (window v.data (s * v.dim) v.dim) else none := rfl

theorem onlySlot_splice {written : List F32} (hlen : written.length = v.dim)
    (hfit : slot * v.dim + v.dim ≤ v.data.length) (hdim : v'.dim = v.dim) (hmetric : v'.metric = v.metric)
    (hdata : v'.data = splice v.data (slot * v.dim) written) : OnlySlot v v' slot := by
  have hfit' : slot * v.dim + written.length ≤ v.data.length := by rw [hlen]; exact hfit
  refine ⟨by rw [hdata, length_splice hfit'], hdim, hmetric, fun s hs => ?_⟩
  rw [get_eq_window, get_eq_window, hdim, hdata, length_splice hfit',
    window_splice_of_disjoint hfit' (by rw [hlen]; exact slots_apart hs)]

/-- **A write** puts the prepared values in its slot; it panics only out of range or for values of
another length. -/
theorem write_get (slot : Nat) (values : List F32) : Act.Sat (write slot values) e v w
    (fun _ v' w' => w' = w ∧ OnlySlot v v' slot ∧ v'.free = v.free ∧ v'.live = v.live ∧
      v'.get slot = some (v.prepare values))
    (fun _ => ¬ (slot * v.dim + v.dim ≤ v.data.length ∧ values.length = v.dim)) := by
  unfold write
  simp only [Act.sat_bind, Act.sat_get, Act.sat_ite, Act.sat_set, Act.sat_panic]
  refine ⟨fun h => ?_, fun h => h⟩
  obtain ⟨hfit, hlen⟩ := h
  have hprepared : (v.prepare values).length = v.dim := (length_prepare v values).trans hlen
  have hdata : v.data.take (slot * v.dim) ++ v.prepare values ++ v.data.drop (slot * v.dim + v.dim) =
      splice v.data (slot * v.dim) (v.prepare values) := by
    unfold splice
    rw [hprepared]
  have hfit' : slot * v.dim + (v.prepare values).length ≤ v.data.length := by rw [hprepared]; exact hfit
  refine ⟨trivial, onlySlot_splice hprepared hfit rfl rfl hdata, trivial, trivial, ?_⟩
  have hwritten := window_splice_self hfit'
  rw [hprepared] at hwritten
  rw [get_eq_window]
  dsimp only
  rw [hdata, length_splice hfit', if_pos hfit, hwritten]

theorem remove_get (v : VectorIndex) (slot : Nat) : OnlySlot v (v.remove slot) slot := by
  unfold remove
  dsimp only
  split
  · exact ⟨rfl, rfl, rfl, fun _ _ => rfl⟩
  · rename_i hin
    rw [not_or, Nat.not_lt] at hin
    refine onlySlot_splice (List.length_replicate : (List.replicate v.dim (SoftFloat.zero false : F32)).length = _)
      hin.1 rfl rfl ?_
    unfold splice
    rw [List.length_replicate]

/-! ## All slots -/

/-- The slots in use and the free ones are those of the array, each of them once. -/
structure Holds (v : VectorIndex) (held : List Nat) : Prop where
  dim : 0 < v.dim
  slots : ∃ n, v.data.length = n * v.dim ∧ (held ++ v.free).Perm (List.range n)
  live : v.live = held.length
  room : 4 * v.data.length ≤ isizeMax

theorem holds_new {dim : Nat} (hdim : 0 < dim) (metric : Metric) :
    Holds { dim := dim, metric := metric } [] where
  dim := hdim
  slots := ⟨0, by simp, by simp⟩
  live := rfl
  room := by simp

theorem Holds.perm {held' : List Nat} (h : v.Holds held) (hperm : held.Perm held') : v.Holds held' := by
  obtain ⟨n, hdata, hslots⟩ := h.slots
  exact ⟨h.dim, ⟨n, hdata, (hperm.symm.append_right _).trans hslots⟩, h.live.trans hperm.length_eq, h.room⟩

/-- A slot in use or free lies within the array. -/
theorem Holds.fits (h : v.Holds held) {s : Nat} (hs : s ∈ held ++ v.free) :
    s * v.dim + v.dim ≤ v.data.length := by
  obtain ⟨n, hdata, hslots⟩ := h.slots
  have hlt : s < n := List.mem_range.mp (hslots.mem_iff.mp hs)
  rw [hdata, ← Nat.succ_mul]
  exact Nat.mul_le_mul_right _ hlt

theorem Holds.nodup (h : v.Holds held) : (held ++ v.free).Nodup := by
  obtain ⟨n, -, hslots⟩ := h.slots
  exact hslots.nodup_iff.mpr List.nodup_range

theorem Holds.size (h : v.Holds held) : v.data.length = v.dim * (v.live + v.free.length) := by
  obtain ⟨n, hdata, hslots⟩ := h.slots
  have hn := hslots.length_eq
  rw [List.length_append, List.length_range] at hn
  rw [hdata, h.live, hn, Nat.mul_comm]

theorem Holds.live_le (h : v.Holds held) : v.live ≤ u64Max := by
  have hsize := h.size
  have hle : v.live ≤ v.data.length := by
    rw [hsize]
    calc v.live ≤ v.live + v.free.length := Nat.le_add_right _ _
      _ ≤ v.dim * (v.live + v.free.length) := Nat.le_mul_of_pos_left _ h.dim
  have hroom := h.room
  unfold isizeMax at hroom
  unfold u64Max
  omega

/-- **An insertion** takes a free slot or a new one; it fails only where no array is that large. -/
theorem insert_holds (h : v.Holds held) (hlen : values.length = v.dim) :
    Act.Sat (insert values) e v w (fun slot v' w' => w' = w ∧ v'.Holds (slot :: held) ∧ v'.dim = v.dim ∧
      v'.metric = v.metric ∧ v'.get slot = some (v.prepare values) ∧ ∀ s ∈ held, v'.get s = v.get s)
      (· = .capacity) := by
  obtain ⟨n, hdata, hslots⟩ := h.slots
  -- the slot that was taken is written, whichever it is
  have hwrite : ∀ (v₁ : VectorIndex) (slot : Nat), v₁.dim = v.dim → v₁.metric = v.metric →
      v₁.live = v.live + 1 → 4 * v₁.data.length ≤ isizeMax →
      (∃ n, v₁.data.length = n * v.dim ∧ (slot :: (held ++ v₁.free)).Perm (List.range n)) →
      (∀ s ∈ held, v₁.get s = v.get s) →
      Act.Sat (write slot values) e v₁ w (fun _ v' w' => w' = w ∧
        v'.Holds (slot :: held) ∧ v'.dim = v.dim ∧ v'.metric = v.metric ∧
          v'.get slot = some (v.prepare values) ∧ ∀ s ∈ held, v'.get s = v.get s) (· = .capacity) := by
    intro v₁ slot hdim hmetric hlive hroom hslots hsame
    obtain ⟨n, hdata, hperm⟩ := hslots
    have hlt : slot < n := List.mem_range.mp (hperm.mem_iff.mp List.mem_cons_self)
    have hfit : slot * v₁.dim + v₁.dim ≤ v₁.data.length := by
      rw [hdata, hdim, ← Nat.succ_mul]
      exact Nat.mul_le_mul_right _ hlt
    have hnew : slot ∉ held := by
      have hnodup := hperm.nodup_iff.mpr List.nodup_range
      rw [List.nodup_cons, List.mem_append, not_or] at hnodup
      exact hnodup.1.1
    refine Act.sat_mono (write_get slot values) ?_ fun _ hout =>
      absurd ⟨hfit, hlen.trans hdim.symm⟩ hout
    rintro _ v' w' ⟨hw, honly, hfree, hlive', hget⟩
    refine ⟨hw, ⟨?_, ⟨n, ?_, ?_⟩, ?_, ?_⟩, honly.dim.trans hdim, honly.metric.trans hmetric, ?_, ?_⟩
    · rw [honly.dim, hdim]
      exact h.dim
    · rw [honly.length, honly.dim, hdim, hdata]
    · rw [hfree, List.cons_append]
      exact hperm
    · rw [hlive', hlive, h.live, List.length_cons]
    · rw [honly.length]
      exact hroom
    · rw [hget]
      unfold prepare
      rw [hmetric]
    · intro s hs
      have hne : s ≠ slot := fun heq => hnew (heq ▸ hs)
      rw [honly.others s hne, hsame s hs]
  unfold insert takeSlot
  rw [Act.sat_bind, Act.sat_bind, Act.sat_get]
  cases hlast : v.free.getLast? with
  | some slot =>
    obtain ⟨init, hfree⟩ := List.getLast?_eq_some_iff.mp hlast
    simp only [Act.sat_bind, Act.sat_set, Act.sat_pure, Act.sat_modify]
    have hdrop : v.free.dropLast = init := by rw [hfree, List.dropLast_concat]
    refine hwrite { v with free := v.free.dropLast, live := v.live + 1 } slot rfl rfl rfl h.room ⟨n, hdata, ?_⟩ fun s _ => rfl
    show (slot :: (held ++ v.free.dropLast)).Perm (List.range n)
    rw [hdrop]
    rw [hfree, ← List.append_assoc] at hslots
    exact (List.perm_append_singleton slot (held ++ init)).symm.trans hslots
  | none =>
    have hfree : v.free = [] := List.getLast?_eq_none_iff.mp hlast
    have hlength : (v.data ++ List.replicate v.dim (SoftFloat.zero false)).length = (n + 1) * v.dim := by
      rw [List.length_append, List.length_replicate, hdata, Nat.succ_mul]
    have hnew : (v.data ++ List.replicate v.dim (SoftFloat.zero false)).length / v.dim - 1 = n := by
      rw [hlength, Nat.mul_div_cancel _ h.dim, Nat.add_sub_cancel]
    have hzero : ¬ v.dim = 0 := Nat.pos_iff_ne_zero.mp h.dim
    simp only [Act.sat_bind, Act.sat_ite, Act.sat_set, Act.sat_pure, Act.sat_modify, Act.sat_panic]
    refine ⟨fun _ => trivial, fun hfits => ⟨fun hdim => absurd hdim hzero, fun _ => ?_⟩⟩
    rw [hnew]
    refine hwrite { v with
      data := v.data ++ List.replicate v.dim (SoftFloat.zero false), live := v.live + 1 } n rfl rfl rfl ?_
        ⟨n + 1, hlength, ?_⟩ fun s hs => ?_
    · show 4 * (v.data ++ List.replicate v.dim (SoftFloat.zero false)).length ≤ isizeMax
      rw [List.length_append, List.length_replicate]
      omega
    · show (n :: (held ++ v.free)).Perm (List.range (n + 1))
      rw [List.range_succ]
      exact (hslots.cons n).trans (List.perm_append_singleton n (List.range n)).symm
    · have hfit := h.fits (List.mem_append_left v.free hs)
      have hfit' : s * v.dim + v.dim ≤ (v.data ++ List.replicate v.dim (SoftFloat.zero false)).length := by
        rw [List.length_append]
        omega
      rw [get_eq_window, get_eq_window]
      dsimp only
      rw [if_pos hfit, if_pos hfit']
      unfold window
      rw [List.drop_append_of_le_length (by omega), List.take_append_of_le_length]
      rw [List.length_drop]
      omega

/-- **A vector is appended** in a slot of its own. -/
theorem append_holds (h : v.Holds held) (hlen : values.length = v.dim)
    (hroom : 4 * (v.data.length + v.dim) ≤ isizeMax)
    (hv' : v' = { v with data := v.data ++ v.prepare values, live := v.live + 1 }) :
    v'.Holds (v.data.length / v.dim :: held) ∧
      v'.get (v.data.length / v.dim) = some (v.prepare values) ∧ ∀ s ∈ held, v'.get s = v.get s := by
  obtain ⟨n, hdata, hslots⟩ := h.slots
  have hprepared : (v.prepare values).length = v.dim := (length_prepare v values).trans hlen
  have hlength : (v.data ++ v.prepare values).length = (n + 1) * v.dim := by
    rw [List.length_append, hprepared, hdata, Nat.succ_mul]
  have hslot : v.data.length / v.dim = n := by rw [hdata, Nat.mul_div_cancel _ h.dim]
  rw [hslot, hv']
  refine ⟨⟨h.dim, ⟨n + 1, hlength, ?_⟩, ?_, ?_⟩, ?_, fun s hs => ?_⟩
  · show (n :: (held ++ v.free)).Perm (List.range (n + 1))
    rw [List.range_succ]
    exact (hslots.cons n).trans (List.perm_append_singleton n (List.range n)).symm
  · show v.live + 1 = (n :: held).length
    rw [h.live, List.length_cons]
  · show 4 * (v.data ++ v.prepare values).length ≤ isizeMax
    rw [List.length_append, hprepared]
    exact hroom
  · rw [get_eq_window]
    dsimp only
    rw [hlength, if_pos (Nat.succ_mul n v.dim).ge]
    unfold window
    rw [← hdata, List.drop_left, ← hprepared, List.take_length]
  · have hfit := h.fits (List.mem_append_left v.free hs)
    have hfit' : s * v.dim + v.dim ≤ (v.data ++ v.prepare values).length := by
      rw [List.length_append]
      omega
    rw [get_eq_window, get_eq_window]
    dsimp only
    rw [if_pos hfit, if_pos hfit']
    unfold window
    rw [List.drop_append_of_le_length (by omega), List.take_append_of_le_length]
    rw [List.length_drop]
    omega

/-- **An overwrite** of a slot in use. -/
theorem overwrite_holds (h : v.Holds held) (hslot : slot ∈ held) (hlen : values.length = v.dim) :
    Act.Sat (overwrite slot values) e v w (fun _ v' w' => w' = w ∧ v'.Holds held ∧ OnlySlot v v' slot ∧
      v'.get slot = some (v.prepare values)) (fun _ => False) := by
  have hfit := h.fits (List.mem_append_left _ hslot)
  refine Act.sat_mono (write_get slot values) ?_ (fun _ hout => hout ⟨hfit, hlen⟩)
  rintro _ v' w' ⟨hw, honly, hfree, hlive, hget⟩
  refine ⟨hw, ⟨?_, ?_, ?_, ?_⟩, honly, hget⟩
  · rw [honly.dim]
    exact h.dim
  · rw [honly.length, honly.dim, hfree]
    exact h.slots
  · rw [hlive]
    exact h.live
  · rw [honly.length]
    exact h.room

/-- **A removal** of a slot in use frees it; the count does not pass below zero. -/
theorem remove_holds (h : v.Holds (slot :: held)) :
    (v.remove slot).Holds held ∧ 0 < v.live ∧ OnlySlot v (v.remove slot) slot := by
  have honly := remove_get v slot
  have hfit := h.fits (List.mem_append_left _ List.mem_cons_self)
  have hnot : slot ∉ v.free := by
    have hnodup := h.nodup
    rw [List.cons_append, List.nodup_cons, List.mem_append, not_or] at hnodup
    exact hnodup.1.2
  have hlive : v.live = held.length + 1 := h.live
  have hremoved : (v.remove slot).free = v.free ++ [slot] ∧ (v.remove slot).live = held.length := by
    have hle := h.live_le
    unfold remove
    dsimp only
    rw [if_neg (by rw [not_or, Nat.not_lt]; exact ⟨hfit, hnot⟩)]
    refine ⟨rfl, ?_⟩
    dsimp only
    unfold wrapSubU64
    unfold u64Max at hle ⊢
    omega
  refine ⟨⟨?_, ?_, hremoved.2, ?_⟩, by omega, honly⟩
  · rw [honly.dim]
    exact h.dim
  · obtain ⟨n, hdata, hslots⟩ := h.slots
    refine ⟨n, by rw [honly.length, honly.dim, hdata], ?_⟩
    rw [hremoved.1, ← List.append_assoc]
    exact (List.perm_append_singleton slot (held ++ v.free)).trans hslots
  · rw [honly.length]
    exact h.room

end VectorIndex

end Klyro
