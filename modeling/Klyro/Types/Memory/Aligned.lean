import Klyro.Lib.Integers
import Klyro.Types.Memory.Fused

/-!
# Ranks and components, row by row

* `ranks_better` — a rank is one more than the number of better scores, added in `f32`;
  `rank_exact` says up to where this is exact.
* `distribute_pops` — handing the scaled scores out in order is popping them off the reversed list.
* `presentScores_place` — a row that is present has its score at its place among the present ones.
* `ranks_components_aligned` — both functions, row by row.
-/

set_option autoImplicit false

namespace Klyro

open SoftFloat

/-! ## Ranks -/

section ranks

variable {scores : List F32}

/-- The number of scores strictly greater. -/
def better (scores : List F32) (v : F32) : Nat := scores.countP fun x => v.lt x

theorem ranksWalk_length : ∀ (order : List Nat) (position : Nat) (previous : Option Nat) (rank : F32)
    (out : List F32), (ranksWalk scores order position previous rank out).length = out.length
  | [], _, _, _, _ => rfl
  | _ :: order, _, _, _, _ => (ranksWalk_length order _ _ _ _).trans List.length_set

theorem ranks_length (scores : List F32) : (ranks scores).length = scores.length := by
  unfold ranks
  rw [ranksWalk_length, List.length_replicate]

/-- **Every score has one more than the number of better ones**, added in `f32`. -/
theorem ranks_better (h : ∀ x ∈ scores, x.isNan = false) :
    ranks scores = scores.map fun v => SoftFloat.add (SoftFloat.ofInt (better scores v)) (lit "1") := by
  have hordered := ordered_f32 h
  have hranks : ranks scores = Numbers.f32.ranks scores := ranksWalk_f32 scores _ _ _ _ _
  rw [hranks, Numbers.ranks_eq hordered rank_one]
  refine List.map_congr_left fun v hv => ?_
  have hcount : better scores v = scores.countP fun x => decide (v.key < x.key) :=
    List.countP_congr fun x hx => by rw [lt_eq (h v hv) (h x hx)]
  rw [hordered.rank_eq hv, ← hcount]
  rfl

/-- The sum is exact while fewer than `2 ^ 24` scores are better. -/
theorem rank_exact {n : Nat} (h : n < 2 ^ 24) :
    IsNumber (SoftFloat.add (SoftFloat.ofInt n) (lit "1") : F32) (1 + n) := by
  have hone : (lit "1" : F32) = SoftFloat.ofInt (1 : Nat) := by decide +kernel
  have hmax : powMag ⟨24, 8⟩ (24 + Format.unitExp ⟨24, 8⟩) < Format.infMag ⟨24, 8⟩ := by decide
  rw [Nat.add_comm, hone, add_ofInt (f := ⟨24, 8⟩) (by decide) hmax h]
  exact number_ofInt (f := ⟨24, 8⟩) (by decide) hmax h

end ranks

/-! ## Components -/

section components

variable {raw : List F32} {present : List Bool} {fusion : Fusion}

/-- The last loop of `component` with the scaled scores reversed: they are popped from the back. -/
def popScaled : List Bool → List F32 → List F32
  | [], _ => []
  | true :: present, scaled =>
    scaled.getLast?.getD (SoftFloat.zero false) :: popScaled present scaled.dropLast
  | false :: present, scaled => SoftFloat.zero false :: popScaled present scaled

/-- Popping off the reversed list restores the order. -/
theorem distribute_pops : ∀ (present : List Bool) (scaled : List F32),
    popScaled present scaled.reverse = distribute present scaled
  | [], _ => rfl
  | true :: present, s :: scaled => by
    rw [popScaled, distribute, List.reverse_cons, List.getLast?_concat, List.dropLast_concat,
      distribute_pops present scaled]
    rfl
  | true :: present, [] => by
    rw [popScaled, distribute, ← distribute_pops present []]
    rfl
  | false :: present, scaled => by
    rw [popScaled, distribute, distribute_pops present scaled]

/-- The scores of the rows that are present. -/
def presentScores (raw : List F32) (present : List Bool) : List F32 :=
  ((raw.zip present).filter fun p => p.2).map Prod.fst

/-- The place of a row among those that are present. -/
def placeOf (present : List Bool) (i : Nat) : Nat := (present.take i).count true

/-- **A present row has its score at its place.** -/
theorem presentScores_place : ∀ {raw : List F32} {present : List Bool} {i : Nat} {v : F32},
    raw[i]? = some v → present[i]? = some true →
      (presentScores raw present)[placeOf present i]? = some v
  | [], _, _, _, hv, _ => by cases hv
  | _ :: _, [], _, _, _, hp => by cases hp
  | r :: raw, true :: present, 0, v, hv, _ => hv
  | r :: raw, false :: present, 0, _, _, hp => by cases hp
  | r :: raw, true :: present, i + 1, v, hv, hp => by
    have ih : (presentScores raw present)[placeOf present i]? = some v := presentScores_place hv hp
    show (r :: presentScores raw present)[(true :: present.take i).count true]? = some v
    rw [List.count_cons_self, List.getElem?_cons_succ]
    exact ih
  | r :: raw, false :: present, i + 1, v, hv, hp => by
    have ih : (presentScores raw present)[placeOf present i]? = some v := presentScores_place hv hp
    show (presentScores raw present)[(false :: present.take i).count true]? = some v
    rw [List.count_cons_of_ne (by decide)]
    exact ih

theorem distribute_length : ∀ (present : List Bool) (scaled : List F32),
    (distribute present scaled).length = present.length
  | [], _ => rfl
  | true :: present, _ :: scaled => congrArg Nat.succ (distribute_length present scaled)
  | true :: present, [] => congrArg Nat.succ (distribute_length present [])
  | false :: present, scaled => congrArg Nat.succ (distribute_length present scaled)

/-- A row that is absent gets nothing. -/
theorem distribute_absent : ∀ (present : List Bool) (scaled : List F32) (i : Nat),
    present[i]? = some false → (distribute present scaled)[i]? = some (SoftFloat.zero false)
  | [], _, _, h => by cases h
  | true :: present, _ :: scaled, i + 1, h => distribute_absent present scaled i h
  | true :: present, [], i + 1, h => distribute_absent present [] i h
  | false :: _, _, 0, _ => rfl
  | false :: present, scaled, i + 1, h => distribute_absent present scaled i h

/-- **A row that is present gets the scaled score at its place.** -/
theorem distribute_place : ∀ (present : List Bool) (scaled : List F32) (i : Nat) {s : F32},
    present[i]? = some true → scaled[placeOf present i]? = some s →
      (distribute present scaled)[i]? = some s
  | [], _, _, _, h, _ => by cases h
  | true :: present, _ :: scaled, 0, _, _, hs => hs
  | true :: present, [], _, _, _, hs => by cases hs
  | true :: present, _ :: scaled, i + 1, _, h, hs => by
    have hplace : placeOf (true :: present) (i + 1) = placeOf present i + 1 :=
      List.count_cons_self
    rw [hplace, List.getElem?_cons_succ] at hs
    exact distribute_place present scaled i h hs
  | false :: present, scaled, 0, _, h, _ => by cases h
  | false :: present, scaled, i + 1, _, h, hs => by
    have hplace : placeOf (false :: present) (i + 1) = placeOf present i :=
      List.count_cons_of_ne (by decide)
    rw [hplace] at hs
    exact distribute_place present scaled i h hs

/-- Min-max normalization of one score. -/
def minMax (values : List F32) (v : F32) : F32 :=
  let low := values.foldl SoftFloat.fmin (SoftFloat.inf false)
  let high := values.foldl SoftFloat.fmax (SoftFloat.inf true)
  if SoftFloat.lt (SoftFloat.zero false) (high.sub low) then (v.sub low).div (high.sub low) else lit "1"

/-- The reciprocal of a rank. -/
def reciprocal (r : F32) : F32 := SoftFloat.div (lit "1") (SoftFloat.add (lit "60") r)

/-- The scores that were found, scaled. -/
def scaledScores (found : List F32) : Fusion → List F32
  | .linear => found.map (minMax found)
  | .rrf => (ranks found).map reciprocal

theorem component_eq_distribute (hlen : raw.length = present.length) :
    component raw present fusion =
      if (presentScores raw present).isEmpty then List.replicate raw.length (SoftFloat.zero false)
      else distribute present (scaledScores (presentScores raw present) fusion) := by
  unfold component
  rw [List.map_snd_zip hlen.ge]
  cases fusion with
  | linear => rfl
  | rrf => rfl

theorem length_component (hlen : raw.length = present.length) :
    (component raw present fusion).length = raw.length := by
  rw [component_eq_distribute hlen]
  split
  · exact List.length_replicate
  · rw [distribute_length, hlen]

theorem component_absent (hlen : raw.length = present.length) {i : Nat}
    (hp : present[i]? = some false) :
    (component raw present fusion)[i]? = some (SoftFloat.zero false) := by
  obtain ⟨hi, -⟩ := List.getElem?_eq_some_iff.mp hp
  rw [component_eq_distribute hlen]
  split
  · exact List.getElem?_replicate_of_lt (by omega)
  · exact distribute_absent present _ i hp

/-- **A row that is present contributes the scaled score at its place.** -/
theorem component_place (hlen : raw.length = present.length) {i : Nat} {s : F32}
    (hp : present[i]? = some true)
    (hs : (scaledScores (presentScores raw present) fusion)[placeOf present i]? = some s) :
    (component raw present fusion)[i]? = some s := by
  rw [component_eq_distribute hlen]
  split
  · rename_i hempty
    rw [List.isEmpty_iff.mp hempty] at hs
    cases fusion <;> cases hs
  · exact distribute_place present _ i hp hs

/-- Row by row: the length is kept, an absent row contributes nothing, a present one has its own score
at its place and contributes this score, scaled among the present ones. -/
structure RowsAligned (raw : List F32) (present : List Bool) (fusion : Fusion) : Prop where
  length : (component raw present fusion).length = raw.length
  absent : ∀ i : Nat, present[i]? = some false →
    (component raw present fusion)[i]? = some (SoftFloat.zero false)
  place : ∀ (i : Nat) (v : F32), raw[i]? = some v → present[i]? = some true →
    (presentScores raw present)[placeOf present i]? = some v
  linear : fusion = .linear → ∀ (i : Nat) (v : F32), raw[i]? = some v → present[i]? = some true →
    (component raw present fusion)[i]? = some (minMax (presentScores raw present) v)
  rrf : fusion = .rrf → ∀ i : Nat, present[i]? = some true → ∃ r,
    (ranks (presentScores raw present))[placeOf present i]? = some r ∧
      (component raw present fusion)[i]? = some (reciprocal r)

theorem rowsAligned (hlen : raw.length = present.length) (fusion : Fusion) :
    RowsAligned raw present fusion where
  length := length_component hlen
  absent i hp := component_absent hlen hp
  place i v hv hp := presentScores_place hv hp
  linear hlinear i v hv hp := by
    subst hlinear
    refine component_place hlen hp ?_
    unfold scaledScores
    rw [List.getElem?_map, presentScores_place hv hp]
    rfl
  rrf hrrf i hp := by
    subst hrrf
    obtain ⟨hi, -⟩ := List.getElem?_eq_some_iff.mp hp
    have hv : raw[i]? = some raw[i] := List.getElem?_eq_getElem (by omega)
    obtain ⟨hplace, -⟩ := List.getElem?_eq_some_iff.mp (presentScores_place hv hp)
    have hr : (ranks (presentScores raw present))[placeOf present i]? = some _ :=
      List.getElem?_eq_getElem (by rw [ranks_length]; exact hplace)
    refine ⟨_, hr, component_place hlen hp ?_⟩
    unfold scaledScores
    rw [List.getElem?_map, hr]
    rfl

end components

/-- **Ranks and components are aligned with their rows.**  Where there is no NaN a score's rank is one
more than the number of better scores, converted and added in `f32`, which is exact while fewer than
`2 ^ 24` are better.  A component has a value for every row: nothing where the row is absent, and where
it is present its own score, scaled among the present ones. -/
theorem ranks_components_aligned :
    (∀ scores : List F32, (∀ x ∈ scores, x.isNan = false) → ∀ (i : Nat) (v : F32),
      scores[i]? = some v → ∃ r, (ranks scores)[i]? = some r ∧
        r = SoftFloat.add (SoftFloat.ofInt (better scores v)) (lit "1") ∧
        (better scores v < 2 ^ 24 → IsNumber r (1 + better scores v))) ∧
    (∀ (raw : List F32) (present : List Bool) (fusion : Fusion), raw.length = present.length →
      RowsAligned raw present fusion) := by
  refine ⟨fun scores hnumbers i v hv => ?_, fun raw present fusion hlen => rowsAligned hlen fusion⟩
  refine ⟨_, ?_, rfl, rank_exact⟩
  rw [ranks_better hnumbers, List.getElem?_map, hv]
  rfl

/-! ## One score below a great many -/

/-- A zero below `n` ones. -/
def belowOnes (n : Nat) : List F32 := List.replicate n (lit "1") ++ [SoftFloat.zero false]

theorem belowOnes_numbers (n : Nat) : ∀ x ∈ belowOnes n, x.isNan = false := by
  intro x hx
  rcases List.mem_append.mp hx with hx | hx
  · rw [(List.mem_replicate.mp hx).2]
    decide +kernel
  · rw [List.mem_singleton.mp hx]
    decide

theorem better_belowOnes (n : Nat) : better (belowOnes n) (SoftFloat.zero false) = n := by
  have hone : SoftFloat.lt (SoftFloat.zero false : F32) (lit "1") = true := by decide +kernel
  have hzero : SoftFloat.lt (SoftFloat.zero false : F32) (SoftFloat.zero false) = false := by decide
  unfold better belowOnes
  rw [List.countP_append, List.countP_replicate, if_pos hone, List.countP_singleton, hzero]
  rfl

theorem belowOnes_last (n : Nat) : (belowOnes n)[n]? = some (SoftFloat.zero false) := by
  unfold belowOnes
  rw [List.getElem?_append_right (by rw [List.length_replicate]), List.length_replicate,
    Nat.sub_self]
  rfl

/-- With `2 ^ 24` better scores the sum is rounded. -/
theorem ranks_rounded : ¬ ∀ scores : List F32, (∀ x ∈ scores, x.isNan = false) →
    ∀ (i : Nat) (v : F32), scores[i]? = some v →
      ∃ r, (ranks scores)[i]? = some r ∧ IsNumber r (1 + better scores v) := by
  intro h
  obtain ⟨r, hr, hnumber⟩ := h (belowOnes (2 ^ 24)) (belowOnes_numbers _) (2 ^ 24) _ (belowOnes_last _)
  rw [ranks_better (belowOnes_numbers _), List.getElem?_map, belowOnes_last, Option.map_some,
    Option.some.injEq, better_belowOnes] at hr
  rw [← hr, better_belowOnes] at hnumber
  revert hnumber
  decide +kernel

end Klyro
