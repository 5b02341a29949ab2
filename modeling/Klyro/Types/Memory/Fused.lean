import Klyro.Types.Memory.Made

/-!
# What the program's fusion makes of its candidates

* `Poisoned` — an id whose fused score is a NaN; `isNan_made` reads it off the candidates.
* `fuse_f32` — the program's fusion as a sort of ids.
* `made_same` — the order in which candidates arrive does not change a hit, but for the sign of a zero.
-/

set_option autoImplicit false

namespace Klyro

open SoftFloat

variable {values values' : List F32} {v : F32} {keyword vector list : List (Bytes × F32)}
  {ids : List Bytes} {id : Bytes} {fusion : Fusion} {weights : Weights}

/-! ## Scores and their order of arrival -/

/-- Where there is no NaN the scores are ordered by their keys. -/
theorem ordered_f32 (h : ∀ x ∈ values, x.isNan = false) : Numbers.f32.Ordered SoftFloat.key values where
  cmp a ha b hb := cmpFloat_key (h a ha) (h b hb)
  same a ha b hb := by
    show (a.partialCmp b == some .eq) = _
    unfold SoftFloat.partialCmp
    rw [h a ha, h b hb, Bool.or_self, if_neg (by decide), Bool.eq_iff_iff, beq_iff_eq,
      Option.some_inj, compare_eq_iff_eq, decide_eq_true_iff]

theorem rank_one : Numbers.f32.add (Numbers.f32.ofNat 0) Numbers.f32.one = Numbers.f32.one := by
  decide +kernel

theorem spread_same (h : values.Perm values') :
    Same ((Numbers.f32.highest values).sub (Numbers.f32.lowest values))
      ((Numbers.f32.highest values').sub (Numbers.f32.lowest values')) :=
  (same_highest (isNan_inf true) h).sub (by decide) (same_lowest (isNan_inf false) h)

/-- The distance from the least score. -/
theorem distance_same (h : values.Perm values') (v : F32) :
    Same (v.sub (Numbers.f32.lowest values)) (v.sub (Numbers.f32.lowest values')) :=
  (Same.refl v).sub (by decide) (same_lowest (isNan_inf false) h)

theorem stretched_perm (h : values.Perm values') : Stretched values v ↔ Stretched values' v := by
  unfold Stretched
  rw [(Same.refl _).lt (spread_same h), (distance_same h v).isFinite]

/-- A scaled score, in whatever order the others come. -/
theorem scale_same (h : values.Perm values') (fusion : Fusion) (v : F32) :
    Same (Numbers.f32.scale values fusion v) (Numbers.f32.scale values' fusion v) := by
  cases fusion with
  | linear =>
    have hspread := spread_same h
    rw [scale_linear, scale_linear, (Same.refl (SoftFloat.zero false)).lt hspread]
    split
    · rename_i hpos
      have hzero := isZero_of_key (key_of_lt hpos).2
      rw [hspread.eq_of_isZero hzero]
      exact (distance_same h v).div (by decide) hzero
    · exact Same.refl _
  | rrf =>
    refine .inl ?_
    rw [scale_rrf, scale_rrf]
    unfold Numbers.rank
    rw [h.countP_eq]

theorem signal_same {list' : List (Bytes × F32)} {ids' : List Bytes} (hn : (list.map Prod.fst).Nodup)
    (hp : list.Perm list') (hids : ids.Perm ids') (fusion : Fusion) (id : Bytes) :
    Same (Numbers.f32.signal list ids fusion id) (Numbers.f32.signal list' ids' fusion id) := by
  unfold Numbers.signal
  rw [← Numbers.lookup_perm hn hp]
  cases list.lookup id with
  | none =>
    rw [Option.map_none, Option.map_none, Option.getD_none]
    exact Same.refl _
  | some v =>
    rw [Option.map_some, Option.map_some, Option.getD_some, Option.getD_some]
    exact scale_same (Numbers.found_same hn hp hids) fusion v

theorem weigh_same (weights : Signals F32) {k k' v v' : F32} (hk : Same k k') (hv : Same v v')
    (r i : F32) : Same (Numbers.f32.weigh weights ⟨k, v, r, i⟩) (Numbers.f32.weigh weights ⟨k', v', r, i⟩) :=
  ((((Same.refl _).mul hk).add (by decide) ((Same.refl _).mul hv)).add (by decide)
    (Same.refl _)).add (by decide) (Same.refl _)

/-- The same hit: the same record and the same scores, up to the sign of a zero. -/
structure Fused.Same (a b : Fused F32) : Prop where
  id : a.id = b.id
  score : SoftFloat.Same a.score b.score
  keyword : a.keyword = b.keyword
  vector : a.vector = b.vector
  recency : a.recency = b.recency

/-- **A hit does not depend on the order of arrival.** -/
theorem made_same {keyword' vector' : List (Bytes × F32)} (hk : (keyword.map Prod.fst).Nodup)
    (hv : (vector.map Prod.fst).Nodup) (hkp : keyword.Perm keyword') (hvp : vector.Perm vector')
    (lookup : Bytes → Option (F32 × F32)) (weights : Signals F32) (fusion : Fusion) (id : Bytes) :
    (Numbers.f32.made keyword vector lookup weights fusion id).Same
      (Numbers.f32.made keyword' vector' lookup weights fusion id) where
  id := rfl
  score := by
    unfold Numbers.made
    exact weigh_same weights (signal_same hk hkp (Numbers.arrived_perm hk hv hkp hvp) fusion id)
      (signal_same hv hvp (Numbers.arrived_perm hk hv hkp hvp) fusion id) _ _
  keyword := by
    unfold Numbers.made
    rw [Numbers.lookup_perm hk hkp]
  vector := by
    unfold Numbers.made
    rw [Numbers.lookup_perm hv hvp]
  recency := rfl

/-! ## Scores that are no numbers -/

/-- A list gives this id a score that normalization makes a NaN of. -/
def StretchedIn (list : List (Bytes × F32)) (id : Bytes) : Prop :=
  ∃ v ∈ list.lookup id, Stretched (list.map Prod.snd) v

instance : Decidable (StretchedIn list id) := by
  unfold StretchedIn
  infer_instance

/-- An id whose hit has no score: the importance of its record is a NaN, or one of its scores is
stretched. -/
def Poisoned (keyword vector : List (Bytes × F32)) (lookup : Bytes → Option MemoryRecord)
    (fusion : Fusion) (id : Bytes) : Prop :=
  (∃ record ∈ lookup id, record.importance.isNan = true) ∨
    fusion = .linear ∧ (StretchedIn keyword id ∨ StretchedIn vector id)

instance (lookup : Bytes → Option MemoryRecord) : Decidable (Poisoned keyword vector lookup fusion id) := by
  unfold Poisoned
  infer_instance

theorem isNan_signal (fusion : Fusion) (hn : (list.map Prod.fst).Nodup) (hids : ids.Nodup)
    (hall : ∀ id ∈ list.map Prod.fst, id ∈ ids) (hid : id ∈ ids) :
    ((Numbers.f32.signal list ids fusion id).isNan = true ↔ fusion = .linear ∧ StretchedIn list id) ∧
      ((Numbers.f32.signal list ids fusion id).isNan = false →
        IsSignal (Numbers.f32.signal list ids fusion id)) := by
  unfold Numbers.signal StretchedIn
  cases hlookup : list.lookup id with
  | none =>
    rw [Option.map_none, Option.getD_none]
    refine ⟨⟨fun h => ?_, fun ⟨_, v, hv, _⟩ => by cases hv⟩, fun _ => signal_zero⟩
    rw [show Numbers.f32.zero.isNan = false from isNan_zero false] at h
    cases h
  | some v =>
    rw [Option.map_some, Option.getD_some]
    have hmem : v ∈ Numbers.found list ids := List.mem_filterMap.mpr ⟨id, hid, hlookup⟩
    have hperm := stretched_perm (v := v) (Numbers.found_perm hn hids hall)
    cases fusion with
    | linear =>
      by_cases hs : Stretched (list.map Prod.snd) v
      · have hnan := isNan_linear hmem (hperm.mpr hs)
        refine ⟨⟨fun _ => ⟨rfl, v, rfl, hs⟩, fun _ => hnan⟩, fun h => ?_⟩
        rw [hnan] at h
        cases h
      · have hsignal := signal_linear hmem fun h => hs (hperm.mp h)
        refine ⟨⟨fun h => ?_, ?_⟩, fun _ => hsignal⟩
        · rw [hsignal.isNan] at h
          cases h
        · rintro ⟨-, _, hv, h⟩
          cases hv
          exact absurd h hs
    | rrf =>
      have hsignal := signal_rrf (Numbers.found list ids) v
      refine ⟨⟨fun h => ?_, fun h => by cases h.1⟩, fun _ => hsignal⟩
      rw [hsignal.isNan] at h
      cases h

/-- **Which hits have no score**, read off the candidates. -/
theorem isNan_made (hk : (keyword.map Prod.fst).Nodup) (hv : (vector.map Prod.fst).Nodup)
    (hw : weights.isValid = true) {powf : F64 → F64 → F64} (hpowf : Halves powf) {halfLife : Duration}
    (hd : InSeconds halfLife) (now : SystemTime) {lookup : Bytes → Option MemoryRecord}
    (hid : id ∈ Numbers.arrived keyword vector) (hrecord : (lookup id).isSome = true) :
    (Numbers.f32.made keyword vector (recordSignals powf halfLife now lookup) weights.signals fusion
      id).score.isNan = true ↔ Poisoned keyword vector lookup fusion id := by
  obtain ⟨record, hrecord⟩ := Option.isSome_iff_exists.mp hrecord
  have hids := Numbers.arrived_nodup hk hv
  obtain ⟨hk₁, hk₂⟩ := isNan_signal fusion hk hids
    (fun _ h => Numbers.mem_arrived.mpr (.inl h)) hid
  obtain ⟨hv₁, hv₂⟩ := isNan_signal fusion hv hids
    (fun _ h => Numbers.mem_arrived.mpr (.inr h)) hid
  have hsignals : recordSignals powf halfLife now lookup id =
      some (recencyScore powf record.updatedAt now halfLife, clampUnit record.importance) := by
    unfold recordSignals
    rw [hrecord]
    rfl
  have hr := signal_recency hpowf hd record.updatedAt now
  have hi : (clampUnit record.importance).isNan = false → IsSignal (clampUnit record.importance) :=
    fun h => signal_clampUnit ((isNan_clampUnit record.importance).symm.trans h)
  have hnan := isNan_weigh hw hk₂ hv₂ (fun _ => hr) hi
  unfold Numbers.made
  rw [hsignals, Option.getD_some]
  dsimp only
  rw [hnan, hr.isNan, isNan_clampUnit, Bool.or_false, Bool.or_eq_true, Bool.or_eq_true, hk₁, hv₁]
  unfold Poisoned
  rw [hrecord]
  constructor
  · rintro ((⟨hf, h⟩ | ⟨hf, h⟩) | h)
    · exact .inr ⟨hf, .inl h⟩
    · exact .inr ⟨hf, .inr h⟩
    · exact .inl ⟨record, rfl, h⟩
  · rintro (⟨_, hrecord, h⟩ | ⟨hf, h | h⟩)
    · cases hrecord
      exact .inr h
    · exact .inl (.inl ⟨hf, h⟩)
    · exact .inl (.inr ⟨hf, h⟩)

/-! ## The program's fusion -/

/-- **The program's fusion sorts the ids that have a record.** -/
theorem fuse_f32 (powf : F64 → F64 → F64) (hk : (keyword.map Prod.fst).Nodup)
    (hv : (vector.map Prod.fst).Nodup)
    (hkn : fusion = .rrf → ∀ p ∈ keyword, p.2.isNan = false)
    (hvn : fusion = .rrf → ∀ p ∈ vector, p.2.isNan = false) (lookup : Bytes → Option MemoryRecord)
    (weights : Weights) (halfLife : Duration) (now : SystemTime) :
    fuse powf keyword vector lookup weights fusion halfLife now =
      (sortBy (Numbers.f32.cmpMade (Numbers.f32.made keyword vector
          (recordSignals powf halfLife now lookup) weights.signals fusion))
        (Numbers.kept keyword vector (recordSignals powf halfLife now lookup))).map fun id =>
        (Numbers.f32.made keyword vector (recordSignals powf halfLife now lookup) weights.signals
          fusion id).toHit := by
  have hordered : ∀ {list : List (Bytes × F32)}, (∀ p ∈ list, p.2.isNan = false) →
      Numbers.f32.Ordered SoftFloat.key (list.map Prod.snd) := fun h => ordered_f32 fun x hx => by
    obtain ⟨p, hp, rfl⟩ := List.mem_map.mp hx
    exact h p hp
  rw [fuse_eq, Numbers.fuse_made hk hv (fun h => hordered (hkn h)) (fun h => hordered (hvn h)) rank_one,
    List.map_map]
  rfl

end Klyro
