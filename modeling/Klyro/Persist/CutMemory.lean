import Klyro.Persist.Cut

/-!
# Memory indexes that were cut short

A `MEMORY` record of which only the first bytes are left comes to nothing, unless it is an index
without records and the cut is inside the number of its next id: then a smaller number is read.

* `Passed` — some pieces have been read and the reader stands at the ones after them.
* `sat_readRecordsCut` — the records of an index: all of them, or none.
* `sat_readMemoryCut` — the index; `shortMemory` is what a shortened next id gives.
-/

set_option autoImplicit false

namespace Klyro

open DumpReader

variable {e : Env} {w : World} {R : Panic → Prop} {E : IoError → Bytes → World → Prop}
variable {ps : List Piece} {n : Nat}

/-- Reading `qs` from `n` bytes of `qs ++ ps` leaves `m` bytes of `ps`. -/
structure Passed (qs ps : List Piece) (n m : Nat) : Prop where
  refused : Refused (qs ++ ps) n ↔ Refused ps m
  whole : wholeCount (qs ++ ps) n = qs.length + wholeCount ps m

theorem Passed.refl (ps : List Piece) (n : Nat) : Passed [] ps n n where
  refused := Iff.rfl
  whole := (Nat.zero_add _).symm

theorem Passed.one {p : Piece} (h : p.readable n = true) : Passed [p] ps n (n - p.bytes.length) where
  refused := refused_cons h
  whole := by
    rw [List.singleton_append, wholeCount_cons h]
    exact Nat.add_comm _ _

theorem Passed.trans {qs rs ps : List Piece} {n m k : Nat} (h : Passed qs (rs ++ ps) n m)
    (h' : Passed rs ps m k) : Passed (qs ++ rs) ps n k where
  refused := by rw [List.append_assoc, h.refused, h'.refused]
  whole := by rw [List.append_assoc, h.whole, h'.whole, List.length_append, Nat.add_assoc]

theorem Passed.not_refused {qs : List Piece} {n m : Nat} (h : Passed qs ps n m)
    (hm : m = 0) : ¬ Refused (qs ++ ps) n := by
  rw [h.refused, hm]
  exact not_refused_zero _

theorem Passed.whole_zero {qs : List Piece} {n m : Nat} (h : Passed qs ps n m)
    (hm : m = 0) : wholeCount (qs ++ ps) n = qs.length := by
  rw [h.whole, hm, wholeCount_zero, Nat.add_zero]

/-! ## One record -/

/-- A blob after pieces that have been read. -/
theorem sat_blobPassed {qs : List Piece} {b : Bytes} {m : Nat} {Q : Option Bytes → Bytes → World → Prop}
    (hp : Passed qs (.blob b :: ps) n m) (hfit : BlobFits b)
    (hnone : ¬ Refused (qs ++ .blob b :: ps) n → wholeCount (qs ++ .blob b :: ps) n = qs.length →
      Q none [] w)
    (hsome : ∀ k, Passed (qs ++ [.blob b]) ps n k → Q (some b) (cut ps k) w)
    (herr : Refused (qs ++ .blob b :: ps) n → ∀ s, E .unexpectedEof s w) :
    Act.SatE blob e (cut (.blob b :: ps) m) w Q E R := by
  refine sat_blobCut hfit ?_ ?_ ?_
  · exact fun hm => hnone (hp.not_refused hm) (hp.whole_zero hm)
  · exact fun hr => hsome _ (hp.trans (.one hr))
  · intro hr hpos
    refine herr (hp.refused.mpr ?_)
    exact (refused_blob hr).mpr hpos

/-- The metadata of a record. -/
theorem sat_readMetaCut {Q : Option MemoryRecord → Bytes → World → Prop} :
    ∀ {pairs : List (Bytes × Bytes)} {qs : List Piece} {m : Nat} {record : MemoryRecord},
      Passed qs (pairPieces pairs ++ ps) n m → (∀ p ∈ pairs, BlobFits p.1 ∧ BlobFits p.2) →
      (¬ Refused (qs ++ (pairPieces pairs ++ ps)) n →
        wholeCount (qs ++ (pairPieces pairs ++ ps)) n < qs.length + 2 * pairs.length →
        ∀ s, Q none s w) →
      (∀ k, Passed (qs ++ pairPieces pairs) ps n k →
        Q (some (MemoryRecord.setMetaAll pairs record).2) (cut ps k) w) →
      (Refused (qs ++ (pairPieces pairs ++ ps)) n → ∀ s, E .unexpectedEof s w) →
      Act.SatE (readMeta pairs.length record) e (cut (pairPieces pairs ++ ps) m) w Q E R
  | [], qs, m, record, hp, _, _, hsome, _ => by
    have := hsome m (by simpa [pairPieces] using hp)
    simpa [pairPieces, readMeta, MemoryRecord.setMetaAll] using this
  | (field, value) :: pairs, qs, m, record, hp, hfit, hnone, hsome, herr => by
    have hpieces : pairPieces ((field, value) :: pairs) ++ ps =
        .blob field :: .blob value :: (pairPieces pairs ++ ps) := rfl
    have hfits := hfit (field, value) (by simp)
    rw [hpieces] at hp hnone herr ⊢
    rw [List.length_cons, readMeta, Act.satE_bind]
    refine sat_pairCut (p := (field, value)) hfits ?_ ?_ ?_
    · intro hlt hnot
      refine hnone (fun h => hnot (hp.refused.mp h)) ?_ []
      dsimp only at hlt
      rw [hp.whole, List.length_cons]
      omega
    · intro hr hr'
      have hp' : Passed (qs ++ [.blob field, .blob value]) (pairPieces pairs ++ ps) n _ :=
        hp.trans ((Passed.one hr).trans (.one hr'))
      have hassoc : qs ++ .blob field :: .blob value :: (pairPieces pairs ++ ps) =
          qs ++ [.blob field, .blob value] ++ (pairPieces pairs ++ ps) := by
        rw [List.append_assoc]
        rfl
      rw [hassoc] at hnone herr
      refine sat_readMetaCut hp' (fun q hq => hfit q (List.mem_cons_of_mem _ hq)) ?_ ?_ herr
      · intro hnot hlt
        refine hnone hnot ?_
        rw [List.length_append] at hlt
        simp only [List.length_cons, List.length_nil] at hlt ⊢
        omega
      · intro k hk
        refine hsome k ?_
        rwa [List.append_assoc] at hk
    · exact fun hr => herr (hp.refused.mpr hr)

/-- The pieces of the vector of a record. -/
def vectorPieces (vector : Option (List F32)) : List Piece :=
  (vector.map fun values => Piece.blob (encodeLeF32 values)).toList

theorem sat_readVectorCut {vector : Option (List F32)} {qs : List Piece} {m : Nat}
    {Q : Option (Option (List F32)) → Bytes → World → Prop}
    (hp : Passed qs (vectorPieces vector ++ ps) n m)
    (hfit : ∀ values, vector = some values → 0 < values.length ∧ BlobFits (encodeLeF32 values))
    (hnone : ¬ Refused (qs ++ (vectorPieces vector ++ ps)) n →
      wholeCount (qs ++ (vectorPieces vector ++ ps)) n < qs.length + (vectorPieces vector).length →
      ∀ s, Q none s w)
    (hsome : ∀ k, Passed (qs ++ vectorPieces vector) ps n k →
      Q (some (revector vector)) (cut ps k) w)
    (herr : Refused (qs ++ (vectorPieces vector ++ ps)) n → ∀ s, E .unexpectedEof s w) :
    Act.SatE (readVector ((vector.map List.length).getD 0)) e (cut (vectorPieces vector ++ ps) m) w
      Q E R := by
  unfold readVector
  cases vector with
  | none =>
    have := hsome m (by simpa [vectorPieces] using hp)
    simpa [vectorPieces, revector] using this
  | some values =>
    obtain ⟨hpos, hfits⟩ := hfit values rfl
    simp only [Option.map_some, Option.getD_some, hpos, if_true, Act.satE_bind, Act.satE_pure]
    have hpieces : vectorPieces (some values) ++ ps = .blob (encodeLeF32 values) :: ps := rfl
    rw [hpieces] at hp hnone herr ⊢
    refine sat_blobPassed hp hfits ?_ ?_ herr
    · intro hnot hwhole
      refine hnone hnot ?_ []
      rw [hwhole]
      exact Nat.lt_succ_self _
    · exact fun k hk => hsome k hk

theorem recordPieces_eq (p : MemoryRecord × Option (List F32)) :
    Payload.recordPieces p = .blob p.1.id :: .blob p.1.text :: wordLine (Payload.recordWords p.1 p.2) ::
      (pairPieces p.1.metadata ++ vectorPieces p.2) := by
  unfold Payload.recordPieces
  rw [List.append_assoc]
  rfl

theorem length_pairPieces (pairs : List (Bytes × Bytes)) : (pairPieces pairs).length = 2 * pairs.length := by
  unfold pairPieces
  induction pairs with
  | nil => rfl
  | cons p pairs ih =>
    rw [List.flatMap_cons, List.length_append, ih]
    simp only [List.length_cons, List.length_nil]
    omega

/-- A vector that is announced is missed at the end of the input. -/
theorem sat_readVectorEnd {k : Nat} (hk : 0 < k) {Q : Option (Option (List F32)) → Bytes → World → Prop}
    (hQ : Q none [] w) : Act.SatE (readVector k) e [] w Q E R := by
  unfold readVector
  rw [if_pos hk, Act.satE_bind]
  exact sat_blobEnd hQ

theorem sat_readMetaEnd {k : Nat} {record : MemoryRecord}
    {Q : Option MemoryRecord → Bytes → World → Prop} (hnone : Q none [] w)
    (hsome : Q (some record) [] w) : Act.SatE (readMeta k record) e [] w Q E R := by
  cases k with
  | zero => exact hsome
  | succ k =>
    rw [readMeta, Act.satE_bind]
    unfold pair
    simp only [Act.satE_bind, Act.satE_pure]
    exact sat_blobEnd (sat_blobEnd hnone)

/-- The line of numbers of a record, cut short: it lacks a number, or it announces a vector that
is not there. -/
theorem sat_shortNumbers {p : MemoryRecord × Option (List F32)} {id text : Bytes} {t : List Char}
    {maxTerms : Nat} {m : Memory} (h : MemoryRecordFits p)
    (ht : t <+: Text.unwords (Payload.recordWords p.1 p.2))
    (hne : t ≠ Text.unwords (Payload.recordWords p.1 p.2)) {Q : Option Memory → Bytes → World → Prop}
    (hQ : Q none [] w) :
    Act.SatE (if (Text.splitWhitespace t).length < 6 then pure none
      else do
        let count := fun i => (Text.parseNat u64Max ((Text.splitWhitespace t).getD i [])).getD 0
        match ← readMeta (count 4) (parseRecord id text (Text.splitWhitespace t)) with
        | none => pure none
        | some record =>
          match ← readVector (count 5) with
          | none => pure none
          | some vector => do
            let memory ← (onValue m (Memory.loadRecord record vector maxTerms) : Run Bytes Memory)
            pure (some memory)) e [] w Q E R := by
  have hwords := asciiWord_record p.1 p.2
  have hsplit : Payload.recordWords p.1 p.2 = (Payload.recordWords p.1 p.2).take 5 ++
      [Nat.toDigits 10 ((p.2.map List.length).getD 0)] := rfl
  have hhead : ∀ v ∈ (Payload.recordWords p.1 p.2).take 5, Text.Word v :=
    fun v hv => (hwords v (List.mem_of_mem_take hv)).2
  rw [hsplit] at ht hne
  simp only [Act.satE_ite, Act.satE_pure, hQ, implies_true, true_and, Act.satE_bind]
  intro hlen
  obtain hle | ⟨d, hd, hdl, hteq, hs⟩ := Text.splitWhitespace_cut (Text.word_toDigits _) hhead ht
  · exact absurd (Nat.lt_of_le_of_lt hle (by simp [Payload.recordWords])) hlen
  · have hpos : 0 < (p.2.map List.length).getD 0 := by
      refine Nat.pos_of_ne_zero fun h0 => hne ?_
      rw [h0] at hdl ⊢
      rw [hteq]
      rcases List.prefix_concat_iff.mp (show d <+: [] ++ ['0'] from hdl) with hd0 | hd0
      · rw [hd0]
        rfl
      · exact absurd (List.prefix_nil.mp hd0) hd
    obtain ⟨k, hk, hkn, rfl⟩ := Text.prefix_toDigits hd hpos hdl
    have h5 : (Text.parseNat u64Max ((Text.splitWhitespace t).getD 5 [])).getD 0 = k := by
      rw [hs]
      show (Text.parseNat u64Max (Nat.toDigits 10 k)).getD 0 = k
      exact parse_count (Nat.le_trans hkn (vector_count h))
    refine sat_readMetaEnd hQ ?_
    dsimp only
    rw [Act.satE_bind, h5]
    exact sat_readVectorEnd hk hQ

/-- **One memory record**: the index with it, or nothing. -/
theorem sat_readRecordCut {p : MemoryRecord × Option (List F32)} {m : Memory} {maxTerms j k : Nat}
    {qs : List Piece} {Q : Option Memory → Bytes → World → Prop} (h : MemoryRecordFits p)
    (hm : m.Appended k) (hcap : 4 * ((k + 1) * m.config.dim) ≤ isizeMax)
    (hp : Passed qs (Payload.recordPieces p ++ ps) n j)
    (hnone : ¬ Refused (qs ++ (Payload.recordPieces p ++ ps)) n →
      wholeCount (qs ++ (Payload.recordPieces p ++ ps)) n < qs.length + (Payload.recordPieces p).length →
      ∀ s, Q none s w)
    (hsome : ∀ i, Passed (qs ++ Payload.recordPieces p) ps n i →
      (m.loaded (reparsed p) (revector p.2) maxTerms).Appended (k + 1) →
      Q (some (m.loaded (reparsed p) (revector p.2) maxTerms)) (cut ps i) w)
    (herr : Refused (qs ++ (Payload.recordPieces p ++ ps)) n → ∀ s, E .unexpectedEof s w) :
    Act.SatE (readRecord maxTerms m) e (cut (Payload.recordPieces p ++ ps) j) w Q E R := by
  have hwords := asciiWord_record p.1 p.2
  have hpieces : Payload.recordPieces p ++ ps = .blob p.1.id :: .blob p.1.text ::
      wordLine (Payload.recordWords p.1 p.2) ::
        (pairPieces p.1.metadata ++ (vectorPieces p.2 ++ ps)) := by
    rw [recordPieces_eq]
    simp
  have hlen : (Payload.recordPieces p).length =
      3 + 2 * p.1.metadata.length + (vectorPieces p.2).length := by
    rw [recordPieces_eq]
    simp only [List.length_cons, List.length_append, length_pairPieces]
    omega
  rw [hlen] at hnone
  unfold readRecord
  simp only [Act.satE_bind]
  rw [hpieces] at hp ⊢
  -- the id
  refine sat_blobPassed hp h.id ?_ ?_ ?_
  · intro hnot hwhole
    rw [← hpieces] at hnot hwhole
    exact sat_blobEnd (sat_lineEnd (hnone hnot (by omega) []))
  rotate_left
  · rw [← hpieces]
    exact herr
  intro k₁ hp₁
  -- the text
  have h₁ : qs ++ [.blob p.1.id] ++ (.blob p.1.text :: wordLine (Payload.recordWords p.1 p.2) ::
      (pairPieces p.1.metadata ++ (vectorPieces p.2 ++ ps))) = qs ++ (Payload.recordPieces p ++ ps) := by
    rw [hpieces, List.append_assoc]
    rfl
  refine sat_blobPassed hp₁ h.text ?_ ?_ ?_
  · intro hnot hwhole
    rw [h₁] at hnot hwhole
    rw [List.length_append, List.length_singleton] at hwhole
    exact sat_lineEnd (hnone hnot (by omega) [])
  rotate_left
  · rw [h₁]
    exact herr
  intro k₂ hp₂
  -- the numbers
  have h₂ : qs ++ [.blob p.1.id] ++ [.blob p.1.text] ++ (wordLine (Payload.recordWords p.1 p.2) ::
      (pairPieces p.1.metadata ++ (vectorPieces p.2 ++ ps))) = qs ++ (Payload.recordPieces p ++ ps) := by
    rw [hpieces]
    simp
  have hw₂ := hp₂.whole
  rw [h₂] at hw₂
  simp only [List.length_append, List.length_singleton] at hw₂
  refine sat_lineCut (lineText_unwords hwords) ?_ ?_ ?_
  · intro h0
    have hnot := hp₂.not_refused h0
    rw [h₂] at hnot
    rw [h0, wholeCount_zero] at hw₂
    exact hnone hnot (by omega) []
  · intro hr
    have hp₃ : Passed (qs ++ [.blob p.1.id] ++ [.blob p.1.text] ++
        [wordLine (Payload.recordWords p.1 p.2)])
        (pairPieces p.1.metadata ++ (vectorPieces p.2 ++ ps)) n _ := hp₂.trans (.one hr)
    have h₃ : qs ++ [.blob p.1.id] ++ [.blob p.1.text] ++ [wordLine (Payload.recordWords p.1 p.2)] ++
        (pairPieces p.1.metadata ++ (vectorPieces p.2 ++ ps)) = qs ++ (Payload.recordPieces p ++ ps) := by
      rw [hpieces]
      simp
    have h4 : (Text.parseNat u64Max ((Payload.recordWords p.1 p.2).getD 4 [])).getD 0 =
        p.1.metadata.length := parse_count h.fields
    have h5 : (Text.parseNat u64Max ((Payload.recordWords p.1 p.2).getD 5 [])).getD 0 =
        (p.2.map List.length).getD 0 := parse_count (vector_count h)
    dsimp only
    rw [split_words hwords]
    simp only [Act.satE_ite, Act.satE_bind]
    refine ⟨fun hlt => absurd hlt (by simp [Payload.recordWords]), fun _ => ?_⟩
    rw [h4]
    -- the metadata
    refine sat_readMetaCut hp₃ h.metadata ?_ ?_ ?_
    · intro hnot hlt s
      rw [h₃] at hnot hlt
      simp only [List.length_append, List.length_singleton] at hlt
      exact hnone hnot (by omega) s
    rotate_left
    · rw [h₃]
      exact herr
    intro k₄ hp₄
    -- the vector
    have h₄ : qs ++ [.blob p.1.id] ++ [.blob p.1.text] ++ [wordLine (Payload.recordWords p.1 p.2)] ++
        pairPieces p.1.metadata ++ (vectorPieces p.2 ++ ps) = qs ++ (Payload.recordPieces p ++ ps) := by
      rw [hpieces]
      simp
    simp only [h5, Act.satE_bind]
    refine sat_readVectorCut hp₄ h.vector ?_ ?_ ?_
    · intro hnot hlt s
      rw [h₄] at hnot hlt
      simp only [List.length_append, List.length_singleton, length_pairPieces] at hlt
      exact hnone hnot (by omega) s
    rotate_left
    · rw [h₄]
      exact herr
    intro i hp₅
    simp only [Act.satE_bind, Act.satE_lift, Act.satE_pure, onValue, Act.sat_zoom, Act.sat_bind]
    refine loadRecord_appends hm ?_ (.inr (.inr hcap)) ?_
    · exact fun values hv => revector_ne_nil (fun v hv => (h.vector v hv).1) hv
    · refine hsome i ?_
      have h₅ : qs ++ [.blob p.1.id] ++ [.blob p.1.text] ++ [wordLine (Payload.recordWords p.1 p.2)] ++
          pairPieces p.1.metadata ++ vectorPieces p.2 = qs ++ Payload.recordPieces p := by
        rw [recordPieces_eq]
        simp
      rwa [h₅] at hp₅
  · intro hr hpos
    have hnot : ¬ Refused (qs ++ (Payload.recordPieces p ++ ps)) n := by
      rw [← h₂, hp₂.refused]
      exact refused_line hr
    rw [show wholeCount (wordLine (Payload.recordWords p.1 p.2) ::
      (pairPieces p.1.metadata ++ (vectorPieces p.2 ++ ps))) k₂ = 0 from wholeCount_torn hr] at hw₂
    refine sat_shortNumbers h (List.take_prefix k₂ _) ?_ (hnone hnot (by omega) [])
    intro heq
    have hle : (Text.unwords (Payload.recordWords p.1 p.2)).length ≤ k₂ := by
      have := congrArg List.length heq
      rw [List.length_take] at this
      omega
    simp only [Piece.readable, Text.utf8_ascii (lineText_unwords hwords).ascii, List.length_map,
      Bool.and_eq_false_iff, decide_eq_false_iff_not] at hr
    omega

/-- **The records of an index**: all of them, or nothing. -/
theorem sat_readRecordsCut {maxTerms : Nat} {Q : Option Memory → Bytes → World → Prop} :
    ∀ {records : List (MemoryRecord × Option (List F32))} {m : Memory} {qs : List Piece} {j k : Nat},
      (∀ p ∈ records, MemoryRecordFits p) → m.Appended k →
      4 * ((k + records.length) * m.config.dim) ≤ isizeMax →
      Passed qs (records.flatMap Payload.recordPieces) n j →
      (¬ Refused (qs ++ records.flatMap Payload.recordPieces) n →
        wholeCount (qs ++ records.flatMap Payload.recordPieces) n <
          qs.length + (records.flatMap Payload.recordPieces).length → ∀ s, Q none s w) →
      (wholeCount (qs ++ records.flatMap Payload.recordPieces) n =
          qs.length + (records.flatMap Payload.recordPieces).length →
        Q (some (records.foldl (fun m p => m.loaded (reparsed p) (revector p.2) maxTerms) m)) [] w) →
      (Refused (qs ++ records.flatMap Payload.recordPieces) n → ∀ s, E .unexpectedEof s w) →
      Act.SatE (readRecords maxTerms records.length m) e
        (cut (records.flatMap Payload.recordPieces) j) w Q E R
  | [], m, qs, j, k, _, _, _, hp, _, hsome, _ => by
    rw [List.flatMap_nil, cut_nil]
    refine hsome ?_
    rw [hp.whole]
    rfl
  | p :: records, m, qs, j, k, hfit, hm, hcap, hp, hnone, hsome, herr => by
    have hcap₁ : 4 * ((k + 1) * m.config.dim) ≤ isizeMax := by
      refine Nat.le_trans ?_ hcap
      exact Nat.mul_le_mul_left _ (Nat.mul_le_mul_right _ (by rw [List.length_cons]; omega))
    have hcap₂ : 4 * ((k + 1 + records.length) * m.config.dim) ≤ isizeMax := by
      rw [List.length_cons] at hcap
      rwa [Nat.add_assoc, Nat.add_comm 1]
    rw [List.length_cons, readRecords, Act.satE_bind]
    rw [List.flatMap_cons] at hp hnone hsome herr ⊢
    rw [List.length_append] at hnone hsome
    refine sat_readRecordCut (hfit p (by simp)) hm hcap₁ hp ?_ ?_ herr
    · intro hnot hlt
      exact hnone hnot (by omega)
    · intro i hp' hm'
      rw [← List.append_assoc] at hnone hsome herr
      rw [← Nat.add_assoc, ← List.length_append] at hnone hsome
      exact sat_readRecordsCut (fun q hq => hfit q (List.mem_cons_of_mem _ hq)) hm' hcap₂ hp'
        hnone hsome herr

/-! ## The configuration line -/

/-- The configuration line is cut inside the number of the next id: nine words are left. -/
def ShortConfig (config : MemoryConfig) (nextId n : Nat) : Prop :=
  n < (Text.unwords (Payload.configWords config nextId)).length ∧
    9 ≤ (Text.splitWhitespace ((Text.unwords (Payload.configWords config nextId)).take n)).length

instance (config : MemoryConfig) (nextId n : Nat) : Decidable (ShortConfig config nextId n) :=
  inferInstanceAs (Decidable (_ ∧ _))

/-- The index without records that is read when the next id is cut to `k`. -/
def shortMemory (config : MemoryConfig) (nextId k : Nat) : Memory :=
  (Memory.new (reconfig config nextId)).setNextId k

/-- A shortened configuration line has the configuration of the whole one and a smaller next id. -/
theorem ShortConfig.fields {config : MemoryConfig} {nextId : Nat} (h : ShortConfig config nextId n) :
    ∃ k, 0 < k ∧ k < nextId ∧
      Text.splitWhitespace ((Text.unwords (Payload.configWords config nextId)).take n) =
        (Payload.configWords config nextId).take 8 ++ [Nat.toDigits 10 k] := by
  obtain ⟨hlt, hlen⟩ := h
  have hhead : ∀ v ∈ (Payload.configWords config nextId).take 8, Text.Word v :=
    fun v hv => (asciiWord_config config nextId v (List.mem_of_mem_take hv)).2
  have hsplit : Payload.configWords config nextId =
      (Payload.configWords config nextId).take 8 ++ [Nat.toDigits 10 nextId] := rfl
  have ht : (Text.unwords (Payload.configWords config nextId)).take n <+:
      Text.unwords ((Payload.configWords config nextId).take 8 ++ [Nat.toDigits 10 nextId]) :=
    List.take_prefix n _
  obtain hle | ⟨d, hd, hdl, hteq, hs⟩ := Text.splitWhitespace_cut (Text.word_toDigits _) hhead ht
  · exact absurd (Nat.le_trans hlen hle) (by simp [Payload.configWords])
  · have hne : d ≠ Nat.toDigits 10 nextId := by
      rintro rfl
      rw [← hsplit] at hteq
      have := congrArg List.length hteq
      rw [List.length_take] at this
      omega
    have hpos : 0 < nextId := by
      refine Nat.pos_of_ne_zero fun h0 => hne ?_
      rw [h0] at hdl ⊢
      rcases List.prefix_concat_iff.mp (show d <+: [] ++ ['0'] from hdl) with hd0 | hd0
      · exact hd0
      · exact absurd (List.prefix_nil.mp hd0) hd
    obtain ⟨k, hk, hkn, rfl⟩ := Text.prefix_toDigits hd hpos hdl
    refine ⟨k, hk, Nat.lt_of_le_of_ne hkn ?_, hs⟩
    rintro rfl
    exact hne rfl

theorem sat_readRecordsEnd {maxTerms k : Nat} {m : Memory} {Q : Option Memory → Bytes → World → Prop}
    (hk : 0 < k) (hQ : Q none [] w) : Act.SatE (readRecords maxTerms k m) e [] w Q E R := by
  obtain ⟨k, rfl⟩ := Nat.exists_eq_succ_of_ne_zero (Nat.pos_iff_ne_zero.mp hk)
  rw [readRecords, Act.satE_bind]
  unfold readRecord
  simp only [Act.satE_bind]
  exact sat_blobEnd (sat_blobEnd (sat_lineEnd hQ))

/-- **A memory index**: all of it, nothing, or an index without records whose next id is too
small. -/
theorem sat_readMemoryCut {config : MemoryConfig} {nextId maxTerms : Nat}
    {records : List (MemoryRecord × Option (List F32))} {Q : Option Memory → Bytes → World → Prop}
    (h : (Payload.memory config nextId records).Fits)
    (hps : ps = (Payload.memory config nextId records).pieces)
    (hnone : ¬ Refused ps n → wholeCount ps n < ps.length →
      (records = [] → ¬ ShortConfig config nextId n) → ∀ s, Q none s w)
    (hshort : records = [] → ShortConfig config nextId n → ∀ k, 0 < k → k < nextId →
      Q (some (shortMemory config nextId k)) [] w)
    (hsome : wholeCount ps n = ps.length → Q (some (rebuilt maxTerms config nextId records)) [] w)
    (herr : Refused ps n → ∀ s, E .unexpectedEof s w) :
    Act.SatE (readMemory records.length maxTerms) e (cut ps n) w Q E R := by
  obtain ⟨hcount, hdim, hcap, hid, hfit⟩ := h
  have hwords := asciiWord_config config nextId
  have hpieces : ps = wordLine (Payload.configWords config nextId) ::
    records.flatMap Payload.recordPieces := hps
  subst hpieces
  have hlength : (Text.utf8 (Text.unwords (Payload.configWords config nextId))).length =
      (Text.unwords (Payload.configWords config nextId)).length := by
    rw [Text.utf8_ascii (lineText_unwords hwords).ascii, List.length_map]
  unfold readMemory
  rw [Act.satE_bind]
  refine sat_lineCut (lineText_unwords hwords) ?_ ?_ ?_
  · rintro rfl
    refine hnone (not_refused_zero _) ?_ ?_ []
    · rw [wholeCount_zero]
      exact Nat.zero_lt_succ _
    · rintro - ⟨-, h9⟩
      rw [List.take_zero] at h9
      exact absurd h9 (by decide)
  · intro hr
    have hp : Passed [wordLine (Payload.configWords config nextId)]
      (records.flatMap Payload.recordPieces) n _ := .one hr
    have hnoshort : ¬ ShortConfig config nextId n := by
      rintro ⟨hlt, -⟩
      simp only [Piece.readable, Bool.and_eq_true, decide_eq_true_eq, hlength] at hr
      omega
    dsimp only
    rw [split_words hwords]
    simp only [Act.satE_ite]
    refine ⟨fun hlt => absurd hlt (by simp [Payload.configWords]), fun _ => ?_⟩
    rw [parseConfig_words]
    refine sat_readRecordsCut hfit (rebuildStart_appended config nextId)
      (capacity_reconfig hdim hcap) hp ?_ ?_ herr
    · intro hnot hlt
      refine hnone hnot ?_ (fun _ => hnoshort)
      rw [List.length_singleton, Nat.add_comm] at hlt
      exact hlt
    · intro hall
      refine hsome ?_
      rw [List.length_singleton, Nat.add_comm] at hall
      exact hall
  · intro hr hpos
    have hlt : n < (Text.unwords (Payload.configWords config nextId)).length := by
      simp only [Piece.readable, Bool.and_eq_false_iff, decide_eq_false_iff_not, hlength] at hr
      omega
    have hno : (records = [] → ¬ ShortConfig config nextId n) → ∀ s, Q none s w := by
      refine hnone (refused_line hr) ?_
      rw [show wholeCount (wordLine (Payload.configWords config nextId) ::
        records.flatMap Payload.recordPieces) n = 0 from wholeCount_torn hr]
      exact Nat.zero_lt_succ _
    simp only [Act.satE_ite]
    refine ⟨fun hlen => ?_, fun hlen => ?_⟩
    · exact hno (fun _ hs => absurd hs.2 (by omega)) []
    · have hs : ShortConfig config nextId n := ⟨hlt, by omega⟩
      obtain ⟨k, hk, hkn, hfields⟩ := hs.fields
      have hconfig : parseConfig ((Payload.configWords config nextId).take 8 ++ [Nat.toDigits 10 k]) =
          some (reconfig config nextId) := parseConfig_words config nextId
      have hnext : (Text.parseNat u64Max (((Payload.configWords config nextId).take 8 ++
          [Nat.toDigits 10 k]).getD 8 [])).getD 1 = k := by
        show (Text.parseNat u64Max (Nat.toDigits 10 k)).getD 1 = k
        rw [Text.parseNat_toDigits (by omega), Option.getD_some]
      rw [hfields, hconfig]
      dsimp only
      rw [hnext]
      cases hrec : records with
      | nil => exact hshort hrec hs k hk hkn
      | cons p rest =>
        refine sat_readRecordsEnd (by simp) (hno ?_ [])
        rw [hrec]
        exact fun hnil => absurd hnil (by simp)

end Klyro
