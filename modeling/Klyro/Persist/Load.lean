import Klyro.Persist.Reader
import Klyro.Types.Memory.Slots

/-!
# Loading whole records

What the loader makes of a record that is wholly there: the entry with the record's key, deadline
and value.  A memory index comes back rebuilt from its records.

* `Record.Fits` — the sizes and numbers of a record are such that the loader can hold them.
* `Record.loaded` — the entry of a record; `sat_readEntry` and `sat_loadV2` read it back.
-/

set_option autoImplicit false

namespace Klyro

open DumpReader

/-! ## Memory indexes, rebuilt -/

/-- `load_record` on an index without free slots, as a function. -/
def Memory.loaded (m : Memory) (record : MemoryRecord) (vector : Option (List F32)) (maxTerms : Nat) :
    Memory :=
  let placed := vector.filter fun values =>
    m.config.mode.storesVectors && decide (values.length = m.config.dim)
  { m with
    text := if m.config.mode.indexesText then m.text.index record.id none record.text maxTerms
      else m.text
    vectors := match placed with
      | some values =>
        { m.vectors with data := m.vectors.data ++ m.vectors.prepare values, live := m.vectors.live + 1 }
      | none => m.vectors
    records := m.records.insert record.id
      { record with slot := placed.map fun _ => m.vectors.data.length / m.vectors.dim } }

/-- An index to which vectors have only been appended, at most `n` of them. -/
structure Memory.Appended (m : Memory) (n : Nat) : Prop where
  free : m.vectors.free = []
  dim : m.vectors.dim = m.config.dim
  data : ∃ k, k ≤ n ∧ m.vectors.data.length = k * m.config.dim

/-- A record as it is read back, with its metadata. -/
def reparsed (p : MemoryRecord × Option (List F32)) : MemoryRecord :=
  (MemoryRecord.setMetaAll p.1.metadata
    (parseRecord p.1.id p.1.text (Payload.recordWords p.1 p.2))).2

/-- A vector as it is read back. -/
def revector (vector : Option (List F32)) : Option (List F32) :=
  vector.bind fun values => (parseLeF32 (encodeLeF32 values)).toOption

/-- The configuration of an index as it is read back. -/
def reconfig (config : MemoryConfig) (nextId : Nat) : MemoryConfig :=
  (parseConfig (Payload.configWords config nextId)).getD config

/-- The index without its records. -/
def rebuildStart (config : MemoryConfig) (nextId : Nat) : Memory :=
  (Memory.new (reconfig config nextId)).setNextId
    ((Text.parseNat u64Max (Nat.toDigits 10 nextId)).getD 1)

/-- The index a `MEMORY` record is read back as. -/
def rebuilt (maxTerms : Nat) (config : MemoryConfig) (nextId : Nat)
    (records : List (MemoryRecord × Option (List F32))) : Memory :=
  records.foldl (fun m p => m.loaded (reparsed p) (revector p.2) maxTerms)
    (rebuildStart config nextId)

/-! ## What fits -/

/-- A blob the reader can allocate. -/
def BlobFits (b : Bytes) : Prop := b.length ≤ isizeMax

/-- The numbers and blobs of one memory record. -/
structure MemoryRecordFits (p : MemoryRecord × Option (List F32)) : Prop where
  id : BlobFits p.1.id
  text : BlobFits p.1.text
  metadata : ∀ m ∈ p.1.metadata, BlobFits m.1 ∧ BlobFits m.2
  fields : p.1.metadata.length ≤ u64Max
  vector : ∀ values, p.2 = some values → 0 < values.length ∧ BlobFits (encodeLeF32 values)

namespace Payload

/-- The sizes of a value, as far as a vector of that size can be allocated at all; no score is a
NaN. -/
def Fits : Payload → Prop
  | .str value => BlobFits value
  | .list items => items.length * bytesSize ≤ isizeMax ∧ ∀ b ∈ items, BlobFits b
  | .hash pairs => pairs.length * pairSize ≤ isizeMax ∧ ∀ p ∈ pairs, BlobFits p.1 ∧ BlobFits p.2
  | .set members => members.length * bytesSize ≤ isizeMax ∧ ∀ b ∈ members, BlobFits b
  | .zset pairs =>
    pairs.length * scoredSize ≤ isizeMax ∧ ∀ p ∈ pairs, BlobFits p.1 ∧ p.2.isNan = false
  | .memory config nextId records =>
    records.length ≤ u64Max ∧ config.dim ≤ u64Max ∧ 4 * (records.length * config.dim) ≤ isizeMax ∧
      nextId ≤ u64Max ∧ ∀ p ∈ records, MemoryRecordFits p

/-- The value a record is read back as. -/
def loaded (maxTerms : Nat) : Payload → LoadedValue
  | .str value => .str value
  | .list items => .list items
  | .hash pairs => .hash pairs
  | .set members => .set members
  | .zset pairs => .zset pairs
  | .memory config nextId records => .memory (rebuilt maxTerms config nextId records)

end Payload

/-- A record the loader can hold. -/
structure Record.Fits (r : Record) : Prop where
  key : BlobFits r.key
  expireAt : i64Min ≤ r.expireAt ∧ r.expireAt ≤ i64Max
  payload : r.payload.Fits

/-- The entry a record is read back as. -/
def Record.loaded (maxTerms : Nat) (r : Record) : LoadedEntry :=
  ⟨r.key, r.payload.loaded maxTerms, r.expireAt⟩

/-! ## Words -/

variable {e : Env} {w : World} {R : Panic → Prop} {E : IoError → Bytes → World → Prop}

/-- A word of ASCII characters. -/
def AsciiWord (v : List Char) : Prop := Text.Ascii v ∧ Text.Word v

theorem asciiWord_digits (n : Nat) : AsciiWord (Nat.toDigits 10 n) :=
  ⟨Text.ascii_toDigits n, Text.word_toDigits n⟩

theorem asciiWord_showInt (i : Int) : AsciiWord (Text.showInt i) :=
  ⟨Text.ascii_showInt i, Text.word_showInt i⟩

theorem asciiWord_display {f : Format} (x : SoftFloat f) : AsciiWord x.display :=
  ⟨x.display_ascii, x.display_word⟩

theorem asciiWord_chars {v : List Char} (hne : v ≠ [])
    (h : (v.all fun c => decide (c.toNat < 0x80 ∧ Text.isWhitespace c = false)) = true) :
    AsciiWord v :=
  ⟨fun c hc => (Text.forall_chars h c hc).1, hne, fun c hc => (Text.forall_chars h c hc).2⟩

theorem asciiWord_header (r : Record) : ∀ v ∈ r.headerWords, AsciiWord v := by
  intro v hv
  unfold Record.headerWords at hv
  rw [List.mem_append, List.mem_cons, List.mem_singleton] at hv
  rcases hv with (rfl | rfl) | hv
  · cases r.payload.kind <;> exact asciiWord_chars (by decide) (by decide)
  · exact asciiWord_showInt _
  · cases hc : r.payload.count with
    | none => simp [hc] at hv
    | some n =>
      simp only [hc, Option.map_some, Option.toList_some, List.mem_singleton] at hv
      subst hv
      exact asciiWord_digits n

theorem asciiWord_config (config : MemoryConfig) (nextId : Nat) :
    ∀ v ∈ Payload.configWords config nextId, AsciiWord v := by
  intro v hv
  simp only [Payload.configWords, List.mem_cons, List.not_mem_nil, or_false] at hv
  rcases hv with rfl | rfl | rfl | rfl | rfl | rfl | rfl | rfl | rfl
  · cases config.mode <;> exact asciiWord_chars (by decide) (by decide)
  · exact asciiWord_digits _
  · cases config.metric <;> exact asciiWord_chars (by decide) (by decide)
  · exact asciiWord_display _
  · exact asciiWord_display _
  · exact asciiWord_display _
  · exact asciiWord_display _
  · exact asciiWord_digits _
  · exact asciiWord_digits _

theorem asciiWord_record (record : MemoryRecord) (vector : Option (List F32)) :
    ∀ v ∈ Payload.recordWords record vector, AsciiWord v := by
  intro v hv
  simp only [Payload.recordWords, List.mem_cons, List.not_mem_nil, or_false] at hv
  rcases hv with rfl | rfl | rfl | rfl | rfl | rfl
  · exact asciiWord_showInt _
  · exact asciiWord_showInt _
  · exact asciiWord_display _
  · exact asciiWord_showInt _
  · exact asciiWord_digits _
  · exact asciiWord_digits _

/-- A line of words is read back as those words. -/
theorem sat_wordLine {words : List (List Char)} {rest : Bytes}
    {Q : Option (List Char) → Bytes → World → Prop} (h : ∀ v ∈ words, AsciiWord v)
    (hQ : Q (some (Text.unwords words)) rest w) :
    Act.SatE line e ((wordLine words).bytes ++ rest) w Q E R := by
  unfold wordLine Piece.bytes
  rw [List.append_assoc]
  exact sat_line (lineText_unwords h) hQ

theorem split_words {words : List (List Char)} (h : ∀ v ∈ words, AsciiWord v) :
    Text.splitWhitespace (Text.unwords words) = words :=
  Text.splitWhitespace_unwords fun v hv => (h v hv).2

/-! ## Collections -/

/-- Reading on after items that are wholly there. -/
theorem sat_collect_append {α : Type} {read : Io Bytes (Option α)} {render : α → Bytes} {k : Nat}
    {rest : Bytes} : ∀ {items : List α} {Q : List α → Bytes → World → Prop},
    (∀ a ∈ items, ∀ {rest : Bytes} {Q : Option α → Bytes → World → Prop}, Q (some a) rest w →
      Act.SatE read e (render a ++ rest) w Q E R) →
    Act.SatE (collect read k) e rest w (fun as s' w' => Q (items ++ as) s' w') E R →
    Act.SatE (collect read (items.length + k)) e (items.flatMap render ++ rest) w Q E R
  | [], Q, _, h => by simpa using h
  | a :: items, Q, hread, h => by
    have hlen : (a :: items).length + k = items.length + k + 1 := by
      rw [List.length_cons]
      omega
    rw [hlen, collect, List.flatMap_cons, List.append_assoc, Act.satE_bind]
    refine hread a (by simp) ?_
    simp only [Act.satE_bind, Act.satE_pure]
    exact sat_collect_append (Q := fun as s' w' => Q (a :: as) s' w')
      (fun b hb => hread b (List.mem_cons_of_mem _ hb)) h

/-- Reading items that are all there. -/
theorem sat_collect {α : Type} {read : Io Bytes (Option α)} {render : α → Bytes} {rest : Bytes}
    {items : List α} {Q : List α → Bytes → World → Prop}
    (hread : ∀ a ∈ items, ∀ {rest : Bytes} {Q : Option α → Bytes → World → Prop},
      Q (some a) rest w → Act.SatE read e (render a ++ rest) w Q E R) (hQ : Q items rest w) :
    Act.SatE (collect read items.length) e (items.flatMap render ++ rest) w Q E R := by
  refine sat_collect_append (k := 0) hread ?_
  rw [collect, Act.satE_pure, List.append_nil]
  exact hQ

/-- The bytes of a field and its value. -/
def pairBytes (p : Bytes × Bytes) : Bytes := (Piece.blob p.1).bytes ++ (Piece.blob p.2).bytes

/-- The bytes of a member and its score. -/
def scoredBytes (p : Bytes × F64) : Bytes := (Piece.blob p.1).bytes ++ (Piece.line (formatF64 p.2)).bytes

theorem sat_pair {p : Bytes × Bytes} {rest : Bytes} {Q : Option (Bytes × Bytes) → Bytes → World → Prop}
    (h : BlobFits p.1 ∧ BlobFits p.2) (hQ : Q (some p) rest w) :
    Act.SatE pair e (pairBytes p ++ rest) w Q E R := by
  unfold pair pairBytes
  simp only [Act.satE_bind, Act.satE_pure, List.append_assoc]
  exact sat_blob h.1 (sat_blob h.2 hQ)

theorem lineText_score (x : F64) : LineText x.display :=
  .of_word x.display_ascii x.display_word

theorem sat_score {x : F64} {rest : Bytes} {Q : Option F64 → Bytes → World → Prop}
    (h : x.isNan = false) (hQ : Q (some x) rest w) :
    Act.SatE score e ((Piece.line (formatF64 x)).bytes ++ rest) w Q E R := by
  unfold score Piece.bytes
  rw [formatF64_eq x h, Act.satE_bind, List.append_assoc]
  refine sat_line (lineText_score x) ?_
  rw [Act.satE_pure, Option.bind_some, ← formatF64_eq x h, parseF64_formatF64 x h]
  exact hQ

theorem sat_scored {p : Bytes × F64} {rest : Bytes} {Q : Option (Bytes × F64) → Bytes → World → Prop}
    (h : BlobFits p.1 ∧ p.2.isNan = false) (hQ : Q (some p) rest w) :
    Act.SatE scored e (scoredBytes p ++ rest) w Q E R := by
  unfold scored scoredBytes
  simp only [Act.satE_bind, Act.satE_pure, List.append_assoc]
  exact sat_blob h.1 (sat_score h.2 hQ)

/-! ## Memory records -/

theorem parseConfig_words (config : MemoryConfig) (nextId : Nat) :
    parseConfig (Payload.configWords config nextId) = some (reconfig config nextId) := by
  have hmode : Mode.parse (Text.utf8 config.mode.name.toList) = some config.mode := by
    cases config.mode <;> decide
  have hmetric : Metric.parse (Text.utf8 config.metric.name.toList) = some config.metric := by
    cases config.metric <;> decide
  have hsome : (parseConfig (Payload.configWords config nextId)).isSome = true := by
    unfold parseConfig Payload.configWords
    simp only [List.getD_cons_zero, List.getD_cons_succ, hmode, hmetric]
    split <;> rfl
  unfold reconfig
  rw [Option.isSome_iff_exists] at hsome
  obtain ⟨c, hc⟩ := hsome
  rw [hc]
  rfl

theorem reconfig_mode (config : MemoryConfig) (nextId : Nat) :
    (reconfig config nextId).mode = config.mode := by
  have hmode : Mode.parse (Text.utf8 config.mode.name.toList) = some config.mode := by
    cases config.mode <;> decide
  have hmetric : Metric.parse (Text.utf8 config.metric.name.toList) = some config.metric := by
    cases config.metric <;> decide
  have hc := parseConfig_words config nextId
  unfold parseConfig Payload.configWords at hc
  simp only [List.getD_cons_zero, List.getD_cons_succ, hmode, hmetric] at hc
  split at hc
  · rw [← Option.some.inj hc]
    dsimp only
    split <;> rfl
  · rw [← Option.some.inj hc]
    split <;> rfl

/-- The dimension survives; an index without vectors has none. -/
theorem reconfig_dim (config : MemoryConfig) (nextId : Nat) (h : config.dim ≤ u64Max) :
    (reconfig config nextId).dim = if config.mode.storesVectors then config.dim else 0 := by
  have hmode : Mode.parse (Text.utf8 config.mode.name.toList) = some config.mode := by
    cases config.mode <;> decide
  have hmetric : Metric.parse (Text.utf8 config.metric.name.toList) = some config.metric := by
    cases config.metric <;> decide
  have hc := parseConfig_words config nextId
  unfold parseConfig Payload.configWords at hc
  simp only [List.getD_cons_zero, List.getD_cons_succ, hmode, hmetric,
    Text.parseNat_toDigits h, Option.getD_some] at hc
  split at hc
  · rw [← Option.some.inj hc]
    dsimp only
    split <;> rfl
  · rw [← Option.some.inj hc]
    split <;> rfl

theorem parseLeF32_nil {bs : Bytes} (h : parseLeF32 bs = .ok []) : bs = [] := by
  unfold parseLeF32 at h
  split at h
  · rfl
  · split at h
    · cases h
    · dsimp only at h
      split at h
      · rename_i rest _ _
        cases hr : parseLeF32 rest with
        | error x => simp [hr, Except.map] at h
        | ok xs => simp [hr, Except.map] at h
      · cases h
  · cases h

/-- A vector that was written with values is not read back as an empty one. -/
theorem revector_ne_nil {vector : Option (List F32)} {values : List F32}
    (hpos : ∀ v, vector = some v → 0 < v.length) (h : revector vector = some values) :
    values ≠ [] := by
  rintro rfl
  unfold revector at h
  obtain ⟨v, rfl, hv⟩ := Option.bind_eq_some_iff.mp h
  have hok : parseLeF32 (encodeLeF32 v) = .ok [] := by
    cases hp : parseLeF32 (encodeLeF32 v) with
    | error x => simp [hp, Except.toOption] at hv
    | ok xs =>
      simp only [hp, Except.toOption, Option.some.injEq] at hv
      rw [hv]
  have hnil := parseLeF32_nil hok
  have := hpos v rfl
  cases v with
  | nil => simp at this
  | cons x v => simp [encodeLeF32, f32ToLeBytes] at hnil

/-- A vector is appended when no slot is free; only an array that is too large panics. -/
theorem insert_appends {v : VectorIndex} {values : List F32} {k : Nat}
    {Q : Nat → VectorIndex → World → Prop} (hfree : v.free = []) (hdata : v.data.length = k * v.dim)
    (hlen : values.length = v.dim) (hpos : 0 < v.dim)
    (hcap : R .capacity ∨ 4 * (v.data.length + v.dim) ≤ isizeMax)
    (hQ : Q k { v with data := v.data ++ v.prepare values, live := v.live + 1 } w) :
    Act.Sat (VectorIndex.insert values) e v w Q R := by
  have hslot : (v.data.length + v.dim) / v.dim - 1 = k := by
    rw [hdata, ← Nat.succ_mul, Nat.mul_div_cancel _ hpos]
    rfl
  unfold VectorIndex.insert VectorIndex.takeSlot VectorIndex.write
  simp only [Act.sat_bind, Act.sat_get, hfree, List.getLast?_nil, Act.sat_ite, Act.sat_set,
    Act.sat_pure, Act.sat_panic, Act.sat_modify, List.length_append, List.length_replicate, hslot]
  refine ⟨fun h => hcap.resolve_right (by omega), fun _ => ⟨fun h => absurd h (by omega), fun _ => ?_⟩⟩
  refine ⟨fun _ => ?_, fun h => absurd ⟨by omega, hlen⟩ h⟩
  have htake : List.take (k * v.dim) (v.data ++ List.replicate v.dim (SoftFloat.zero false)) = v.data := by
    rw [← hdata, List.take_left']
    rfl
  have hdrop : List.drop (k * v.dim + v.dim) (v.data ++ List.replicate v.dim (SoftFloat.zero false)) = [] := by
    rw [List.drop_eq_nil_of_le]
    simp [hdata]
  rw [htake, hdrop, List.append_nil]
  rw [hfree] at hQ
  exact hQ

theorem loadRecord_appends {m : Memory} {record : MemoryRecord} {vector : Option (List F32)}
    {maxTerms n : Nat} {Q : Unit → Memory → World → Prop} (hm : m.Appended n)
    (hvec : ∀ values, vector = some values → values ≠ [])
    (hcap : vector = none ∨ R .capacity ∨ 4 * ((n + 1) * m.config.dim) ≤ isizeMax)
    (hQ : (m.loaded record vector maxTerms).Appended (n + 1) →
      Q () (m.loaded record vector maxTerms) w) :
    Act.Sat (Memory.loadRecord record vector maxTerms) e m w Q R := by
  obtain ⟨hfree, hdim, k, hk, hdata⟩ := hm
  unfold Memory.loadRecord
  simp only [Act.sat_bind, Act.sat_modify, Act.sat_get]
  cases vector with
  | none => exact hQ ⟨hfree, hdim, k, by omega, hdata⟩
  | some values =>
    have hcap := hcap.resolve_left (Option.some_ne_none values)
    simp only [Act.sat_bind, Act.sat_ite, Act.sat_pure]
    by_cases hput : m.config.mode.storesVectors = true ∧ values.length = m.config.dim
    · have hplaced : ((some values).filter fun values =>
          m.config.mode.storesVectors && decide (values.length = m.config.dim)) = some values := by
        simp [Option.filter, hput]
      have hpos : 0 < m.vectors.dim := by
        rw [hdim, ← hput.2]
        exact List.length_pos_iff.mpr (hvec values rfl)
      have hloaded : (m.loaded record (some values) maxTerms) = { m with
          text := if m.config.mode.indexesText then m.text.index record.id none record.text maxTerms
            else m.text
          vectors :=
            { m.vectors with
              data := m.vectors.data ++ m.vectors.prepare values
              live := m.vectors.live + 1 }
          records := m.records.insert record.id { record with slot := some k } } := by
        unfold Memory.loaded
        rw [hplaced]
        simp only [Option.map_some]
        rw [hdata, ← hdim, Nat.mul_div_cancel _ hpos]
      refine ⟨fun _ => ?_, fun h => absurd hput h⟩
      unfold Memory.onVectors
      rw [Act.sat_zoom]
      refine insert_appends (k := k) hfree (hdata.trans (by rw [hdim])) (hput.2.trans hdim.symm) hpos ?_ ?_
      · have : k * m.config.dim + m.config.dim ≤ (n + 1) * m.config.dim := by
          rw [← Nat.succ_mul]
          exact Nat.mul_le_mul_right _ (by omega)
        rw [hdata, hdim]
        exact hcap.imp_right fun hle => by omega
      · rw [hloaded] at hQ
        refine hQ ⟨hfree, hdim, k + 1, by omega, ?_⟩
        simp only [List.length_append, VectorIndex.length_prepare, hdata, hput.2]
        exact (Nat.succ_mul _ _).symm
    · refine ⟨fun h => absurd h hput, fun _ => ?_⟩
      have hplaced : ((some values).filter fun values =>
          m.config.mode.storesVectors && decide (values.length = m.config.dim)) = none := by
        simp only [Option.filter]
        rw [if_neg]
        simpa using hput
      unfold Memory.loaded at hQ
      rw [hplaced] at hQ
      exact hQ ⟨hfree, hdim, k, by omega, hdata⟩

theorem sat_readMeta {rest : Bytes} {Q : Option MemoryRecord → Bytes → World → Prop} :
    ∀ {pairs : List (Bytes × Bytes)} {record : MemoryRecord},
      (∀ p ∈ pairs, BlobFits p.1 ∧ BlobFits p.2) →
      Q (some (MemoryRecord.setMetaAll pairs record).2) rest w →
      Act.SatE (readMeta pairs.length record) e (pairs.flatMap pairBytes ++ rest) w Q E R
  | [], _, _, hQ => hQ
  | (field, value) :: pairs, record, h, hQ => by
    rw [List.length_cons, readMeta, List.flatMap_cons, List.append_assoc, Act.satE_bind]
    exact sat_pair (h _ (by simp)) (sat_readMeta (fun p hp => h p (List.mem_cons_of_mem _ hp)) hQ)

/-- The bytes of the vector of a record. -/
def vectorBytes (vector : Option (List F32)) : Bytes :=
  (vector.map fun values => (Piece.blob (encodeLeF32 values)).bytes).getD []

theorem sat_readVector {vector : Option (List F32)} {rest : Bytes}
    {Q : Option (Option (List F32)) → Bytes → World → Prop}
    (h : ∀ values, vector = some values → 0 < values.length ∧ BlobFits (encodeLeF32 values))
    (hQ : Q (some (revector vector)) rest w) :
    Act.SatE (readVector ((vector.map List.length).getD 0)) e (vectorBytes vector ++ rest) w Q E R := by
  unfold readVector
  cases vector with
  | none => exact hQ
  | some values =>
    obtain ⟨hpos, hfits⟩ := h values rfl
    simp only [Option.map_some, Option.getD_some, vectorBytes, hpos, if_true, Act.satE_bind,
      Act.satE_pure]
    exact sat_blob hfits hQ

theorem recordPieces_bytes (p : MemoryRecord × Option (List F32)) :
    (Payload.recordPieces p).flatMap Piece.bytes = (Piece.blob p.1.id).bytes ++
      ((Piece.blob p.1.text).bytes ++ ((wordLine (Payload.recordWords p.1 p.2)).bytes ++
        (p.1.metadata.flatMap pairBytes ++ vectorBytes p.2))) := by
  have hmeta : ∀ ms : List (Bytes × Bytes),
      (ms.flatMap fun m => [Piece.blob m.1, Piece.blob m.2]).flatMap Piece.bytes =
        ms.flatMap pairBytes := by
    intro ms
    rw [List.flatMap_assoc]
    simp only [List.flatMap_cons, List.flatMap_nil, List.append_nil]
    rfl
  have hvec : (p.2.map fun values => Piece.blob (encodeLeF32 values)).toList.flatMap Piece.bytes =
      vectorBytes p.2 := by
    cases p.2 <;> simp [vectorBytes]
  unfold Payload.recordPieces
  rw [List.flatMap_append, List.flatMap_append, hmeta, hvec]
  simp

theorem parse_count {n : Nat} (h : n ≤ u64Max) :
    (Text.parseNat u64Max (Nat.toDigits 10 n)).getD 0 = n := by
  rw [Text.parseNat_toDigits h, Option.getD_some]

theorem length_encodeLeF32 : ∀ values : List F32, (encodeLeF32 values).length = 4 * values.length
  | [] => rfl
  | x :: values => by
    have ih := length_encodeLeF32 values
    unfold encodeLeF32 at ih ⊢
    rw [List.flatMap_cons, List.length_append, ih, List.length_cons]
    show 4 + 4 * values.length = 4 * (values.length + 1)
    omega

theorem vector_count {p : MemoryRecord × Option (List F32)} (h : MemoryRecordFits p) :
    (p.2.map List.length).getD 0 ≤ u64Max := by
  cases hv : p.2 with
  | none => simp
  | some values =>
    have := (h.vector values hv).2
    unfold BlobFits isizeMax at this
    rw [length_encodeLeF32] at this
    unfold u64Max
    simp only [Option.map_some, Option.getD_some]
    omega

/-- One memory record that is wholly there. -/
theorem sat_readRecord {p : MemoryRecord × Option (List F32)} {m : Memory} {maxTerms n : Nat}
    {rest : Bytes} {Q : Option Memory → Bytes → World → Prop} (h : MemoryRecordFits p)
    (hm : m.Appended n) (hcap : p.2 = none ∨ R .capacity ∨ 4 * ((n + 1) * m.config.dim) ≤ isizeMax)
    (hQ : (m.loaded (reparsed p) (revector p.2) maxTerms).Appended (n + 1) →
      Q (some (m.loaded (reparsed p) (revector p.2) maxTerms)) rest w) :
    Act.SatE (readRecord maxTerms m) e ((Payload.recordPieces p).flatMap Piece.bytes ++ rest) w Q E R := by
  have hwords := asciiWord_record p.1 p.2
  unfold readRecord
  rw [recordPieces_bytes]
  simp only [List.append_assoc, Act.satE_bind]
  refine sat_blob h.id (sat_blob h.text (sat_wordLine hwords ?_))
  dsimp only
  rw [split_words hwords]
  simp only [Act.satE_ite, Act.satE_bind]
  refine ⟨fun hlt => absurd hlt (by simp [Payload.recordWords]), fun _ => ?_⟩
  have h4 : (Text.parseNat u64Max ((Payload.recordWords p.1 p.2).getD 4 [])).getD 0 =
      p.1.metadata.length := parse_count h.fields
  have h5 : (Text.parseNat u64Max ((Payload.recordWords p.1 p.2).getD 5 [])).getD 0 =
      (p.2.map List.length).getD 0 := parse_count (vector_count h)
  rw [h4]
  refine sat_readMeta h.metadata ?_
  simp only [h5, Act.satE_bind]
  refine sat_readVector h.vector ?_
  simp only [Act.satE_bind, Act.satE_lift, Act.satE_pure, onValue, Act.sat_zoom, Act.sat_bind]
  refine loadRecord_appends hm ?_ (hcap.imp_left fun hnone => by rw [hnone]; rfl) hQ
  exact fun values hv => revector_ne_nil (fun v hv => (h.vector v hv).1) hv

theorem loaded_config (m : Memory) (record : MemoryRecord) (vector : Option (List F32))
    (maxTerms : Nat) : (m.loaded record vector maxTerms).config = m.config := rfl

/-- Reading on after memory records that are wholly there. -/
theorem sat_readRecords_append {maxTerms k : Nat} {rest : Bytes}
    {Q : Option Memory → Bytes → World → Prop} :
    ∀ {records : List (MemoryRecord × Option (List F32))} {m : Memory} {n : Nat},
      (∀ p ∈ records, MemoryRecordFits p) → m.Appended n →
      (R .capacity ∨ 4 * ((n + records.length) * m.config.dim) ≤ isizeMax) →
      ((records.foldl (fun m p => m.loaded (reparsed p) (revector p.2) maxTerms) m).Appended
          (n + records.length) →
        Act.SatE (readRecords maxTerms k
          (records.foldl (fun m p => m.loaded (reparsed p) (revector p.2) maxTerms) m)) e rest w Q E R) →
      Act.SatE (readRecords maxTerms (records.length + k) m) e
        ((records.flatMap Payload.recordPieces).flatMap Piece.bytes ++ rest) w Q E R
  | [], m, n, _, hm, _, h => by simpa using h hm
  | p :: records, m, n, hfit, hm, hcap, h => by
    have hlen : (p :: records).length + k = records.length + k + 1 := by
      rw [List.length_cons]
      omega
    have hsum : n + (p :: records).length = n + 1 + records.length := by
      rw [List.length_cons]
      omega
    rw [hlen, readRecords, List.flatMap_cons, List.flatMap_append, List.append_assoc, Act.satE_bind]
    rw [hsum] at hcap h
    refine sat_readRecord (hfit p (by simp)) hm ?_ fun hm' => ?_
    · refine .inr (hcap.imp_right (Nat.le_trans ?_))
      exact Nat.mul_le_mul_left _ (Nat.mul_le_mul_right _ (by omega))
    · exact sat_readRecords_append (fun q hq => hfit q (List.mem_cons_of_mem _ hq)) hm' hcap h

theorem rebuildStart_appended (config : MemoryConfig) (nextId : Nat) :
    (rebuildStart config nextId).Appended 0 := by
  refine ⟨rfl, rfl, 0, Nat.le_refl 0, ?_⟩
  simp [rebuildStart, Memory.setNextId, Memory.new]

/-- The configuration line of an index that is wholly there. -/
theorem sat_readMemory_config {config : MemoryConfig} {nextId count maxTerms : Nat} {rest : Bytes}
    {Q : Option Memory → Bytes → World → Prop}
    (h : Act.SatE (readRecords maxTerms count (rebuildStart config nextId)) e rest w Q E R) :
    Act.SatE (readMemory count maxTerms) e
      ((wordLine (Payload.configWords config nextId)).bytes ++ rest) w Q E R := by
  have hwords := asciiWord_config config nextId
  unfold readMemory
  rw [Act.satE_bind]
  refine sat_wordLine hwords ?_
  dsimp only
  rw [split_words hwords]
  simp only [Act.satE_ite]
  refine ⟨fun hlt => absurd hlt (by simp [Payload.configWords]), fun _ => ?_⟩
  rw [parseConfig_words]
  exact h

theorem capacity_reconfig {config : MemoryConfig} {nextId n : Nat} (hdim : config.dim ≤ u64Max)
    (hcap : 4 * (n * config.dim) ≤ isizeMax) :
    4 * ((0 + n) * (rebuildStart config nextId).config.dim) ≤ isizeMax := by
  have hd : (rebuildStart config nextId).config.dim ≤ config.dim := by
    show (reconfig config nextId).dim ≤ config.dim
    rw [reconfig_dim config nextId hdim]
    split
    · exact Nat.le_refl _
    · exact Nat.zero_le _
  refine Nat.le_trans ?_ hcap
  rw [Nat.zero_add]
  exact Nat.mul_le_mul_left _ (Nat.mul_le_mul_left _ hd)

/-- A memory index that is wholly there; only an array of vectors that is too large panics. -/
theorem sat_readMemory {config : MemoryConfig} {nextId maxTerms : Nat}
    {records : List (MemoryRecord × Option (List F32))} {rest : Bytes}
    {Q : Option Memory → Bytes → World → Prop} (hdim : config.dim ≤ u64Max)
    (hcap : R .capacity ∨ 4 * (records.length * config.dim) ≤ isizeMax)
    (hfits : ∀ p ∈ records, MemoryRecordFits p)
    (hQ : Q (some (rebuilt maxTerms config nextId records)) rest w) :
    Act.SatE (readMemory records.length maxTerms) e
      ((Payload.memory config nextId records).pieces.flatMap Piece.bytes ++ rest) w Q E R := by
  unfold Payload.pieces
  rw [List.flatMap_cons, List.append_assoc]
  refine sat_readMemory_config ?_
  exact sat_readRecords_append (k := 0) hfits (rebuildStart_appended config nextId)
    (hcap.imp_right (capacity_reconfig hdim)) fun _ => hQ

/-! ## Records -/

theorem hashPieces_bytes (pairs : List (Bytes × Bytes)) :
    (Payload.pieces (.hash pairs)).flatMap Piece.bytes = pairs.flatMap pairBytes := by
  unfold Payload.pieces
  rw [List.flatMap_assoc]
  simp only [List.flatMap_cons, List.flatMap_nil, List.append_nil]
  rfl

theorem zsetPieces_bytes (pairs : List (Bytes × F64)) :
    (Payload.pieces (.zset pairs)).flatMap Piece.bytes = pairs.flatMap scoredBytes := by
  unfold Payload.pieces
  rw [List.flatMap_assoc]
  simp only [List.flatMap_cons, List.flatMap_nil, List.append_nil]
  rfl

theorem blobPieces_bytes (items : List Bytes) :
    (items.map Piece.blob).flatMap Piece.bytes = items.flatMap fun b => (Piece.blob b).bytes := by
  rw [List.flatMap_map]

/-- A value that is wholly there. -/
theorem sat_readValue {p : Payload} {maxTerms : Nat} {rest : Bytes}
    {Q : Option LoadedValue → Bytes → World → Prop} (h : p.Fits)
    (hQ : Q (some (p.loaded maxTerms)) rest w) :
    Act.SatE (readValue (p.count.getD 0) maxTerms p.kind) e (p.pieces.flatMap Piece.bytes ++ rest) w
      Q E R := by
  cases p with
  | str value =>
    unfold Payload.kind readValue Payload.pieces
    simp only [List.flatMap_cons, List.flatMap_nil, List.append_nil, Act.satE_bind, Act.satE_pure]
    exact sat_blob h hQ
  | list items =>
    unfold Payload.kind readValue Payload.pieces
    simp only [Act.satE_bind, Act.satE_pure]
    refine sat_withCapacity h.1 ?_
    rw [blobPieces_bytes]
    exact sat_collect (fun b hb => sat_blob (h.2 b hb)) hQ
  | set members =>
    unfold Payload.kind readValue Payload.pieces
    simp only [Act.satE_bind, Act.satE_pure]
    refine sat_withCapacity h.1 ?_
    rw [blobPieces_bytes]
    exact sat_collect (fun b hb => sat_blob (h.2 b hb)) hQ
  | hash pairs =>
    rw [hashPieces_bytes]
    unfold Payload.kind readValue
    simp only [Act.satE_bind, Act.satE_pure]
    exact sat_withCapacity h.1 (sat_collect (fun p hp => sat_pair (h.2 p hp)) hQ)
  | zset pairs =>
    rw [zsetPieces_bytes]
    unfold Payload.kind readValue
    simp only [Act.satE_bind, Act.satE_pure]
    exact sat_withCapacity h.1 (sat_collect (fun p hp => sat_scored (h.2 p hp)) hQ)
  | memory config nextId records =>
    unfold Payload.kind readValue
    simp only [Act.satE_bind, Act.satE_pure]
    exact sat_readMemory h.2.1 (.inr h.2.2.1) h.2.2.2.2 hQ

theorem kindOf_kindWord (ty : StoreType) : kindOf (kindWord ty).toList = some ty := by
  cases ty <;> decide

theorem count_le {p : Payload} (h : p.Fits) (n : Nat) (hn : p.count = some n) : n ≤ u64Max := by
  cases p with
  | str value => cases hn
  | list items =>
    cases hn
    have := h.1
    unfold bytesSize isizeMax at this
    unfold u64Max
    omega
  | set items =>
    cases hn
    have := h.1
    unfold bytesSize isizeMax at this
    unfold u64Max
    omega
  | hash pairs =>
    cases hn
    have := h.1
    unfold pairSize isizeMax at this
    unfold u64Max
    omega
  | zset pairs =>
    cases hn
    have := h.1
    unfold scoredSize isizeMax at this
    unfold u64Max
    omega
  | memory config nextId records =>
    cases hn
    exact h.1

/-- The body of a record after its header line, with the key still to be read. -/
theorem sat_readEntry_header {r : Record} (h : r.Fits) {maxTerms : Nat} {input : Bytes}
    {Q : Round → Bytes → World → Prop}
    (hbody : Act.SatE blob e input w (fun key s' w' => match key with
      | none => Q .stop s' w'
      | some key => Act.SatE (readValue (r.payload.count.getD 0) maxTerms r.payload.kind) e s' w'
        (fun value s'' w'' => match value with
          | none => Q .stop s'' w''
          | some value => Q (.entry ⟨key, value, r.expireAt⟩) s'' w'') E R) E R) :
    Act.SatE (readEntry maxTerms (Text.unwords r.headerWords)) e input w Q E R := by
  have hcount : (((r.payload.count.map (Nat.toDigits 10)).toList.head?).bind
      (Text.parseNat u64Max)).getD 0 = r.payload.count.getD 0 := by
    cases hc : r.payload.count with
    | none => rfl
    | some n => simp [Text.parseNat_toDigits (count_le h.payload n hc)]
  unfold readEntry
  rw [split_words (asciiWord_header r)]
  unfold Record.headerWords
  simp only [List.cons_append, List.nil_append, Act.satE_bind, Text.parseInt_showInt h.expireAt,
    Option.getD_some, hcount, kindOf_kindWord]
  refine Act.satE_mono hbody ?_ (fun _ _ _ h => h) (fun _ h => h)
  rintro (_ | key) s' w' hk
  · exact hk
  · simp only [Act.satE_bind]
    refine Act.satE_mono hk ?_ (fun _ _ _ h => h) (fun _ h => h)
    rintro (_ | value) s'' w'' hv
    · exact hv
    · exact hv

theorem Record.bytes_eq (r : Record) :
    r.bytes = (wordLine r.headerWords).bytes ++
      ((Piece.blob r.key).bytes ++ r.payload.pieces.flatMap Piece.bytes) := by
  unfold Record.bytes Record.pieces
  rw [List.flatMap_cons, List.flatMap_cons]

/-- **Records that are wholly there are read back**, and the loader goes on after them. -/
theorem sat_loadV2 {maxTerms : Nat} {rest : Bytes} :
    ∀ {rs : List Record} {fuel : Nat} {Q : List LoadedEntry → Bytes → World → Prop},
      (∀ r ∈ rs, r.Fits) →
      Act.SatE (loadV2 maxTerms fuel) e rest w
        (fun es s' w' => Q (rs.map (Record.loaded maxTerms) ++ es) s' w') E R →
      Act.SatE (loadV2 maxTerms (rs.length + fuel)) e (rs.flatMap Record.bytes ++ rest) w Q E R
  | [], fuel, Q, _, h => by simpa using h
  | r :: rs, fuel, Q, hfit, h => by
    have hr := hfit r (by simp)
    have hlen : (r :: rs).length + fuel = rs.length + fuel + 1 := by
      rw [List.length_cons]
      omega
    rw [hlen, loadV2, List.flatMap_cons, r.bytes_eq]
    simp only [List.append_assoc, Act.satE_bind]
    refine sat_wordLine (asciiWord_header r) ?_
    dsimp only
    rw [Act.satE_bind]
    refine sat_readEntry_header hr (sat_blob hr.key (sat_readValue hr.payload ?_))
    simp only [Act.satE_bind, Act.satE_pure]
    exact sat_loadV2 (Q := fun es s' w' => Q (r.loaded maxTerms :: es) s' w')
      (fun q hq => hfit q (List.mem_cons_of_mem _ hq)) h

/-- The end of the input. -/
theorem sat_loadV2_end {maxTerms fuel : Nat} {Q : List LoadedEntry → Bytes → World → Prop}
    (hQ : Q [] [] w) : Act.SatE (loadV2 maxTerms fuel) e [] w Q E R := by
  cases fuel with
  | zero => exact hQ
  | succ fuel =>
    rw [loadV2, Act.satE_bind]
    exact sat_lineEnd hQ

end Klyro
