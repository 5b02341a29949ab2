import Klyro.Types.Memory.Fuse
import Klyro.Types.Memory.Text
import Klyro.Types.Memory.Vector

/-!
# Memory indexes (`types/memory/mod.rs`)

One key holds one memory index: its records, the inverted index over their texts and the array of
their vectors.  An operation that reads the clock is a `Run Memory`.
-/

set_option autoImplicit false

namespace Klyro

/-- Which retrieval structure a key is. -/
inductive Mode where
  | search | vector | hybrid
deriving DecidableEq

namespace Mode

/-- `Mode::parse`. -/
def parse (word : Bytes) : Option Mode :=
  if eqIgnoreCase word "SEARCH" then some .search
  else if eqIgnoreCase word "VECTOR" then some .vector
  else if eqIgnoreCase word "HYBRID" then some .hybrid
  else none

/-- `Mode::name`. -/
def name : Mode → String
  | .search => "SEARCH"
  | .vector => "VECTOR"
  | .hybrid => "HYBRID"

/-- `indexes_text`. -/
def indexesText (m : Mode) : Bool := m != .vector

/-- `stores_vectors`. -/
def storesVectors (m : Mode) : Bool := m != .search

end Mode

/-- The fixed properties of an index. -/
structure MemoryConfig where
  mode : Mode
  dim : Nat
  metric : Metric
  weights : Weights
  halfLife : Duration
deriving DecidableEq

/-- `Duration::from_secs`. -/
def fromSecs (n : Nat) : Duration := n * nanosPerSec

/-- `MemoryConfig::new`. -/
def MemoryConfig.new (mode : Mode) (dim : Nat) (metric : Metric) : MemoryConfig where
  mode := mode
  dim := if mode.storesVectors then dim else 0
  metric := metric
  weights := Weights.default
  halfLife := fromSecs (7 * 24 * 3600)

/-- Why an operation was refused. -/
inductive MemoryError where
  | vectorsNotSupported
  | textNotSupported
  | vectorRequired
  | vector (error : VectorError)
  | noSuchRecord
  | tooLargeToScan (records limit : Nat)
  | existenceUnmet
  | full (limit : Nat)
deriving DecidableEq

/-- Everything `MEM.ADD` can carry. -/
structure AddRequest where
  id : Option Bytes := none
  text : Bytes := []
  vector : Option (List F32) := none
  metadata : List (Bytes × Bytes) := []
  importance : Option F32 := none
  ttl : Option Duration := none
  requireNew : Bool := false
  requireExisting : Bool := false
deriving DecidableEq

/-- A memory index. -/
structure Memory where
  config : MemoryConfig
  records : Assoc Bytes MemoryRecord := ∅
  text : TextIndex := {}
  vectors : VectorIndex
  nextId : Nat := 1
deriving DecidableEq

namespace Memory

/-- `Memory::new`. -/
def new (config : MemoryConfig) : Memory where
  config := config
  vectors := { dim := config.dim, metric := config.metric }

/-- Run on the vector index. -/
def onVectors {α : Type} (m : Run VectorIndex α) : Run Memory α :=
  Act.zoom Memory.vectors (fun v m => { m with vectors := v }) m

/-- `len`. -/
def len (m : Memory) : Nat := m.records.size

/-- A record that is live at `now`. -/
def liveRecord (m : Memory) (id : Bytes) (now : SystemTime) : Option MemoryRecord :=
  (m.records.lookup id).filter fun r => r.isLive now

/-- `get`. -/
def get (id : Bytes) : Run Memory (Option MemoryRecord) := do
  let t ← now
  let m ← Act.get
  pure (m.liveRecord id t)

/-- `vector_of`. -/
def vectorOf (m : Memory) (record : MemoryRecord) : Option (List F32) :=
  record.slot.bind m.vectors.get

/-- The ids of the records live at `now`, sorted. -/
def liveIds (m : Memory) (now : SystemTime) : List Bytes :=
  sortBy cmpBytes ((m.records.pairs.filter fun p => p.2.isLive now).map fun p => p.2.id)

/-- `sorted_ids`. -/
def sortedIds : Run Memory (List Bytes) := do
  let t ← now
  let m ← Act.get
  pure (m.liveIds t)

/-- `scan`. -/
def scan (cursor count : Nat) (filter : Filter) : Run Memory (List Bytes × Nat) := do
  let t ← now
  let ids ← sortedIds
  let m ← Act.get
  if ids.length ≤ cursor then pure ([], 0)
  else
    let stop := Nat.min ((cursor + Nat.max count 1) % (u64Max + 1)) ids.length
    if stop < cursor then Act.panic .bounds
    else
      let batch := ((ids.take stop).drop cursor).filter fun id =>
        (m.records.lookup id).any fun r => filter.accepts r t
      pure (batch, if ids.length ≤ stop then 0 else stop)

/-- The checks of `add`, in their order. -/
def addRefusal (m : Memory) (request : AddRequest) (id : Bytes) (now : SystemTime)
    (maxRecords : Nat) : Option MemoryError :=
  let existing := (m.liveRecord id now).isSome
  if (request.requireNew && existing) || (request.requireExisting && !existing) then
    some .existenceUnmet
  else if !existing && decide (0 < maxRecords) && decide (maxRecords ≤ m.records.size) then
    some (.full maxRecords)
  else
    match request.vector, m.config.mode.storesVectors with
    | some values, true => (m.vectors.validate values).map .vector
    | some _, false => some .vectorsNotSupported
    | none, _ =>
      if m.config.mode == .vector && !existing then some .vectorRequired else none

/-- The record `add` stores, before its vector is placed. -/
def addedRecord (m : Memory) (request : AddRequest) (id : Bytes) (now : SystemTime) : MemoryRecord :=
  let base := match m.records.lookup id with
    | some record => { record with text := request.text, updatedAt := now }
    | none => MemoryRecord.new id request.text now
  let base := (MemoryRecord.setMetaAll request.metadata base).2
  match request.importance with
  | some importance => { base with importance := clampUnit importance }
  | none => base

/-- Place the vector of an added record. -/
def placeVector (record : MemoryRecord) : Option (List F32) → Run Memory MemoryRecord
  | none => pure record
  | some values =>
    match record.slot with
    | some slot => do
      onVectors (VectorIndex.overwrite slot values)
      pure { record with slot := some slot }
    | none => do
      let slot ← onVectors (VectorIndex.insert values)
      pure { record with slot := some slot }

/-- The part of `add` after its checks. -/
def addChecked (request : AddRequest) (id : Bytes) (t : SystemTime) (maxTerms : Nat) :
    Run Memory Unit := do
  let m ← Act.get
  let previous := (m.records.lookup id).map MemoryRecord.text
  let updated := m.addedRecord request id t
  let updated ← match request.ttl with
    | some ttl => do
      let deadline ← addDuration t ttl
      pure { updated with expireAt := some deadline }
    | none => pure updated
  let updated ← placeVector updated request.vector
  Act.modify fun m =>
    { m with
      text := if m.config.mode.indexesText then m.text.index id previous updated.text maxTerms
        else m.text
      records := m.records.insert id updated }

/-- The id of an added record: the given one, or the next of the counter. -/
def addId : Option Bytes → Run Memory Bytes
  | some id => pure id
  | none => Act.state fun m =>
    (Text.utf8 ('m' :: Nat.toDigits 10 m.nextId),
      { m with nextId := (m.nextId + 1) % (u64Max + 1) })

/-- `add`. -/
def add (request : AddRequest) (maxTerms maxRecords : Nat) : Run Memory (Except MemoryError Bytes) := do
  let t ← now
  let id ← addId request.id
  let m ← Act.get
  match m.addRefusal request id t maxRecords with
  | some error => pure (.error error)
  | none => do
    addChecked request id t maxTerms
    pure (.ok id)

/-- `del`. -/
def del (m : Memory) (id : Bytes) (maxTerms : Nat) : Bool × Memory :=
  match m.records.lookup id with
  | none => (false, m)
  | some record =>
    (true, { m with
      records := m.records.erase id
      text := if m.config.mode.indexesText then m.text.remove id record.text maxTerms else m.text
      vectors := match record.slot with
        | some slot => m.vectors.remove slot
        | none => m.vectors })

/-- Delete every id, counting those that were there. -/
def delAll (maxTerms : Nat) : List Bytes → Memory → Nat × Memory
  | [], m => (0, m)
  | id :: ids, m =>
    let one := m.del id maxTerms
    let rest := delAll maxTerms ids one.2
    (if one.1 then rest.1 + 1 else rest.1, rest.2)

/-- Change a record that is live now. -/
def onLive {α : Type} (id : Bytes) (f : SystemTime → MemoryRecord → Run Memory (α × MemoryRecord)) :
    Run Memory (Except MemoryError α) := do
  let t ← now
  let m ← Act.get
  match m.liveRecord id t with
  | none => pure (.error .noSuchRecord)
  | some record => do
    let r ← f t record
    Act.modify fun m => { m with records := m.records.insert id r.2 }
    pure (.ok r.1)

/-- `set_meta`. -/
def setMeta (id : Bytes) (pairs : List (Bytes × Bytes)) : Run Memory (Except MemoryError Nat) :=
  onLive id fun t record =>
    let r := MemoryRecord.setMetaAll pairs record
    pure (r.1, { r.2 with updatedAt := t })

/-- `remove_meta`. -/
def removeMeta (id : Bytes) (fields : List Bytes) : Run Memory (Except MemoryError Nat) :=
  onLive id fun t record =>
    let r := MemoryRecord.removeMetaAll fields record
    pure (r.1, { r.2 with updatedAt := t })

/-- `set_record_ttl`. -/
def setRecordTtl (id : Bytes) (ttl : Option Duration) : Run Memory (Except MemoryError Unit) :=
  onLive id fun t record =>
    match ttl with
    | some d => do
      let deadline ← addDuration t d
      pure ((), { record with expireAt := some deadline })
    | none => pure ((), { record with expireAt := none })

/-- `record_pttl`. -/
def recordPttl (id : Bytes) : Run Memory Int := do
  let t ← now
  let m ← Act.get
  pure (match m.liveRecord id t with
    | none => -2
    | some record =>
      match record.expireAt with
      | none => -1
      | some deadline =>
        match durationSince deadline t with
        | some left => wrapI64 (asMillis left)
        | none => 0)

/-- `sweep_expired`. -/
def sweepExpired (maxTerms : Nat) : Run Memory Nat := do
  let t ← now
  let m ← Act.get
  let dead := (m.records.pairs.filter fun p => !p.2.isLive t).map fun p => p.2.id
  Act.set (delAll maxTerms dead m).2
  pure dead.length

/-- `search_vector`. -/
def searchVector (query : List F32) (limit : Nat) (filter : Filter) (maxScan : Nat) :
    Run Memory (Except MemoryError (List (Bytes × F32))) := do
  let m ← Act.get
  if !m.config.mode.storesVectors then pure (.error .vectorsNotSupported)
  else if query.length ≠ m.config.dim then
    pure (.error (.vector (.wrongDimension m.config.dim query.length)))
  else if maxScan < m.vectors.scanCost then pure (.error (.tooLargeToScan m.vectors.scanCost maxScan))
  else do
    let t ← now
    let scored := (m.records.pairs.filter fun p => filter.accepts p.2 t).filterMap fun p =>
      (p.2.slot.bind fun slot => m.vectors.similarity slot query).map fun score => (p.2.id, score)
    pure (.ok ((sortBy TextIndex.cmpHits scored).take limit))

/-- `search_text`. -/
def searchText (query : Bytes) (limit : Nat) (filter : Filter) (maxTerms : Nat) :
    Run Memory (Except MemoryError (List (Bytes × F32))) := do
  let m ← Act.get
  if !m.config.mode.indexesText then pure (.error .textNotSupported)
  else do
    let t ← now
    let e ← env
    let terms := tokenize query maxTerms
    pure (.ok (m.text.search e.ln terms limit fun id =>
      (m.records.lookup id).any fun record => filter.accepts record t))

/-- The vector part of `query`, with the keyword candidates at hand. -/
def queryRest (keyword : List (Bytes × F32)) (vectorQuery : Option (List F32)) (limit : Nat)
    (filter : Filter) (weights : Weights) (fusion : Fusion) (maxScan : Nat) :
    Run Memory (Except MemoryError (List Hit)) := do
  let vector ← match vectorQuery with
    | some query => searchVector query limit filter maxScan
    | none => pure (.ok [])
  match vector with
  | .error e => pure (.error e)
  | .ok vector => do
    let t ← now
    let e ← env
    let m ← Act.get
    pure (.ok (fuse e.powf keyword vector (fun id => m.records.lookup id) weights fusion
      m.config.halfLife t))

/-- `query`. -/
def query (textQuery : Option Bytes) (vectorQuery : Option (List F32)) (limit : Nat)
    (filter : Filter) (weights : Weights) (fusion : Fusion) (maxTerms maxScan : Nat) :
    Run Memory (Except MemoryError (List Hit)) := do
  let keyword ← match textQuery with
    | some query => searchText query limit filter maxTerms
    | none => pure (.ok [])
  match keyword with
  | .error e => pure (.error e)
  | .ok keyword => queryRest keyword vectorQuery limit filter weights fusion maxScan

/-- `records_for_dump`. -/
def recordsForDump : Run Memory (List (MemoryRecord × Option (List F32))) := do
  let t ← now
  let ids ← sortedIds
  let m ← Act.get
  let records := ((sortBy cmpBytes ids).filterMap fun id => m.records.lookup id).filter fun r => r.isLive t
  pure (records.map fun r => (r, m.vectorOf r))

/-- `load_record`. -/
def loadRecord (record : MemoryRecord) (vector : Option (List F32)) (maxTerms : Nat) :
    Run Memory Unit := do
  Act.modify fun m =>
    { m with
      text := if m.config.mode.indexesText then m.text.index record.id none record.text maxTerms
        else m.text }
  let m ← Act.get
  let slot ← match vector with
    | some values =>
      if m.config.mode.storesVectors ∧ values.length = m.config.dim then do
        let slot ← onVectors (VectorIndex.insert values)
        pure (some slot)
      else pure none
    | none => pure none
  Act.modify fun m => { m with records := m.records.insert record.id { record with slot := slot } }

/-- `set_next_id`. -/
def setNextId (m : Memory) (nextId : Nat) : Memory := { m with nextId := Nat.max nextId 1 }

/-- `clone`: the index is rebuilt from its records, without a term cap. -/
def clone : Run Memory Memory := do
  let records ← recordsForDump
  let m ← Act.get
  Act.zoom (fun _ => Memory.new m.config) (fun _ m => m) do
    Act.forList (fun p => loadRecord p.1 p.2 u64Max) records
    let copy ← Act.get
    pure (copy.setNextId m.nextId)

/-- The records are filed under their ids. -/
def Keyed (m : Memory) : Prop := ∀ id r, m.records.lookup id = some r → r.id = id

end Memory

end Klyro
