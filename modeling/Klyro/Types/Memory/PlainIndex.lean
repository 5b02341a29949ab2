import Klyro.Lib.Follows
import Klyro.Lib.Mapped
import Klyro.Persist.Copied
import Klyro.Types.Memory.Bm25

/-!
# A memory index is a map of records with their vectors

What a memory index is for: without slots, free lists and posting lists.

* `PlainIndex` — the map, with the operations of an index on it.
* `Memory.plain` — the map an index stands for.
* `IndexCall` — the operations with their answers, on either.
-/

set_option autoImplicit false

namespace Klyro

/-! ## The plain index -/

/-- A record, its slot left out, with its vector. -/
structure Item where
  record : MemoryRecord
  vector : Option (List F32)
deriving DecidableEq

/-- What an index stands for. -/
structure PlainIndex where
  config : MemoryConfig
  items : Assoc Bytes Item
  nextId : Nat

namespace PlainIndex

/-- Nothing yet. -/
def new (config : MemoryConfig) : PlainIndex where
  config := config
  items := ∅
  nextId := 1

/-- A record that is live, with its vector. -/
def live (p : PlainIndex) (id : Bytes) (t : SystemTime) : Option Item :=
  (p.items.lookup id).filter fun i => i.record.isLive t

/-- How many records have a vector. -/
def vectorCount (p : PlainIndex) : Nat := p.items.pairs.countP fun q => q.2.vector.isSome

/-- A vector as it is kept: of length one where only directions are compared. -/
def prepare (p : PlainIndex) (values : List F32) : List F32 :=
  if p.config.metric.normalizes then normalized values else values

/-- What is wrong with a vector. -/
def fault (p : PlainIndex) (values : List F32) : Option VectorError :=
  if values.length ≠ p.config.dim then some (.wrongDimension p.config.dim values.length)
  else if p.config.metric.normalizes && (norm values).feq (SoftFloat.zero false) then some .zeroVector
  else none

/-- How like two vectors are. -/
def score (p : PlainIndex) (stored query : List F32) : F32 :=
  match p.config.metric with
  | .cosine | .innerProduct => dot stored query
  | .l2 => (l2Distance stored query).negate

/-- The id of an addition. -/
def addedId (p : PlainIndex) (request : AddRequest) : Bytes :=
  request.id.getD (Text.utf8 ('m' :: Nat.toDigits 10 p.nextId))

/-- The counter after it. -/
def numbered (p : PlainIndex) (request : AddRequest) : PlainIndex :=
  match request.id with
  | some _ => p
  | none => { p with nextId := (p.nextId + 1) % (u64Max + 1) }

/-- Why an addition is refused. -/
def refusal (p : PlainIndex) (request : AddRequest) (id : Bytes) (t : SystemTime) (maxRecords : Nat) :
    Option MemoryError :=
  let existing := (p.live id t).isSome
  if (request.requireNew && existing) || (request.requireExisting && !existing) then
    some .existenceUnmet
  else if !existing && decide (0 < maxRecords) && decide (maxRecords ≤ p.items.size) then
    some (.full maxRecords)
  else
    match request.vector, p.config.mode.storesVectors with
    | some values, true => (p.fault values).map .vector
    | some _, false => some .vectorsNotSupported
    | none, _ =>
      if p.config.mode == .vector && !existing then some .vectorRequired else none

/-- What an addition files: on what is there under the id, expired or not. -/
def added (p : PlainIndex) (request : AddRequest) (id : Bytes) (t : SystemTime) : Item :=
  let base := match p.items.lookup id with
    | some i => { i.record with text := request.text, updatedAt := t }
    | none => MemoryRecord.new id request.text t
  { record := Memory.applied request t base
    vector := (request.vector.map p.prepare).or ((p.items.lookup id).bind Item.vector) }

/-- `MEM.ADD`. -/
def add (request : AddRequest) (maxRecords : Nat) : Run PlainIndex (Except MemoryError Bytes) := do
  let t ← now
  let p ← Act.get
  let id := p.addedId request
  match p.refusal request id t maxRecords with
  | some error => do
    Act.set (p.numbered request)
    pure (.error error)
  | none => do
    Act.set { p.numbered request with items := p.items.insert id (p.added request id t) }
    pure (.ok id)

/-- `MEM.DEL` of one id. -/
def del (id : Bytes) : Run PlainIndex Bool :=
  Act.state fun p => ((p.items.lookup id).isSome, { p with items := p.items.erase id })

/-- The records that have expired go. -/
def sweep : Run PlainIndex Nat := do
  let t ← now
  let p ← Act.get
  let dead := (p.items.pairs.filter fun q => !q.2.record.isLive t).map fun q => q.2.record.id
  Act.set { p with items := dead.foldl (fun items id => items.erase id) p.items }
  pure dead.length

/-- Change a record that is live. -/
def onLive {α : Type} (id : Bytes) (f : SystemTime → MemoryRecord → α × MemoryRecord) :
    Run PlainIndex (Except MemoryError α) := do
  let t ← now
  let p ← Act.get
  match p.live id t with
  | none => pure (.error .noSuchRecord)
  | some i => do
    let r := f t i.record
    Act.set { p with items := p.items.insert id { i with record := r.2 } }
    pure (.ok r.1)

/-- `MEM.GET`. -/
def get (id : Bytes) : Run PlainIndex (Option Item) := do
  let t ← now
  let p ← Act.get
  pure (p.live id t)

/-- The ids of the live records, sorted. -/
def liveIds (p : PlainIndex) (t : SystemTime) : List Bytes :=
  sortBy cmpBytes ((p.items.pairs.filter fun q => q.2.record.isLive t).map fun q => q.2.record.id)

/-- Whether a filter lets the record with an id through. -/
def admits (p : PlainIndex) (filter : Filter) (t : SystemTime) (id : Bytes) : Bool :=
  (p.items.lookup id).any fun i => filter.accepts i.record t

/-- `MEM.VSEARCH`: every record a filter lets through is compared with the query. -/
def searchVector (query : List F32) (limit : Nat) (filter : Filter) (maxScan : Nat) :
    Run PlainIndex (Except MemoryError (List (Bytes × F32))) := do
  let p ← Act.get
  if !p.config.mode.storesVectors then pure (.error .vectorsNotSupported)
  else if query.length ≠ p.config.dim then
    pure (.error (.vector (.wrongDimension p.config.dim query.length)))
  else if maxScan < p.vectorCount then pure (.error (.tooLargeToScan p.vectorCount maxScan))
  else do
    let t ← now
    let scored := (p.items.pairs.filter fun q => filter.accepts q.2.record t).filterMap fun q =>
      q.2.vector.map fun v => (q.2.record.id, p.score v query)
    pure (.ok ((sortBy TextIndex.cmpHits scored).take limit))

/-- The records as documents. -/
def corpus (p : PlainIndex) (cap : Nat) : List Bm25.Doc :=
  p.items.pairs.map fun q => (q.1, firstTerms q.2.record.text cap)

/-- `MEM.SEARCH`: the texts of the records are compared with the query. -/
def searchText (query : Bytes) (limit : Nat) (filter : Filter) (cap : Nat) :
    Run PlainIndex (Except MemoryError (List (Bytes × F32))) := do
  let p ← Act.get
  if !p.config.mode.indexesText then pure (.error .textNotSupported)
  else do
    let t ← now
    let e ← env
    pure (.ok (Bm25.answer e.ln (p.corpus cap) (firstTerms query cap) limit (p.admits filter t)))

/-- Both parts of a query fused. -/
def queryRest (keyword : List (Bytes × F32)) (vectorQuery : Option (List F32)) (limit : Nat)
    (filter : Filter) (weights : Weights) (fusion : Fusion) (maxScan : Nat) :
    Run PlainIndex (Except MemoryError (List Hit)) := do
  let vector ← match vectorQuery with
    | some query => searchVector query limit filter maxScan
    | none => pure (.ok [])
  match vector with
  | .error e => pure (.error e)
  | .ok vector => do
    let t ← now
    let e ← env
    let p ← Act.get
    pure (.ok (fuse e.powf keyword vector (fun id => (p.items.lookup id).map Item.record) weights fusion
      p.config.halfLife t))

/-- `MEM.QUERY`. -/
def query (textQuery : Option Bytes) (vectorQuery : Option (List F32)) (limit : Nat) (filter : Filter)
    (weights : Weights) (fusion : Fusion) (cap maxScan : Nat) :
    Run PlainIndex (Except MemoryError (List Hit)) := do
  let keyword ← match textQuery with
    | some query => searchText query limit filter cap
    | none => pure (.ok [])
  match keyword with
  | .error e => pure (.error e)
  | .ok keyword => queryRest keyword vectorQuery limit filter weights fusion maxScan

end PlainIndex

/-! ## Calls -/

/-- What may be asked of an index. -/
inductive IndexCall where
  | add (request : AddRequest) (maxRecords : Nat)
  | del (id : Bytes)
  | sweep
  | setMeta (id : Bytes) (pairs : List (Bytes × Bytes))
  | removeMeta (id : Bytes) (fields : List Bytes)
  | setTtl (id : Bytes) (ttl : Option Duration)
  | get (id : Bytes)
  | list
  | sizes
  | searchVector (query : List F32) (limit : Nat) (filter : Filter) (maxScan : Nat)
  | searchText (query : Bytes) (limit : Nat) (filter : Filter)
  | query (textQuery : Option Bytes) (vectorQuery : Option (List F32)) (limit : Nat) (filter : Filter)
    (weights : Weights) (fusion : Fusion) (maxScan : Nat)

/-- What it answers. -/
inductive IndexReply where
  | added (result : Except MemoryError Bytes)
  | flag (found : Bool)
  | count (n : Nat)
  | counted (result : Except MemoryError Nat)
  | done (result : Except MemoryError Unit)
  | item (found : Option Item)
  | ids (ids : List Bytes)
  | sizes (records vectors nextId : Nat)
  | hits (result : Except MemoryError (List (Bytes × F32)))
  | fused (result : Except MemoryError (List Hit))

namespace Memory

/-- A record with its vector. -/
def item (m : Memory) (r : MemoryRecord) : Item where
  record := unslotted r
  vector := m.vectorOf r

/-- **The map an index stands for.** -/
def plain (m : Memory) : PlainIndex where
  config := m.config
  items := m.records.mapValues m.item
  nextId := m.nextId

end Memory

namespace IndexCall

/-- The call on the index. -/
def exec (cap : Nat) : IndexCall → Run Memory IndexReply
  | add request maxRecords => IndexReply.added <$> Memory.add request cap maxRecords
  | del id => Act.state fun m => (.flag (m.del id cap).1, (m.del id cap).2)
  | sweep => IndexReply.count <$> Memory.sweepExpired cap
  | setMeta id pairs => IndexReply.counted <$> Memory.setMeta id pairs
  | removeMeta id fields => IndexReply.counted <$> Memory.removeMeta id fields
  | setTtl id ttl => IndexReply.done <$> Memory.setRecordTtl id ttl
  | get id => do
    let r ← Memory.get id
    let m ← Act.get
    pure (.item (r.map m.item))
  | list => IndexReply.ids <$> Memory.sortedIds
  | sizes => do
    let m ← Act.get
    pure (.sizes m.len m.vectors.live m.nextId)
  | searchVector values limit filter maxScan =>
    IndexReply.hits <$> Memory.searchVector values limit filter maxScan
  | searchText text limit filter => IndexReply.hits <$> Memory.searchText text limit filter cap
  | query textQuery vectorQuery limit filter weights fusion maxScan =>
    IndexReply.fused <$> Memory.query textQuery vectorQuery limit filter weights fusion cap maxScan

/-- The call on the map. -/
def plain (cap : Nat) : IndexCall → Run PlainIndex IndexReply
  | add request maxRecords => IndexReply.added <$> PlainIndex.add request maxRecords
  | del id => IndexReply.flag <$> PlainIndex.del id
  | sweep => IndexReply.count <$> PlainIndex.sweep
  | setMeta id pairs => IndexReply.counted <$> PlainIndex.onLive id fun t r =>
    let r := MemoryRecord.setMetaAll pairs r
    (r.1, { r.2 with updatedAt := t })
  | removeMeta id fields => IndexReply.counted <$> PlainIndex.onLive id fun t r =>
    let r := MemoryRecord.removeMetaAll fields r
    (r.1, { r.2 with updatedAt := t })
  | setTtl id ttl => IndexReply.done <$> PlainIndex.onLive id fun t r =>
    ((), { r with expireAt := ttl.map fun d => t + (d : Int) })
  | get id => IndexReply.item <$> PlainIndex.get id
  | list => do
    let t ← now
    let p ← Act.get
    pure (.ids (p.liveIds t))
  | sizes => do
    let p ← Act.get
    pure (.sizes p.items.size p.vectorCount p.nextId)
  | searchVector values limit filter maxScan =>
    IndexReply.hits <$> PlainIndex.searchVector values limit filter maxScan
  | searchText text limit filter => IndexReply.hits <$> PlainIndex.searchText text limit filter cap
  | query textQuery vectorQuery limit filter weights fusion maxScan =>
    IndexReply.fused <$> PlainIndex.query textQuery vectorQuery limit filter weights fusion cap maxScan

/-- The vector of an addition is one that `parse_le_f32` gave. -/
def Parsed : IndexCall → Prop
  | add request _ => ∀ values, request.vector = some values → ∃ bs, parseLeF32 bs = .ok values
  | _ => True

/-- Whether the call compares texts. -/
def Compares : IndexCall → Prop
  | searchText _ _ _ => True
  | query (some _) _ _ _ _ _ _ => True
  | _ => False

end IndexCall

end Klyro
