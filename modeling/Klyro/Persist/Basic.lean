import Klyro.Store.Basic

/-!
# The dump file (`persist.rs`)

The whole keyspace in one file: a magic line, then one record a key.  A record is a sequence of
pieces, each a line of text or a length-prefixed blob.

* `Record.pieces` — what `save_inner` writes for a key; `saveInner` — the pass over the keyspace,
  which reads the clock several times a key.
* `DumpReader.line`, `blob`, `score` — the reader, on the bytes that are left.
* `loadV2`, `loadV1`, `readMemory` — the loaders; an input error gives up the whole file.
* `LoadedEntry.install` — how a loaded entry becomes a key.

A file operation succeeds or fails as the environment says; one that fails leaves the file as it was.
-/

set_option autoImplicit false

namespace Klyro

/-- Why reading or writing a file stopped. -/
inductive IoError where
  | invalidData | unexpectedEof | failed
deriving DecidableEq

/-- A computation that may stop with an `io::Error`. -/
abbrev Io (σ α : Type) := ExceptT IoError (Run σ) α

variable {σ α : Type}

/-- Change the files, when the disk lets it. -/
def fileOp (f : Assoc String Bytes → Assoc String Bytes) : Io σ Unit := do
  let ok ← (diskOk : Run σ Bool)
  if ok then liftM (m := Run σ) fun _ s w => .done () s { w with files := f w.files }
  else throw .failed

/-- The files. -/
def readFiles : Run σ (Assoc String Bytes) := fun _ s w => .done w.files s w

/-! ## Records and their pieces -/

/-- What a record of the dump says about its key. -/
inductive Payload where
  | str (value : Bytes)
  | list (items : List Bytes)
  | hash (pairs : List (Bytes × Bytes))
  | set (members : List Bytes)
  | zset (pairs : List (Bytes × F64))
  | memory (config : MemoryConfig) (nextId : Nat) (records : List (MemoryRecord × Option (List F32)))
deriving DecidableEq

/-- One record of the dump; `expireAt` is in Unix milliseconds, -1 for no expiry. -/
structure Record where
  key : Bytes
  expireAt : Int
  payload : Payload
deriving DecidableEq

/-- What a record is written from: lines of text and length-prefixed blobs. -/
inductive Piece where
  | line (text : Bytes)
  | blob (payload : Bytes)
deriving DecidableEq

/-- The bytes of a piece: `writeln!` and `write_blob`. -/
def Piece.bytes : Piece → Bytes
  | .line text => text ++ [10]
  | .blob payload => Text.utf8 (Nat.toDigits 10 payload.length) ++ 10 :: (payload ++ [10])

/-- A line of words. -/
def wordLine (words : List (List Char)) : Piece := .line (Text.utf8 (Text.unwords words))

/-- The word a record of each type starts with. -/
def kindWord : StoreType → String
  | .string => "STRING"
  | .list => "LIST"
  | .hash => "HASH"
  | .set => "SET"
  | .zset => "ZSET"
  | .memory => "MEMORY"

namespace Payload

/-- The type of the key. -/
def kind : Payload → StoreType
  | .str _ => .string
  | .list _ => .list
  | .hash _ => .hash
  | .set _ => .set
  | .zset _ => .zset
  | .memory .. => .memory

/-- The count in the header, which a string does not have. -/
def count : Payload → Option Nat
  | .str _ => none
  | .list items => some items.length
  | .hash pairs => some pairs.length
  | .set members => some members.length
  | .zset pairs => some pairs.length
  | .memory _ _ records => some records.length

/-- The configuration line of a memory index. -/
def configWords (config : MemoryConfig) (nextId : Nat) : List (List Char) :=
  [config.mode.name.toList, Nat.toDigits 10 config.dim, config.metric.name.toList,
    config.weights.keyword.display, config.weights.vector.display, config.weights.recency.display,
    config.weights.importance.display, Nat.toDigits 10 (config.halfLife / nanosPerSec),
    Nat.toDigits 10 nextId]

/-- The line of numbers of one memory record. -/
def recordWords (record : MemoryRecord) (vector : Option (List F32)) : List (List Char) :=
  [Text.showInt (unixMillis record.createdAt), Text.showInt (unixMillis record.updatedAt),
    record.importance.display, Text.showInt ((record.expireAt.map unixMillis).getD (-1)),
    Nat.toDigits 10 record.metadata.length, Nat.toDigits 10 ((vector.map List.length).getD 0)]

/-- The pieces of one memory record. -/
def recordPieces (p : MemoryRecord × Option (List F32)) : List Piece :=
  [.blob p.1.id, .blob p.1.text, wordLine (recordWords p.1 p.2)] ++
    p.1.metadata.flatMap (fun m => [.blob m.1, .blob m.2]) ++
    (p.2.map fun values => Piece.blob (encodeLeF32 values)).toList

/-- The pieces after the key. -/
def pieces : Payload → List Piece
  | .str value => [.blob value]
  | .list items => items.map .blob
  | .hash pairs => pairs.flatMap fun p => [.blob p.1, .blob p.2]
  | .set members => members.map .blob
  | .zset pairs => pairs.flatMap fun p => [.blob p.1, .line (formatF64 p.2)]
  | .memory config nextId records =>
    wordLine (configWords config nextId) :: records.flatMap recordPieces

end Payload

namespace Record

/-- The words of the header line. -/
def headerWords (r : Record) : List (List Char) :=
  [(kindWord r.payload.kind).toList, Text.showInt r.expireAt] ++
    (r.payload.count.map (Nat.toDigits 10)).toList

/-- Everything written for a key. -/
def pieces (r : Record) : List Piece := wordLine r.headerWords :: .blob r.key :: r.payload.pieces

/-- The bytes of a record. -/
def bytes (r : Record) : Bytes := r.pieces.flatMap Piece.bytes

end Record

/-! ## Saving -/

/-- `DUMP_MAGIC`. -/
def dumpMagic : String := "KLYRO-DUMP 3"

/-- `V2_MAGIC`. -/
def v2Magic : String := "KLYRO-DUMP 2"

/-- `LEGACY_MAGIC`. -/
def legacyMagic : String := "KLYRO-DUMP 1"

/-- `unix_millis_now`. -/
def unixMillisNow : Run σ Int := do
  let t ← now
  pure (unixMillis t)

/-- The deadline of a record, from the time to live just read; the sum is one of `i64`. -/
def expireAtOf (ttlMs : Int) : Run σ Int :=
  if ttlMs < 0 then pure (-1)
  else do
    let n ← unixMillisNow
    pure (wrapI64 (n + ttlMs))

/-- The value read for a record: a string that has gone is written as an empty one, any other
type is left out. -/
def payloadOf (key : Bytes) : StoreType → Run Store (Option Payload)
  | .string => do
    let value ← Store.getString key
    pure (some (.str (value.getD [])))
  | .list => do
    let list ← Store.readList key
    pure (list.map .list)
  | .hash => do
    let hash ← Store.readHash key
    pure (hash.map fun h => .hash h.pairs)
  | .set => do
    let set ← Store.readSet key
    pure (set.map fun s => .set (s.pairs.map Prod.fst))
  | .zset => do
    let zset ← Store.readZset key
    pure (zset.map fun z => .zset z.entries)
  | .memory =>
    Store.existingMemory key do
      let records ← Memory.recordsForDump
      let m ← Act.get
      pure (.memory m.config m.nextId records)

/-- The record `save_inner` writes for a key, if any: its time to live, then its value. -/
def recordOf (key : Bytes) (kind : StoreType) : Run Store (Option Record) := do
  let ttlMs ← Store.pttlMs key
  let expireAt ← expireAtOf ttlMs
  let payload ← payloadOf key kind
  pure (payload.map fun p => ⟨key, expireAt, p⟩)

/-- Append to a file. -/
def appendTo (path : String) (bytes : Bytes) : Io σ Unit :=
  fileOp fun files => files.insert path ((files.lookup path).getD [] ++ bytes)

/-- Write the pieces of a record, in order. -/
def writePieces (path : String) : List Piece → Io σ Unit
  | [] => pure ()
  | p :: ps => do
    appendTo path p.bytes
    writePieces path ps

/-- The loop of `save_inner`. -/
def saveEntries (tmp : String) : List (Bytes × StoreType) → Io Store Unit
  | [] => pure ()
  | (key, kind) :: rest => do
    match ← recordOf key kind with
    | some record => writePieces tmp record.pieces
    | none => pure ()
    saveEntries tmp rest

/-- The temporary file beside a path. -/
def tmpPath (path : String) : String := path ++ ".tmp"

/-- Move the file at `old` over the one at `new`. -/
def renameFile (old new : String) (files : Assoc String Bytes) : Assoc String Bytes :=
  match files.lookup old with
  | some content => (files.erase old).insert new content
  | none => files

/-- `save_inner`. -/
def saveInner (path : String) : Io Store Unit := do
  let tmp := tmpPath path
  fileOp fun files => files.insert tmp []
  appendTo tmp (Piece.line (Text.bytes dumpMagic)).bytes
  let entries ← Store.foreachEntry
  saveEntries tmp entries
  fileOp id
  fileOp (renameFile tmp path)
  Store.resetDirty

/-- The saver. -/
structure Persist where
  path : String
  lastCheck : Option Instant := none
deriving DecidableEq

/-- `save_to`: whether the write succeeded; the path is kept for the next one. -/
def Persist.saveTo (persist : Persist) (path : String) : Run Store (Bool × Persist) := do
  let result ← (saveInner path).run
  pure (match result with
    | .ok _ => (true, { persist with path := path })
    | .error _ => (false, { persist with path := path }))

/-- `autosave_due`. -/
def Persist.autosaveDue (interval : Duration) (store : Store) : Run Persist Bool := do
  let t ← instantNow
  let p ← Act.get
  match p.lastCheck with
  | none => do
    Act.set { p with lastCheck := some t }
    pure false
  | some last =>
    if t - last < interval then pure false
    else do
      Act.set { p with lastCheck := some t }
      pure (decide (0 < store.dirty))

/-! ## Reading -/

namespace DumpReader

/-- The bytes up to the first newline, which is included, and the bytes after it. -/
def takeLine : Bytes → Bytes × Bytes
  | [] => ([], [])
  | b :: bs => if b = 10 then ([b], bs) else (b :: (takeLine bs).1, (takeLine bs).2)

/-- Trailing characters a line is read without. -/
def isNewline (c : Char) : Bool := c == '\r' || c == '\n'

/-- `line`. -/
def line : Io Bytes (Option (List Char)) := do
  let input ← (Act.get : Run Bytes Bytes)
  (Act.set (takeLine input).2 : Run Bytes Unit)
  match Text.fromUtf8 (takeLine input).1 with
  | none => throw .invalidData
  | some text => pure (if input = [] then none else some (Text.trimEndMatches isNewline text))

/-- `read_exact` into a vector of `len` bytes, then the newline after it. -/
def payload (len : Nat) : Io Bytes Bytes := do
  let input ← (Act.get : Run Bytes Bytes)
  if input.length < len then throw .unexpectedEof
  else do
    (Act.set (input.drop (len + 1)) : Run Bytes Unit)
    pure (input.take len)

/-- A vector of `count` elements of `size` bytes cannot be larger than the address space allows. -/
def withCapacity (count size : Nat) : Io σ Unit :=
  if isizeMax < count * size then liftM (m := Run σ) (Act.panic .capacity) else pure ()

/-- `blob`. -/
def blob : Io Bytes (Option Bytes) := do
  match ← line with
  | none => pure none
  | some header =>
    match Text.parseNat u64Max (Text.trim header) with
    | none => pure none
    | some len => do
      withCapacity len 1
      let bytes ← payload len
      pure (some bytes)

/-- `score`. -/
def score : Io Bytes (Option F64) := do
  let text ← line
  pure (text.bind fun text => parseF64 (Text.utf8 text))

/-- Two values, when both are there. -/
def both {β : Type} : Option α → Option β → Option (α × β)
  | some a, some b => some (a, b)
  | _, _ => none

/-- A field and its value. -/
def pair : Io Bytes (Option (Bytes × Bytes)) := do
  let field ← blob
  let value ← blob
  pure (both field value)

/-- A member and its score. -/
def scored : Io Bytes (Option (Bytes × F64)) := do
  let member ← blob
  let score ← score
  pure (both member score)

/-- `for _ in 0..count`, left at the first `None`. -/
def collect (read : Io Bytes (Option α)) : Nat → Io Bytes (List α)
  | 0 => pure []
  | n + 1 => do
    match ← read with
    | none => pure []
    | some a => do
      let rest ← collect read n
      pure (a :: rest)

end DumpReader

open DumpReader

/-- The bytes of an element of the vectors that are filled while loading. -/
def bytesSize : Nat := 24

@[inherit_doc bytesSize]
def pairSize : Nat := 48

@[inherit_doc bytesSize]
def scoredSize : Nat := 32

/-- A loaded value. -/
inductive LoadedValue where
  | str (value : Bytes)
  | list (items : List Bytes)
  | hash (pairs : List (Bytes × Bytes))
  | set (members : List Bytes)
  | zset (pairs : List (Bytes × F64))
  | memory (memory : Memory)
deriving DecidableEq

/-- A loaded key. -/
structure LoadedEntry where
  key : Bytes
  value : LoadedValue
  expireAt : Int
deriving DecidableEq

/-- The configuration in the fields of a `MEMORY` record's line. -/
def parseConfig (fields : List (List Char)) : Option MemoryConfig :=
  let field := fun i => fields.getD i []
  match Mode.parse (Text.utf8 (field 0)), Metric.parse (Text.utf8 (field 2)) with
  | some mode, some metric =>
    let number := fun i => ((SoftFloat.parse (field i)).getD (SoftFloat.zero false) : F32)
    let config := MemoryConfig.new mode ((Text.parseNat u64Max (field 1)).getD 0) metric
    let weights : Weights := ⟨number 3, number 4, number 5, number 6⟩
    let config := if weights.isValid then { config with weights := weights } else config
    match Text.parseNat u64Max (field 7) with
    | some seconds => some { config with halfLife := fromSecs seconds }
    | none => some config
  | _, _ => none

/-- The record in the parts of its line, without its metadata. -/
def parseRecord (id text : Bytes) (parts : List (List Char)) : MemoryRecord :=
  let millis := fun i => (Text.parseInt i64Min i64Max (parts.getD i [])).getD (-1)
  { MemoryRecord.new id text (fromUnixMillis (millis 0)) with
    updatedAt := fromUnixMillis (millis 1)
    importance := clampUnit ((SoftFloat.parse (parts.getD 2 [])).getD (lit "0.5"))
    expireAt := if 0 ≤ millis 3 then some (fromUnixMillis (millis 3)) else none }

/-- The metadata of a record. -/
def readMeta : Nat → MemoryRecord → Io Bytes (Option MemoryRecord)
  | 0, record => pure (some record)
  | n + 1, record => do
    match ← pair with
    | none => pure none
    | some (field, value) => readMeta n (record.setMeta field value).2

/-- The vector of a record, when it has one; `none` when the dump ran out. -/
def readVector (len : Nat) : Io Bytes (Option (Option (List F32))) :=
  if 0 < len then do
    let bytes ← blob
    pure (bytes.map fun bytes => (parseLeF32 bytes).toOption)
  else pure (some none)

/-- Run on a value of its own. -/
def onValue {τ : Type} (value : τ) (m : Run τ Unit) : Run σ τ :=
  Act.zoom (fun _ => value) (fun _ s => s) do
    m
    Act.get

/-- One memory record, put into the index. -/
def readRecord (maxTerms : Nat) (memory : Memory) : Io Bytes (Option Memory) := do
  let id ← blob
  let text ← blob
  let parts ← line
  match id, text, parts with
  | some id, some text, some parts =>
    let parts := Text.splitWhitespace parts
    if parts.length < 6 then pure none
    else do
      let count := fun i => (Text.parseNat u64Max (parts.getD i [])).getD 0
      match ← readMeta (count 4) (parseRecord id text parts) with
      | none => pure none
      | some record =>
        match ← readVector (count 5) with
        | none => pure none
        | some vector => do
          let memory ← (onValue memory (Memory.loadRecord record vector maxTerms) : Run Bytes Memory)
          pure (some memory)
  | _, _, _ => pure none

/-- The records of an index. -/
def readRecords (maxTerms : Nat) : Nat → Memory → Io Bytes (Option Memory)
  | 0, memory => pure (some memory)
  | n + 1, memory => do
    match ← readRecord maxTerms memory with
    | none => pure none
    | some memory => readRecords maxTerms n memory

/-- `read_memory`; `none` when the dump ran out. -/
def readMemory (count maxTerms : Nat) : Io Bytes (Option Memory) := do
  match ← line with
  | none => pure none
  | some header =>
    let fields := Text.splitWhitespace header
    if fields.length < 9 then pure none
    else
      match parseConfig fields with
      | none => pure none
      | some config =>
        let nextId := (Text.parseNat u64Max (fields.getD 8 [])).getD 1
        readRecords maxTerms count ((Memory.new config).setNextId nextId)

/-- The value of a record of a type; `none` where the loader stops. -/
def readValue (count maxTerms : Nat) : StoreType → Io Bytes (Option LoadedValue)
  | .string => do
    let value ← blob
    pure (value.map .str)
  | .list => do
    withCapacity count bytesSize
    let items ← collect blob count
    pure (some (.list items))
  | .set => do
    withCapacity count bytesSize
    let members ← collect blob count
    pure (some (.set members))
  | .hash => do
    withCapacity count pairSize
    let pairs ← collect pair count
    pure (some (.hash pairs))
  | .zset => do
    withCapacity count scoredSize
    let pairs ← collect scored count
    pure (some (.zset pairs))
  | .memory => do
    let memory ← readMemory count maxTerms
    pure (memory.map .memory)

/-- The type a record's first word names. -/
def kindOf (word : List Char) : Option StoreType :=
  [StoreType.string, .list, .set, .hash, .zset, .memory].find? fun ty => (kindWord ty).toList == word

/-- How a round of `load_v2` ends. -/
inductive Round where
  | stop | skip
  | entry (entry : LoadedEntry)
deriving DecidableEq

/-- The rest of a record, after its header line. -/
def readEntry (maxTerms : Nat) (header : List Char) : Io Bytes Round :=
  match Text.splitWhitespace header with
  | kind :: expireAt :: rest => do
    let expireAt := (Text.parseInt i64Min i64Max expireAt).getD (-1)
    let count := (rest.head?.bind (Text.parseNat u64Max)).getD 0
    match ← blob with
    | none => pure .stop
    | some key =>
      match kindOf kind with
      | none => pure .skip
      | some ty =>
        match ← readValue count maxTerms ty with
        | none => pure .stop
        | some value => pure (.entry ⟨key, value, expireAt⟩)
  | _ => pure .skip

/-- `load_v2`.  Every round reads a line, so the length of the input is fuel enough. -/
def loadV2 (maxTerms : Nat) : Nat → Io Bytes (List LoadedEntry)
  | 0 => pure []
  | fuel + 1 => do
    match ← line with
    | none => pure []
    | some header =>
      match ← readEntry maxTerms header with
      | .stop => pure []
      | .skip => loadV2 maxTerms fuel
      | .entry entry => do
        let entries ← loadV2 maxTerms fuel
        pure (entry :: entries)

/-- A line of the text format; an empty one at the end of the file. -/
def nextLine : Io Bytes (List Char) := do
  let text ← line
  pure (text.getD [])

/-- `for _ in 0..count`. -/
def repeatIo (read : Io Bytes α) : Nat → Io Bytes (List α)
  | 0 => pure []
  | n + 1 => do
    let a ← read
    let rest ← repeatIo read n
    pure (a :: rest)

/-- A field and a value on one line. -/
def fieldLine (text : List Char) : Bytes × Bytes :=
  match Text.splitOnce ' ' text with
  | some (field, value) => (Text.utf8 field, Text.utf8 value)
  | none => (Text.utf8 text, [])

/-- A member and a score on one line. -/
def scoreLine (text : List Char) : Option (Bytes × F64) :=
  (Text.rsplitOnce ' ' text).bind fun p =>
    (parseF64 (Text.utf8 p.2)).map fun score => (Text.utf8 p.1, score)

/-- The value of a record of the text format. -/
def readValueV1 (tail : List Char) (count : Nat) : StoreType → Io Bytes (Option LoadedValue)
  | .string => pure (some (.str (Text.utf8 tail)))
  | .list => do
    withCapacity count bytesSize
    let items ← repeatIo nextLine count
    pure (some (.list (items.map Text.utf8)))
  | .set => do
    withCapacity count bytesSize
    let members ← repeatIo nextLine count
    pure (some (.set (members.map Text.utf8)))
  | .hash => do
    withCapacity count pairSize
    let lines ← repeatIo nextLine count
    pure (some (.hash (lines.map fieldLine)))
  | .zset => do
    withCapacity count scoredSize
    let lines ← repeatIo nextLine count
    pure (some (.zset (lines.filterMap scoreLine)))
  | .memory => pure none

/-- An `EXPIREAT` line: the deadline of the last entry of the key; the newest entry is first. -/
def setLastExpiry (key : Bytes) (seconds : Int) : List LoadedEntry → List LoadedEntry
  | [] => []
  | entry :: entries =>
    if entry.key = key then
      { entry with expireAt := max i64Min (min i64Max (seconds * 1000)) } :: entries
    else entry :: setLastExpiry key seconds entries

/-- `load_v1`; the entries so far, the newest first. -/
def loadV1 : Nat → List LoadedEntry → Io Bytes (List LoadedEntry)
  | 0, entries => pure entries.reverse
  | fuel + 1, entries => do
    match ← line with
    | none => pure entries.reverse
    | some text =>
      match Text.splitOnce ' ' (Text.trim text) with
      | none => loadV1 fuel entries
      | some (kind, rest) =>
        let key := Text.utf8 (((Text.splitOnce ' ' rest).map Prod.fst).getD rest)
        let tail := ((Text.splitOnce ' ' rest).map Prod.snd).getD []
        if kind = "EXPIREAT".toList then
          match Text.parseInt i64Min i64Max (Text.trim tail) with
          | some seconds => loadV1 fuel (setLastExpiry key seconds entries)
          | none => loadV1 fuel entries
        else
          let count := (Text.parseNat u64Max (Text.trim tail)).getD 0
          match kindOf kind with
          | none => loadV1 fuel entries
          | some ty => do
            match ← readValueV1 tail count ty with
            | none => loadV1 fuel entries
            | some value => loadV1 fuel (⟨key, value, -1⟩ :: entries)

/-- Whether a text starts with a magic line. -/
def startsWith (text : List Char) (magic : String) : Bool := magic.toList.isPrefixOf text

/-- The entries of a dump: its magic line decides the format. -/
def loadEntries (maxTerms : Nat) : Io Bytes (List LoadedEntry) := do
  let input ← (Act.get : Run Bytes Bytes)
  match ← line with
  | none => pure []
  | some magic =>
    if startsWith magic dumpMagic || startsWith magic v2Magic then loadV2 maxTerms input.length
    else if startsWith magic legacyMagic then loadV1 input.length []
    else pure []

/-! ## Installing -/

namespace LoadedEntry

/-- The value of an entry, put into the keyspace. -/
def installValue (key : Bytes) : LoadedValue → Run Store Unit
  | .str value => Store.setString key value
  | .list items => do
    let _ ← Store.getOrCreateList key (Act.modify (· ++ items))
  | .set members => do
    let _ ← Store.getOrCreateSet key (Act.modify (Assoc.insertAll (members.map fun m => (m, ()))))
  | .hash pairs => do
    let _ ← Store.getOrCreateHash key (Act.modify (Assoc.insertAll pairs))
  | .zset pairs => do
    let _ ← Store.getOrCreateZset key (Act.modify (Zset.addAll pairs))
  | .memory memory => do
    let _ ← Store.createMemory key memory

/-- The deadline of an entry. -/
def installExpiry (key : Bytes) (expireAt : Int) : Run Store Unit :=
  if 0 ≤ expireAt then do
    let deadline ← addDuration 0 (fromMillis expireAt.toNat)
    let _ ← Store.setExpireAt key (some deadline)
  else pure ()

/-- `install`. -/
def install (entry : LoadedEntry) : Run Store Unit := do
  installValue entry.key entry.value
  installExpiry entry.key entry.expireAt
  Store.deleteIfEmpty entry.key

end LoadedEntry

/-- `load`. -/
def Persist.load (persist : Persist) (maxTerms : Nat) : Run Store Unit := do
  let files ← readFiles
  match files.lookup persist.path with
  | none => pure ()
  | some content => do
    let loaded ← Act.zoom (fun _ => content) (fun _ s => s) (loadEntries maxTerms).run
    match loaded with
    | .ok entries => Act.forList LoadedEntry.install entries
    | .error _ => pure ()

end Klyro
