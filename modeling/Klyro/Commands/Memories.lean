import Klyro.Commands.Basic

/-!
# Memory index commands (`commands/memory.rs`)

Every command is `MEM.VERB key` followed by keyword-tagged options in any order.  An option parser
is a function of the words that are left.
-/

set_option autoImplicit false

namespace Klyro.Memories

/-! ## Errors -/

/-- `no_such_index`. -/
def noSuchIndex : Reply := .error "ERR no such memory index"

/-- `already_exists`. -/
def alreadyExists : Reply := .error "ERR memory index already exists"

/-- The text of a vector's refusal. -/
def describeVector : VectorError → String
  | .notFloats => "ERR vector is not float32 bytes; its length must be a multiple of 4"
  | .wrongDimension expected got =>
    "ERR wrong vector dimension, expected " ++ showNat expected ++ " got " ++ showNat got
  | .notFinite => "ERR vector contains NaN or infinity"
  | .zeroVector => "ERR a zero vector has no direction to compare under COSINE"

/-- `describe`. -/
def describe : MemoryError → Reply
  | .vectorsNotSupported => .error
      "ERR this memory index stores no vectors; create it with MODE VECTOR or MODE HYBRID"
  | .textNotSupported => .error
      "ERR this memory index does not index text; create it with MODE SEARCH or MODE HYBRID"
  | .vectorRequired => .error "ERR a VECTOR-mode index needs a vector on every record"
  | .noSuchRecord => .error "ERR no such record"
  | .tooLargeToScan records limit => .error ("ERR a scan of " ++ showNat records ++
      " vectors exceeds mem-max-scan (" ++ showNat limit ++
      "); raise it or narrow the query with FILTER")
  | .existenceUnmet => .error "ERR record existence condition not met"
  | .full limit => .error ("ERR memory index is full at mem-max-records (" ++ showNat limit ++ ")")
  | .vector e => .error (describeVector e)

/-- `map_err(describe)?`. -/
def orDescribe {α : Type} : Except MemoryError α → Cmd α
  | .ok a => pure a
  | .error e => throw (describe e)

/-! ## Options -/

/-- `Args::unexpected`. -/
def unexpected (word : Bytes) : Reply := .error ("ERR unexpected argument '" ++ toDisplay word ++ "'")

/-- `Args::values`: the next `n` words and what is left. -/
def values (n : Nat) (words : List Bytes) : Cmd (List Bytes × List Bytes) :=
  if words.length < n then throw syntaxError else pure (words.take n, words.drop n)

/-- `Args::value`. -/
def value : List Bytes → Cmd (Bytes × List Bytes)
  | [] => throw syntaxError
  | word :: rest => pure (word, rest)

/-- The numbers of a vector given as words. -/
def readFloats : List Bytes → Cmd (List F32)
  | [] => pure []
  | word :: words => do
    let x ← floatArg word
    let x : F32 := x.cast
    if !x.isFinite then throw (describe (.vector .notFinite))
    let rest ← readFloats words
    return x :: rest

/-- `read_vector`: a vector and what is left, when the words start with one. -/
def readVector : List Bytes → Cmd (Option (List F32 × List Bytes))
  | [] => pure none
  | word :: rest =>
    if eqIgnoreCase word "VEC" then do
      let blob ← value rest
      match parseLeF32 blob.1 with
      | .ok floats => return some (floats, blob.2)
      | .error e => throw (describe (.vector e))
    else if eqIgnoreCase word "FVEC" then do
      let head ← value rest
      let count ← intArg head.1
      if count < 0 then throw syntaxError
      let words ← values count.toNat head.2
      let floats ← readFloats words.1
      return some (floats, words.2)
    else return none

/-- `read_filter_clause`: a clause and what is left. -/
def readFilterClause : List Bytes → Cmd (Option (Clause × List Bytes))
  | [] => pure none
  | word :: rest =>
    if eqIgnoreCase word "FILTER" then do
      let words ← values 3 rest
      match Field.parse (arg words.1 0), Op.parse (arg words.1 1) with
      | some field, some op => return some (⟨field, op, arg words.1 2⟩, words.2)
      | _, _ => throw (.error ("ERR bad filter clause '" ++ toDisplay (arg words.1 0) ++ " " ++
          toDisplay (arg words.1 1) ++ "'"))
    else return none

/-- Which parts of a record a reply should carry. -/
structure Returns where
  noText : Bool := false
  metadata : Bool := false
  vector : Bool := false
  scores : Bool := false
deriving DecidableEq

/-- `Returns::read`. -/
def Returns.read (r : Returns) (word : Bytes) : Option Returns :=
  if eqIgnoreCase word "NOTEXT" then some { r with noText := true }
  else if eqIgnoreCase word "WITHMETA" then some { r with metadata := true }
  else if eqIgnoreCase word "WITHVEC" then some { r with vector := true }
  else if eqIgnoreCase word "WITHSCORES" then some { r with scores := true }
  else none

/-- The options every retrieval shares. -/
structure Retrieval where
  topk : Nat := 10
  candidates : Nat
  filter : Filter := []
  returns : Returns := {}
deriving DecidableEq

/-- `Retrieval::new`. -/
def Retrieval.new (config : Config) : Retrieval :=
  { candidates := Nat.max config.memMaxCandidates 10 }

/-- `Retrieval::read`: one option, and what is left. -/
def Retrieval.read (config : Config) (r : Retrieval) : List Bytes → Cmd (Retrieval × List Bytes)
  | [] => pure (r, [])
  | word :: rest =>
    if eqIgnoreCase word "TOPK" then do
      let head ← value rest
      let n ← intArg head.1
      if n < 1 ∨ config.memMaxTopk < n.toNat then
        throw (.error ("ERR TOPK must be between 1 and mem-max-topk (" ++
          showNat config.memMaxTopk ++ ")"))
      return ({ r with topk := n.toNat, candidates := Nat.max config.memMaxCandidates n.toNat },
        head.2)
    else
      match r.returns.read word with
      | some returns => return ({ r with returns := returns }, rest)
      | none => do
        match ← readFilterClause (word :: rest) with
        | some (clause, rest) => return ({ r with filter := r.filter ++ [clause] }, rest)
        | none => throw (unexpected word)

/-- The four numbers of `WEIGHTS`. -/
def readWeights (words : List Bytes) : Cmd Weights := do
  let keyword ← floatArg (arg words 0)
  let vector ← floatArg (arg words 1)
  let recency ← floatArg (arg words 2)
  let importance ← floatArg (arg words 3)
  return ⟨keyword.cast, vector.cast, recency.cast, importance.cast⟩

/-! ## Replies -/

/-- `double`: a score as the shortest text of its `f32` reads. -/
def double (value : F32) : Reply := .double ((SoftFloat.parse value.display).getD value.cast)

/-- `meta_reply`. -/
def metaReply (record : MemoryRecord) : Reply :=
  .map (record.metadata.map fun p => (.bulk p.1, .bulk p.2))

/-- `record_reply`: the fields; reading the deadline reads the clock. -/
def recordReply (record : MemoryRecord) (returns : Returns) : Run Memory (List (Reply × Reply)) := do
  let pttl ← Memory.recordPttl record.id
  let m ← Act.get
  let text := if returns.noText then [] else [(Reply.text "text", Reply.bulk record.text)]
  let metadata := if returns.metadata then [(Reply.text "meta", metaReply record)] else []
  let vector := if returns.vector then
      [(Reply.text "vector", match m.vectorOf record with
        | some values => Reply.bulk (encodeLeF32 values)
        | none => .nil)]
    else []
  pure ([(.text "id", .bulk record.id)] ++ text ++
    [(.text "importance", double record.importance),
      (.text "created_at", .integer (unixMillis record.createdAt)),
      (.text "updated_at", .integer (unixMillis record.updatedAt)),
      (.text "pttl", .integer pttl)] ++ metadata ++ vector)

/-- One hit of `hits_reply`. -/
def hitReply (returns : Returns) (hit : Hit) : Run Memory (Option Reply) := do
  match ← Memory.get hit.id with
  | none => pure none
  | some record => do
    let fields ← recordReply record returns
    let scores := if returns.scores then
        [(Reply.text "keyword_score", double hit.keyword), (.text "vector_score", double hit.vector),
          (.text "recency_score", double hit.recency)]
      else []
    pure (some (.map (fields.take 1 ++ [(.text "score", double hit.score)] ++ fields.drop 1 ++ scores)))

/-- `hits_reply`. -/
def hitsReply (hits : List Hit) (topk : Nat) (returns : Returns) : Run Memory Reply := do
  let replies ← Act.mapList (hitReply returns) (hits.take topk)
  pure (.array (replies.filterMap id))

/-! ## The commands -/

/-- `index`: the computation `use` runs on the index at `key`. -/
def index {α : Type} (key : Bytes) (use : Run Memory α) : Cmd α := do
  match ← Store.peekType key with
  | some .memory => do
    let found ← Store.existingMemory key use
    expect "type checked" found
  | some _ => throw wrongtype
  | none => throw noSuchIndex

/-- The options of `MEM.CREATE`. -/
structure CreateOptions where
  mode : Mode := .hybrid
  dim : Option Nat := none
  metric : Metric := .cosine
  weights : Option Weights := none
  halfLife : Duration

/-- The option loop of `create`. -/
def createOptions (config : Config) : Nat → List Bytes → CreateOptions → Cmd CreateOptions
  | 0, _, o => pure o
  | _, [], o => pure o
  | fuel + 1, word :: rest, o =>
    if eqIgnoreCase word "MODE" then do
      let head ← value rest
      let mode ← orThrow syntaxError (Mode.parse head.1)
      createOptions config fuel head.2 { o with mode := mode }
    else if eqIgnoreCase word "DIM" then do
      let head ← value rest
      let n ← intArg head.1
      if n < 1 ∨ config.memMaxDim < n.toNat then
        throw (.error ("ERR DIM must be between 1 and mem-max-dim (" ++ showNat config.memMaxDim ++
          ")"))
      createOptions config fuel head.2 { o with dim := some n.toNat }
    else if eqIgnoreCase word "METRIC" then do
      let head ← value rest
      let metric ← orThrow syntaxError (Metric.parse head.1)
      createOptions config fuel head.2 { o with metric := metric }
    else if eqIgnoreCase word "WEIGHTS" then do
      let words ← values 4 rest
      let weights ← readWeights words.1
      createOptions config fuel words.2 { o with weights := some weights }
    else if eqIgnoreCase word "HALFLIFE" then do
      let head ← value rest
      let seconds ← intArg head.1
      if seconds < 1 then throw (.error "ERR HALFLIFE must be positive")
      createOptions config fuel head.2 { o with halfLife := fromSecs seconds.toNat }
    else throw (unexpected word)

/-- The refusal of weights that are negative or not finite. -/
def badWeights : Reply := .error "ERR WEIGHTS must be finite and non-negative"

/-- The checks of `create` on its options, and the configuration they give. -/
def createConfig (o : CreateOptions) : Cmd MemoryConfig := do
  if o.mode.storesVectors ∧ o.dim = none then
    throw (.error "ERR DIM is required for a VECTOR or HYBRID index")
  if !o.mode.storesVectors ∧ o.dim ≠ none then
    throw (.error ("ERR a SEARCH index stores no vectors, so DIM does not apply; " ++
      "did you mean MODE HYBRID?"))
  if o.weights.any fun w => !w.isValid then throw badWeights
  let config := MemoryConfig.new o.mode (o.dim.getD 0) o.metric
  return { config with halfLife := o.halfLife, weights := o.weights.getD config.weights }

/-- `MEM.CREATE`. -/
def create (config : Config) : Handler := fun argv => do
  minArgs argv "MEM.CREATE" 1
  let options ← createOptions config (argv.drop 2).length (argv.drop 2)
    { halfLife := fromSecs config.memRecencyHalflife }
  let memoryConfig ← createConfig options
  let taken ← Store.peekType (arg argv 1)
  if taken.isSome then
    match ← Store.peekType (arg argv 1) with
    | some .memory => throw alreadyExists
    | _ => throw wrongtype
  let _ ← Store.createMemory (arg argv 1) (Memory.new memoryConfig)
  return .ok

/-- The reply of `MEM.INFO`. -/
def infoReply (m : Memory) (bytes : Nat) : Reply :=
  .map [(.text "mode", .text m.config.mode.name), (.text "dim", .integer m.config.dim),
    (.text "metric", .text m.config.metric.name),
    (.text "weights", .map [(.text "keyword", double m.config.weights.keyword),
      (.text "vector", double m.config.weights.vector),
      (.text "recency", double m.config.weights.recency),
      (.text "importance", double m.config.weights.importance)]),
    (.text "halflife", .integer (wrapI64 (m.config.halfLife / nanosPerSec : Nat))),
    (.text "records", .integer m.len), (.text "vectors", .integer m.vectors.live),
    (.text "terms", .integer m.text.termCount), (.text "avg_doc_len", double m.text.avgDocLen),
    (.text "bytes", .integer bytes)]

/-- `MEM.INFO`. -/
def info : Handler := fun argv => do
  exactArgs argv "MEM.INFO" 1
  index (arg argv 1) do
    let m ← Act.get
    let bytes ← heapBytes
    pure (infoReply m bytes)

/-- The option loop of `config`. -/
def configOptions : Nat → List Bytes → Option Weights × Option Duration →
    Cmd (Option Weights × Option Duration)
  | 0, _, o => pure o
  | _, [], o => pure o
  | fuel + 1, word :: rest, o =>
    if eqIgnoreCase word "WEIGHTS" then do
      let words ← values 4 rest
      let candidate ← readWeights words.1
      if !candidate.isValid then throw badWeights
      configOptions fuel words.2 (some candidate, o.2)
    else if eqIgnoreCase word "HALFLIFE" then do
      let head ← value rest
      let seconds ← intArg head.1
      if seconds < 1 then throw (.error "ERR HALFLIFE must be positive")
      configOptions fuel head.2 (o.1, some (fromSecs seconds.toNat))
    else throw (unexpected word)

/-- `MEM.CONFIG`. -/
def config : Handler := fun argv => do
  minArgs argv "MEM.CONFIG" 2
  let options ← configOptions (argv.drop 2).length (argv.drop 2) (none, none)
  index (arg argv 1) (Act.modify fun m =>
    { m with config := { m.config with
      weights := options.1.getD m.config.weights
      halfLife := options.2.getD m.config.halfLife } })
  Store.markDirty
  return .ok

/-- `MEM.CARD`. -/
def card : Handler := fun argv => do
  exactArgs argv "MEM.CARD" 1
  index (arg argv 1) do
    let m ← Act.get
    pure (.integer m.len)

/-- The option loop of `add`: the request, and whether a text was given. -/
def addOptions (config : Config) : Nat → List Bytes → AddRequest × Bool → Cmd (AddRequest × Bool)
  | 0, _, o => pure o
  | _, [], o => pure o
  | fuel + 1, word :: rest, (r, hasText) =>
    if eqIgnoreCase word "ID" then do
      let head ← value rest
      addOptions config fuel head.2 ({ r with id := some head.1 }, hasText)
    else if eqIgnoreCase word "TEXT" then do
      let head ← value rest
      if config.memMaxTextBytes < head.1.length then
        throw (.error ("ERR text exceeds mem-max-text-bytes (" ++
          showNat config.memMaxTextBytes ++ ")"))
      addOptions config fuel head.2 ({ r with text := head.1 }, true)
    else if eqIgnoreCase word "META" then do
      let words ← values 2 rest
      addOptions config fuel words.2
        ({ r with metadata := r.metadata ++ [(arg words.1 0, arg words.1 1)] }, hasText)
    else if eqIgnoreCase word "IMPORTANCE" then do
      let head ← value rest
      let x ← floatArg head.1
      let x : F32 := x.cast
      if !(SoftFloat.le (SoftFloat.zero false) x && x.le (lit "1")) then
        throw (.error "ERR IMPORTANCE must be between 0 and 1")
      addOptions config fuel head.2 ({ r with importance := some x }, hasText)
    else if eqIgnoreCase word "TTL" then do
      let head ← value rest
      let seconds ← intArg head.1
      if seconds < 1 then throw (.error "ERR TTL must be positive")
      addOptions config fuel head.2 ({ r with ttl := some (fromSecs seconds.toNat) }, hasText)
    else if eqIgnoreCase word "NX" then
      addOptions config fuel rest ({ r with requireNew := true }, hasText)
    else if eqIgnoreCase word "XX" then
      addOptions config fuel rest ({ r with requireExisting := true }, hasText)
    else do
      match ← readVector (word :: rest) with
      | some (floats, rest) => addOptions config fuel rest ({ r with vector := some floats }, hasText)
      | none => throw (unexpected word)

/-- `MEM.ADD`. -/
def add (config : Config) : Handler := fun argv => do
  minArgs argv "MEM.ADD" 1
  let options ← addOptions config (argv.drop 2).length (argv.drop 2) ({}, false)
  if !options.2 then throw (.error "ERR TEXT is required")
  if options.1.requireNew && options.1.requireExisting then
    throw (.error "ERR NX and XX are mutually exclusive")
  let added ← index (arg argv 1)
    (Memory.add options.1 config.memMaxTermsPerDoc config.memMaxRecords)
  let id ← orDescribe added
  Store.markDirty
  return .bulk id

/-- The flags behind `MEM.GET key id`. -/
def getFlags : List Bytes → Returns → Cmd Returns
  | [], returns => pure returns
  | word :: rest, returns =>
    match returns.read word with
    | some returns => getFlags rest returns
    | none => throw (unexpected word)

/-- One id of `MEM.GET` and `MEM.MGET`. -/
def getOne (returns : Returns) (id : Bytes) : Run Memory Reply := do
  match ← Memory.get id with
  | none => pure .nil
  | some record => do
    let fields ← recordReply record returns
    pure (.map fields)

/-- `MEM.GET`. -/
def get : Handler := fun argv => do
  minArgs argv "MEM.GET" 2
  let returns ← getFlags (argv.drop 3) {}
  let replies ← index (arg argv 1) (Act.mapList (getOne returns) ((argv.drop 2).take 1))
  return replies.head?.getD .nil

/-- `MEM.MGET`. -/
def mget : Handler := fun argv => do
  minArgs argv "MEM.MGET" 2
  let replies ← index (arg argv 1) (Act.mapList (getOne {}) (argv.drop 2))
  return .array replies

/-- `MEM.DEL`. -/
def del (config : Config) : Handler := fun argv => do
  minArgs argv "MEM.DEL" 2
  let removed ← index (arg argv 1) (Act.state (Memory.delAll config.memMaxTermsPerDoc (argv.drop 2)))
  Store.markDirty
  return .integer removed

/-- `MEM.SETMETA`. -/
def setMeta : Handler := fun argv => do
  minArgs argv "MEM.SETMETA" 3
  if (argv.drop 3).length % 2 ≠ 0 then throw (.wrongArity "MEM.SETMETA")
  let added ← index (arg argv 1) (Memory.setMeta (arg argv 2) (pairsOf (argv.drop 3)))
  let added ← orDescribe added
  Store.markDirty
  return .integer added

/-- `MEM.DELMETA`. -/
def delMeta : Handler := fun argv => do
  minArgs argv "MEM.DELMETA" 3
  let removed ← index (arg argv 1) (Memory.removeMeta (arg argv 2) (argv.drop 3))
  let removed ← orDescribe removed
  Store.markDirty
  return .integer removed

/-- `MEM.EXPIRE`. -/
def expire : Handler := fun argv => do
  exactArgs argv "MEM.EXPIRE" 3
  let seconds ← intArg (arg argv 3)
  if seconds < 0 then throw (.error "ERR TTL must not be negative")
  let ttl := if seconds = 0 then none else some (fromSecs seconds.toNat)
  let done ← index (arg argv 1) (Memory.setRecordTtl (arg argv 2) ttl)
  match done with
  | .error .noSuchRecord => return .bool false
  | done => do
    orDescribe done
    Store.markDirty
    return .bool true

/-- The option loop of `scan`: the count and the filter. -/
def scanOptions : Nat → List Bytes → Nat × Filter → Cmd (Nat × Filter)
  | 0, _, o => pure o
  | _, [], o => pure o
  | fuel + 1, word :: rest, o =>
    if eqIgnoreCase word "COUNT" then do
      let head ← value rest
      let n ← intArg head.1
      if n < 1 then throw syntaxError
      scanOptions fuel head.2 (n.toNat, o.2)
    else do
      match ← readFilterClause (word :: rest) with
      | some (clause, rest) => scanOptions fuel rest (o.1, o.2 ++ [clause])
      | none => throw (unexpected word)

/-- `MEM.SCAN`. -/
def scan (config : Config) : Handler := fun argv => do
  minArgs argv "MEM.SCAN" 2
  let cursor ← intArg (arg argv 2)
  if cursor < 0 then throw (.error "ERR invalid cursor")
  let options ← scanOptions (argv.drop 3).length (argv.drop 3) (config.scanDefaultCount, [])
  let batch ← index (arg argv 1) (Memory.scan cursor.toNat options.1 options.2)
  return .array [.text (showNat batch.2), .bulkArray batch.1]

/-- The option loop of `search`. -/
def searchOptions (config : Config) : Nat → List Bytes → Retrieval → Cmd Retrieval
  | 0, _, o => pure o
  | _, [], o => pure o
  | fuel + 1, word :: rest, o => do
    let read ← o.read config (word :: rest)
    searchOptions config fuel read.2 read.1

/-- The rest of a retrieval: the hits found become replies. -/
def answerHits (options : Retrieval) (found : Except MemoryError (List Hit)) :
    Run Memory (Except MemoryError Reply) :=
  match found with
  | .error e => pure (.error e)
  | .ok hits => do
    let reply ← hitsReply hits options.topk options.returns
    pure (.ok reply)

/-- The hits of a keyword search. -/
def keywordHits (found : List (Bytes × F32)) : List Hit :=
  found.map fun p => ⟨p.1, p.2, p.2, SoftFloat.zero false, SoftFloat.zero false⟩

/-- The hits of a vector search. -/
def vectorHits (found : List (Bytes × F32)) : List Hit :=
  found.map fun p => ⟨p.1, p.2, SoftFloat.zero false, p.2, SoftFloat.zero false⟩

/-- What `MEM.SEARCH` does with the index. -/
def searchIndex (config : Config) (query : Bytes) (options : Retrieval) :
    Run Memory (Except MemoryError Reply) := do
  let found ← Memory.searchText query options.candidates options.filter config.memMaxTermsPerDoc
  answerHits options (found.map keywordHits)

/-- `MEM.SEARCH`. -/
def search (config : Config) : Handler := fun argv => do
  minArgs argv "MEM.SEARCH" 2
  let options ← searchOptions config (argv.drop 3).length (argv.drop 3) (.new config)
  let reply ← index (arg argv 1) (searchIndex config (arg argv 2) options)
  orDescribe reply

/-- The option loop of `vsearch`. -/
def vsearchOptions (config : Config) : Nat → List Bytes → Retrieval × Option (List F32) →
    Cmd (Retrieval × Option (List F32))
  | 0, _, o => pure o
  | _, [], o => pure o
  | fuel + 1, word :: rest, o => do
    match ← readVector (word :: rest) with
    | some (floats, rest) => vsearchOptions config fuel rest (o.1, some floats)
    | none => do
      let read ← o.1.read config (word :: rest)
      vsearchOptions config fuel read.2 (read.1, o.2)

/-- What `MEM.VSEARCH` does with the index. -/
def vsearchIndex (config : Config) (vector : List F32) (options : Retrieval) :
    Run Memory (Except MemoryError Reply) := do
  let m ← Act.get
  let found ← Memory.searchVector (m.vectors.prepare vector) options.candidates options.filter
    config.memMaxScan
  answerHits options (found.map vectorHits)

/-- `MEM.VSEARCH`. -/
def vsearch (config : Config) : Handler := fun argv => do
  minArgs argv "MEM.VSEARCH" 2
  let options ← vsearchOptions config (argv.drop 2).length (argv.drop 2) (.new config, none)
  let vector ← orThrow (.error "ERR VEC or FVEC is required") options.2
  let reply ← index (arg argv 1) (vsearchIndex config vector options.1)
  orDescribe reply

/-- The options of `MEM.QUERY`. -/
structure QueryOptions where
  retrieval : Retrieval
  text : Option Bytes := none
  vector : Option (List F32) := none
  weights : Option Weights := none
  fusion : Fusion := .linear

/-- The option loop of `query`. -/
def queryOptions (config : Config) : Nat → List Bytes → QueryOptions → Cmd QueryOptions
  | 0, _, o => pure o
  | _, [], o => pure o
  | fuel + 1, word :: rest, o =>
    if eqIgnoreCase word "TEXT" then do
      let head ← value rest
      queryOptions config fuel head.2 { o with text := some head.1 }
    else if eqIgnoreCase word "WEIGHTS" then do
      let words ← values 4 rest
      let candidate ← readWeights words.1
      if !candidate.isValid then throw badWeights
      queryOptions config fuel words.2 { o with weights := some candidate }
    else if eqIgnoreCase word "FUSION" then do
      let head ← value rest
      let fusion ← orThrow syntaxError (Fusion.parse head.1)
      queryOptions config fuel head.2 { o with fusion := fusion }
    else do
      match ← readVector (word :: rest) with
      | some (floats, rest) => queryOptions config fuel rest { o with vector := some floats }
      | none => do
        let read ← o.retrieval.read config (word :: rest)
        queryOptions config fuel read.2 { o with retrieval := read.1 }

/-- What `MEM.QUERY` does with the index. -/
def queryIndex (config : Config) (o : QueryOptions) : Run Memory (Except MemoryError Reply) := do
  let m ← Act.get
  let found ← Memory.query o.text (o.vector.map m.vectors.prepare) o.retrieval.candidates
    o.retrieval.filter (o.weights.getD m.config.weights) o.fusion config.memMaxTermsPerDoc
    config.memMaxScan
  answerHits o.retrieval found

/-- `MEM.QUERY`. -/
def query (config : Config) : Handler := fun argv => do
  minArgs argv "MEM.QUERY" 1
  let options ← queryOptions config (argv.drop 2).length (argv.drop 2)
    { retrieval := .new config }
  if options.text.isNone && options.vector.isNone then
    throw (.error "ERR TEXT, VEC, or FVEC is required")
  let reply ← index (arg argv 1) (queryIndex config options)
  orDescribe reply

/-- `handle`, arm by arm. -/
def arms (serverConfig : Config) : Arms :=
  [("MEM.CREATE", create serverConfig), ("MEM.INFO", info), ("MEM.CONFIG", config),
    ("MEM.CARD", card), ("MEM.ADD", add serverConfig), ("MEM.GET", get), ("MEM.MGET", mget),
    ("MEM.DEL", del serverConfig), ("MEM.SETMETA", setMeta), ("MEM.DELMETA", delMeta),
    ("MEM.EXPIRE", expire), ("MEM.SCAN", scan serverConfig), ("MEM.SEARCH", search serverConfig),
    ("MEM.VSEARCH", vsearch serverConfig), ("MEM.QUERY", query serverConfig)]

end Klyro.Memories
