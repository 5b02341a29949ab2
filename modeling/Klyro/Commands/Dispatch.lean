import Klyro.Commands.Generic
import Klyro.Commands.Hashes
import Klyro.Commands.Keyspec
import Klyro.Commands.Memories
import Klyro.Commands.PubSubs
import Klyro.Commands.Sets
import Klyro.Commands.Strings
import Klyro.Commands.Zsets

/-!
# Command dispatch (`commands/mod.rs`, `commands/transactions.rs`)

* `family` — the router.
* `Transactions.dispatch` — MULTI, EXEC, DISCARD, WATCH, UNWATCH and RESET.
* `execute` — one command for real, with the gates before it and the signals after it.
* `dispatch` — one request of a client: queued inside MULTI, executed otherwise.
* `retry` — a parked command run again.

EXEC runs its queue through `execute`, which can meet an EXEC again.  That inner one finds no
transaction or one opened by a queued MULTI, and `execute` never queues: `innerExec` runs the
empty queue.
-/

set_option autoImplicit false

namespace Klyro

open Served

/-- `READ_COMMANDS`. -/
def readCommands : List String :=
  ["EXISTS", "TYPE", "TTL", "PTTL", "GET", "MGET", "GETRANGE", "SUBSTR", "STRLEN", "LINDEX", "LLEN",
    "LRANGE", "HGET", "HMGET", "HLEN", "HEXISTS", "HKEYS", "HVALS", "HGETALL", "HSTRLEN",
    "SISMEMBER", "SMISMEMBER", "SCARD", "SMEMBERS", "SRANDMEMBER", "SINTER", "SUNION", "SDIFF",
    "ZSCORE", "ZMSCORE", "ZCARD", "ZCOUNT", "ZRANGE", "ZREVRANGE", "ZRANGEBYSCORE",
    "ZREVRANGEBYSCORE", "ZRANK", "ZREVRANK", "MEM.GET", "MEM.MGET", "MEM.CARD", "MEM.INFO",
    "MEM.SEARCH", "MEM.VSEARCH", "MEM.QUERY", "MEM.SCAN"]

/-- Which group of handlers owns a command name. -/
inductive Family where
  | server | generic | string | list | hash | set | zset | memory | transaction | pubsub | blocking
deriving DecidableEq

/-- The names `family` lists, by group. -/
def familyNames : List (Family × List String) :=
  [(.server, ["PING", "ECHO", "INFO", "CONFIG", "SAVE", "QUIT", "SHUTDOWN", "COMMAND", "HELLO",
      "CLIENT"]),
    (.transaction, ["MULTI", "EXEC", "DISCARD", "WATCH", "UNWATCH", "RESET"]),
    (.pubsub, ["SUBSCRIBE", "UNSUBSCRIBE", "PSUBSCRIBE", "PUNSUBSCRIBE", "PUBLISH", "PUBSUB"]),
    (.blocking, ["BLPOP", "BRPOP", "BLMOVE", "BRPOPLPUSH", "BLMPOP", "LMPOP", "BZPOPMIN",
      "BZPOPMAX", "BZMPOP", "ZMPOP"]),
    (.generic, ["DEL", "UNLINK", "EXISTS", "EXPIRE", "PEXPIRE", "EXPIREAT", "PEXPIREAT", "PERSIST",
      "TTL", "PTTL", "TYPE", "KEYS", "SCAN", "DBSIZE", "RENAME", "RENAMENX", "COPY", "RANDOMKEY",
      "FLUSHDB", "FLUSHALL"]),
    (.string, ["SET", "SETNX", "SETEX", "PSETEX", "GET", "GETSET", "GETDEL", "GETEX", "MGET",
      "MSET", "MSETNX", "INCR", "DECR", "INCRBY", "DECRBY", "INCRBYFLOAT", "APPEND", "STRLEN",
      "GETRANGE", "SUBSTR", "SETRANGE"]),
    (.list, ["LPUSH", "RPUSH", "LPUSHX", "RPUSHX", "LPOP", "RPOP", "LLEN", "LRANGE", "LINDEX",
      "LSET", "LINSERT", "LREM", "LTRIM", "RPOPLPUSH", "LMOVE"]),
    (.hash, ["HSET", "HSETNX", "HMSET", "HGET", "HMGET", "HDEL", "HLEN", "HEXISTS", "HKEYS",
      "HVALS", "HGETALL", "HINCRBY", "HINCRBYFLOAT", "HSTRLEN"]),
    (.set, ["SADD", "SREM", "SISMEMBER", "SMISMEMBER", "SCARD", "SMEMBERS", "SPOP", "SRANDMEMBER",
      "SMOVE", "SINTER", "SINTERSTORE", "SUNION", "SUNIONSTORE", "SDIFF", "SDIFFSTORE"]),
    (.zset, ["ZADD", "ZSCORE", "ZMSCORE", "ZINCRBY", "ZREM", "ZCARD", "ZCOUNT", "ZRANGE",
      "ZREVRANGE", "ZRANGEBYSCORE", "ZREVRANGEBYSCORE", "ZRANK", "ZREVRANK", "ZREMRANGEBYRANK",
      "ZREMRANGEBYSCORE", "ZPOPMIN", "ZPOPMAX"])]

/-- Whether a name starts with the prefix the memory commands share. -/
def memoryPrefixed (name : String) : Bool := "MEM.".toList.isPrefixOf name.toList

/-- `family`. -/
def family (name : String) : Option Family :=
  match familyNames.find? fun group => group.2.contains name with
  | some group => some group.1
  | none => if memoryPrefixed name then some .memory else none

/-- `SUBSCRIBER_COMMANDS`. -/
def subscriberCommands : List String :=
  ["SUBSCRIBE", "UNSUBSCRIBE", "PSUBSCRIBE", "PUNSUBSCRIBE", "PING", "QUIT", "RESET", "SHUTDOWN"]

/-- `unknown_command`. -/
def unknownCommand (argv : List Bytes) : Reply :=
  .error ("ERR unknown command '" ++ toDisplay (arg argv 0) ++ "', with args beginning with: " ++
    String.intercalate ", " (((argv.drop 1).take 3).map fun a => "'" ++ toDisplay a ++ "'"))

/-! ## Transactions -/

/-- A transaction that will not run. -/
def Transaction.refused (t : Transaction) : Transaction := { t with failed := true }

/-- A transaction with one more command. -/
def Transaction.push (t : Transaction) (argv : List Bytes) : Transaction :=
  { t with queued := t.queued ++ [argv] }

namespace Transactions

/-- `is_control`. -/
def isControl (name : String) : Bool :=
  ["MULTI", "EXEC", "DISCARD", "WATCH", "RESET", "QUIT"].contains name

/-- `refused_in_multi`. -/
def refusedInMulti (name : String) : Bool :=
  ["SUBSCRIBE", "UNSUBSCRIBE", "PSUBSCRIBE", "PUNSUBSCRIBE"].contains name

/-- Why a command cannot be queued. -/
def refusal (name : String) (argv : List Bytes) : Option Reply :=
  if (family name).isNone then some (unknownCommand argv)
  else if refusedInMulti name then some (.error ("ERR " ++ name ++ " is not allowed in transactions"))
  else none

/-- `queue`. -/
def queue (name : String) (argv : List Bytes) : Run Client Response := do
  let c ← Act.get
  let transaction ← Act.expect "only called while a transaction is open" c.transaction
  match refusal name argv with
  | some error => do
    Act.set { c with transaction := some transaction.refused }
    pure (.new error)
  | none => do
    Act.set { c with transaction := some (transaction.push argv) }
    pure (.new (.simple "QUEUED"))

/-- `unwatch_all` of the client being served. -/
def unwatchAll : Run Served Unit := do
  let s ← Act.get
  let client ← onApp (App.unwatchAll s.client)
  onClient (Act.set client)

/-- `watch_one`. -/
def watchOne (key : Bytes) : Run Served Unit := do
  let s ← Act.get
  if s.client.watched.any fun p => p.1 = key then pure ()
  else do
    let version ← onApp (App.onWatch (Watch.watch key))
    onApp (Act.modify fun a => { a with history := .watched s.client.id key :: a.history })
    onClient (Act.modify fun c => { c with watched := c.watched ++ [(key, version)] })

/-- `discard`. -/
def discard : Run Served Unit := do
  onClient (Act.modify fun c => { c with transaction := none })
  unwatchAll

/-- `unsubscribe_everything`. -/
def unsubscribeEverything : Run Served Unit := Act.modify fun s =>
  let pubsub := s.client.channels.foldl (fun p channel => p.unsubscribe channel s.client.id)
    s.app.pubsub
  let pubsub := s.client.patterns.foldl (fun p pattern => p.punsubscribe pattern s.client.id) pubsub
  { app := { s.app with pubsub := pubsub }
    client := { s.client with channels := [], patterns := [] } }

/-- `watch_broken`. -/
def watchBroken (s : Served) : Bool :=
  s.client.watched.any fun p => s.app.watch.version p.1 ≠ some p.2

/-- The response of an EXEC that ran its queue. -/
def collected (responses : List Response) : Response :=
  { replies := [.array (responses.map Response.single)]
    close := responses.any Response.close
    protocol := responses.foldl (fun protocol r => r.protocol.or protocol) none }

/-- `exec`, with what runs the queued commands. -/
def exec (runQueued : List (List Bytes) → Run Served (List Response)) : Run Served Response := do
  let s ← Act.get
  match s.client.transaction with
  | none => pure (.new (.error "ERR EXEC without MULTI"))
  | some transaction => do
    onClient (Act.modify fun c => { c with transaction := none })
    unwatchAll
    if transaction.failed then
      pure (.new (.error "EXECABORT Transaction discarded because of previous errors."))
    else if watchBroken s then pure (.new .nilArray)
    else do
      onApp (Act.modify fun a =>
        { a with stats := { a.stats with transactions := a.stats.transactions + 1 } })
      onClient (Act.modify fun c => { c with inExec := true })
      let responses ← runQueued transaction.queued
      onClient (Act.modify fun c => { c with inExec := false })
      pure (collected responses)

/-- Answer a simple reply. -/
def answered (reply : Reply) (m : Run Served Unit) : Run Served Response := do
  m
  pure (.new reply)

/-- `dispatch`, arm by arm. -/
def arms (exec : Run Served Response) : List (String × PubSubs.Arm) :=
  [("MULTI", fun argv => do
      let s ← Act.get
      if argv.length ≠ 1 then pure (.new (.wrongArity "MULTI"))
      else if s.client.inTransaction then
        pure (.new (.error "ERR MULTI calls can not be nested"))
      else answered .ok (onClient (Act.modify Client.beginTransaction))),
    ("DISCARD", fun argv => do
      let s ← Act.get
      if argv.length ≠ 1 then pure (.new (.wrongArity "DISCARD"))
      else if !s.client.inTransaction then pure (.new (.error "ERR DISCARD without MULTI"))
      else answered .ok discard),
    ("WATCH", fun argv => do
      let s ← Act.get
      if argv.length ≤ 1 then pure (.new (.wrongArity "WATCH"))
      else if s.client.inTransaction then
        pure (.new (.error "ERR WATCH inside MULTI is not allowed"))
      else answered .ok (Act.forList watchOne (argv.drop 1))),
    ("UNWATCH", fun argv =>
      if argv.length ≠ 1 then pure (.new (.wrongArity "UNWATCH")) else answered .ok unwatchAll),
    ("EXEC", fun argv => if argv.length ≠ 1 then pure (.new (.wrongArity "EXEC")) else exec),
    ("RESET", fun _ => answered (.simple "RESET") (do discard; unsubscribeEverything))]

/-- `dispatch`. -/
def dispatch (exec : Run Served Response) (name : String) (argv : List Bytes) :
    Run Served Response :=
  match (arms exec).lookup name with
  | some arm => arm argv
  | none => pure (.new unknownVerb)

end Transactions

/-! ## Running a command -/

/-- A handler family on the keyspace. -/
def onArms (arms : Config → Arms) (name : String) (argv : List Bytes) : Run Served Response := do
  let s ← Act.get
  let reply ← onStore (answer ((arms s.app.config).run name argv))
  pure (.new reply)

/-- `run`, with what EXEC does. -/
def runWith (exec : Run Served Response) (name : String) (argv : List Bytes) :
    Run Served Response :=
  match family name with
  | some .server => Server.dispatch name argv
  | some .transaction => Transactions.dispatch exec name argv
  | some .pubsub => PubSubs.dispatch name argv
  | some .blocking => do
    let s ← Act.get
    onStore (Blocking.dispatch s.client name argv)
  | some .generic => onArms Generic.arms name argv
  | some .string => onArms Strings.arms name argv
  | some .list => onArms (fun _ => Lists.arms) name argv
  | some .hash => onArms (fun _ => Hashes.arms) name argv
  | some .set => onArms (fun _ => Sets.arms) name argv
  | some .zset => onArms Zsets.arms name argv
  | some .memory => onArms Memories.arms name argv
  | none => pure (.new (unknownCommand argv))

/-- `memory_gate`. -/
def memoryGate (name : String) : Run App (Option Reply) := do
  let a ← Act.get
  if a.config.maxmemory = 0 then pure none
  else do
    let fits ← App.makeRoom
    pure (if fits || !deniesOom name then none
      else some (.error "OOM command not allowed when used memory > 'maxmemory'."))

/-- Whether a response tells the registries nothing: parked, or an error. -/
def Response.silent (r : Response) : Bool :=
  r.block.isSome || (match r.replies.head? with
    | some (.error _) => true
    | _ => false)

/-- `signal_writes`. -/
def signalWrites (name : String) (argv : List Bytes) (response : Response) : Run App Unit :=
  if response.silent then pure ()
  else
    match writtenKeys name argv with
    | none => pure ()
    | some .everything => App.signalFlushed
    | some (.keys keys) => Act.forList App.signalModified keys

/-- The lookups a read made, added to the counters. -/
def countLookups (name : String) (before : Nat × Nat) : Run App Unit := Act.modify fun a =>
  if readCommands.contains name then
    let after := a.store.lookupCounts
    { a with stats := { a.stats with
      keyspaceHits := a.stats.keyspaceHits + (after.1 - before.1)
      keyspaceMisses := a.stats.keyspaceMisses + (after.2 - before.2) } }
  else a

/-- `execute`, with what EXEC does. -/
def executeWith (exec : Run Served Response) (name : String) (argv : List Bytes) :
    Run Served Response := do
  onApp (Act.modify fun a =>
    { a with stats := { a.stats with totalCommands := a.stats.totalCommands + 1 } })
  let s ← Act.get
  if s.client.protocol = .resp2 ∧ s.client.isSubscriber ∧ name ∉ subscriberCommands then
    pure (.new (.error ("ERR Can't execute '" ++ lowercase name ++
      "': only (P)SUBSCRIBE / (P)UNSUBSCRIBE / PING / QUIT / RESET are allowed in this context")))
  else do
    match ← onApp (memoryGate name) with
    | some refusal => pure (.new refusal)
    | none => do
      let s ← Act.get
      let before := s.app.store.lookupCounts
      let response ← runWith exec name argv
      onApp (countLookups name before)
      onApp (signalWrites name argv response)
      pure response

/-- An EXEC met while EXEC runs its queue. -/
def innerExec : Run Served Response := Transactions.exec fun _ => pure []

/-- One queued command. -/
def runQueuedOne (argv : List Bytes) : Run Served Response :=
  executeWith innerExec (toUpper (arg argv 0)) argv

/-- `exec`. -/
def exec : Run Served Response := Transactions.exec (Act.mapList runQueuedOne)

/-- `execute`. -/
def execute (name : String) (argv : List Bytes) : Run Served Response := executeWith exec name argv

/-- `dispatch`. -/
def dispatch (argv : List Bytes) : Run Served (Option Response) :=
  if argv.isEmpty then pure none
  else do
    let name := toUpper (arg argv 0)
    let s ← Act.get
    if s.client.inTransaction && !Transactions.isControl name then do
      let response ← onClient (Transactions.queue name argv)
      pure (some response)
    else do
      let response ← execute name argv
      pure (some response)

/-- `retry`: `none` for a command that stays parked. -/
def retry (argv : List Bytes) : Run Served (Option Reply) := do
  let response ← execute (toUpper (arg argv 0)) argv
  onApp (Act.modify fun a =>
    { a with stats := { a.stats with totalCommands := a.stats.totalCommands - 1 } })
  pure (if response.block.isSome then none else some response.single)

end Klyro
