import Klyro.Client
import Klyro.Config
import Klyro.Persist.Basic
import Klyro.PubSub
import Klyro.Watch

/-!
# The shared state (`app.rs`, `stats.rs`, `evict.rs`)

* `App` — the keyspace, the registries, the configuration and the counters.
* `App.signalModified` / `App.signalFlushed` — what a write tells the registries.
* `App.makeRoom` — eviction down to `maxmemory`.
* `App.tick` — the periodic housekeeping of the event loop.
-/

set_option autoImplicit false

namespace Klyro

/-- The counters behind INFO. -/
structure Stats where
  startedAt : Instant := 0
  totalConnections : Nat := 0
  rejectedConnections : Nat := 0
  connectedClients : Nat := 0
  totalCommands : Nat := 0
  keyspaceHits : Nat := 0
  keyspaceMisses : Nat := 0
  memoryRecordsExpired : Nat := 0
  evictedKeys : Nat := 0
  messagesPublished : Nat := 0
  transactions : Nat := 0
  lastSaveAt : Option SystemTime := none
  lastSaveOk : Bool := true
  saveCount : Nat := 0
deriving DecidableEq

/-- `Stats::reset`. -/
def Stats.reset (s : Stats) : Stats :=
  { s with
    totalConnections := 0
    rejectedConnections := 0
    totalCommands := 0
    keyspaceHits := 0
    keyspaceMisses := 0
    evictedKeys := 0
    messagesPublished := 0
    transactions := 0 }

/-- What happens to watched keys. -/
inductive WatchEvent where
  /-- A client put a key on its watch list. -/
  | watched (id : Nat) (key : Bytes)
  /-- A client's watch list was dropped. -/
  | dropped (id : Nat)
  /-- A key was signalled as modified. -/
  | signalled (key : Bytes)
  /-- Every key was. -/
  | flushed
deriving DecidableEq

/-- The shared state. -/
structure App where
  store : Store := {}
  persist : Persist := { path := "klyro.dump" }
  config : Config := {}
  stats : Stats := {}
  running : Bool := true
  pubsub : PubSub := {}
  watch : Watch := {}
  /-- The parked commands, oldest first. -/
  blocked : List Blocked := []
  /-- Keys modified since the last wake-up scan. -/
  readyKeys : List Bytes := []
  /-- Frames bound for other connections. -/
  outbox : List (Nat × Reply) := []
  nextClientId : Nat := 0
  lastSweep : Option Instant := none
  /-- History variable, newest first: nothing reads it. -/
  history : List WatchEvent := []
  /-- History variable: the keyspace when the last successful save finished.  Nothing reads it. -/
  saved : Option Store := none

namespace App

/-- Run on the keyspace. -/
def onStore {α : Type} (m : Run Store α) : Run App α :=
  Act.zoom App.store (fun s a => { a with store := s }) m

/-- Run on the watched-key registry. -/
def onWatch {α : Type} (m : Run Watch α) : Run App α :=
  Act.zoom App.watch (fun w a => { a with watch := w }) m

/-- `App::new`. -/
def new (config : Config) : Run Unit App := do
  let store ← Store.new
  let started ← instantNow
  pure { store := store, persist := { path := config.dbfilename }, config := config,
         stats := { startedAt := started } }

/-- `take_client_id`. -/
def takeClientId : Run App Nat := Act.state fun a =>
  (a.nextClientId + 1, { a with nextClientId := a.nextClientId + 1 })

/-- `signal_modified`. -/
def signalModified (key : Bytes) : Run App Unit := do
  Act.modify fun a =>
    { a with watch := a.watch.touch key, history := .signalled key :: a.history }
  let a ← Act.get
  if a.blocked.isEmpty then pure ()
  else do
    let type ← onStore (Store.peekType key)
    if type = some .list ∨ type = some .zset then
      Act.modify fun a => { a with readyKeys := a.readyKeys ++ [key] }
    else pure ()

/-- `signal_flushed`. -/
def signalFlushed : Run App Unit := Act.modify fun a =>
  { a with
    watch := a.watch.touchAll
    readyKeys := a.readyKeys ++ a.blocked.flatMap Blocked.keys
    history := .flushed :: a.history }

/-- `unwatch_all`: what is left of the client. -/
def unwatchAll (client : Client) : Run App Client := do
  Act.forList (fun p => onWatch (Watch.unwatch p.1)) client.watched
  Act.modify fun a => { a with history := .dropped client.id :: a.history }
  pure { client with watched := [] }

/-- `forget_client`. -/
def forgetClient (client : Client) : Run App Client := do
  Act.modify fun a =>
    { a with
      pubsub := a.pubsub.dropClient client.id
      blocked := a.blocked.filter fun waiter => waiter.id ≠ client.id }
  unwatchAll client

/-- `next_block_deadline`. -/
def nextBlockDeadline (a : App) : Option Instant := (a.blocked.filterMap Blocked.deadline).min?

/-- Whether a parked command's deadline has passed. -/
def timedOut (t : Instant) (waiter : Blocked) : Bool :=
  waiter.deadline.any fun deadline => decide (deadline ≤ t)

/-- `take_timed_out`. -/
def takeTimedOut : Run App (List Blocked) := do
  let t ← instantNow
  Act.state fun a =>
    (a.blocked.filter (timedOut t), { a with blocked := a.blocked.filter fun b => !timedOut t b })

/-! ## Eviction -/

/-- The first of the candidates with the least key, as `min_by_key` finds it. -/
def minBy (lt : Candidate → Candidate → Bool) : List Candidate → Option Candidate
  | [] => none
  | c :: cs => some (cs.foldl (fun best c => if lt c best then c else best) c)

/-- `far_future`. -/
def farFuture : SystemTime := (4294967295 * nanosPerSec : Nat)

/-- `Policy::choose`. -/
def choose : Policy → List Candidate → Option Candidate
  | .noEviction, _ => none
  | .allkeysRandom, candidates | .volatileRandom, candidates => candidates.head?
  | .allkeysLru, candidates | .volatileLru, candidates =>
    minBy (fun a b => decide (a.lastAccess < b.lastAccess)) candidates
  | .allkeysLfu, candidates | .volatileLfu, candidates =>
    minBy (fun a b => decide (a.freq < b.freq ∨ a.freq = b.freq ∧ a.lastAccess < b.lastAccess))
      candidates
  | .volatileTtl, candidates =>
    minBy (fun a b => decide (a.expireAt.getD farFuture < b.expireAt.getD farFuture)) candidates

/-- `within_limit`. -/
def withinLimit : Run App Bool := do
  let a ← Act.get
  if a.config.maxmemory = 0 then pure true
  else do
    let used ← usedBytes
    pure (decide (used ≤ a.config.maxmemory))

/-- The loop of `make_room`. -/
def evictLoop (policy : Policy) : Nat → Run App Bool
  | 0 => pure false
  | n + 1 => do
    let a ← Act.get
    if policy.volatileOnly ∧ a.store.volatileIsEmpty then pure false
    else do
      let candidates ← onStore (Store.sample policy.volatileOnly a.config.maxmemorySamples)
      match choose policy candidates with
      | none => pure false
      | some victim => do
        let gone ← onStore (Store.evict victim.key)
        if gone then do
          Act.modify fun a =>
            { a with stats := { a.stats with evictedKeys := a.stats.evictedKeys + 1 } }
          signalModified victim.key
          let fits ← withinLimit
          if fits then pure true else evictLoop policy n
        else evictLoop policy n

/-- `MAX_EVICTIONS_PER_PASS`. -/
def maxEvictionsPerPass : Nat := 10000

/-- `make_room`. -/
def makeRoom : Run App Bool := do
  let fits ← withinLimit
  if fits then pure true
  else do
    let a ← Act.get
    if !a.config.maxmemoryPolicy.evicts then pure false
    else evictLoop a.config.maxmemoryPolicy maxEvictionsPerPass

/-! ## Housekeeping -/

/-- `save`. -/
def save : Run App Bool := do
  let a ← Act.get
  let saved ← onStore (a.persist.saveTo a.config.dbfilename)
  let t ← now
  Act.modify fun a =>
    { a with
      persist := saved.2
      stats := { a.stats with
        lastSaveAt := some t
        lastSaveOk := saved.1
        saveCount := if saved.1 then a.stats.saveCount + 1 else a.stats.saveCount }
      saved := if saved.1 then some a.store else a.saved }
  pure saved.1

/-- `sweep_memory_records`. -/
def sweepMemoryRecords : Run App Unit := do
  let keys ← onStore Store.memoryKeys
  Act.forList (fun key => do
    let a ← Act.get
    match ← onStore (Store.existingMemory key (Memory.sweepExpired a.config.memMaxTermsPerDoc)) with
    | none => pure ()
    | some dropped =>
      if 0 < dropped then do
        Act.modify fun a => { a with stats := { a.stats with
          memoryRecordsExpired := a.stats.memoryRecordsExpired + dropped } }
        onStore Store.markDirty
      else pure ()) keys

/-- `tick`. -/
def tick : Run App Unit := do
  let t ← instantNow
  let a ← Act.get
  let due := match a.lastSweep with
    | none => true
    | some last => decide (a.config.sweepInterval ≤ t - last)
  if due then do
    onStore Store.sweepExpired
    sweepMemoryRecords
    Act.modify fun a => { a with lastSweep := some t }
  else pure ()
  let a ← Act.get
  let autosave ← Act.zoom App.persist (fun p a => { a with persist := p })
    (Persist.autosaveDue a.config.saveInterval a.store)
  if autosave then do
    let _ ← save
    pure ()
  else pure ()

end App

end Klyro
