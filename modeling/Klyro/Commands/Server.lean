import Klyro.Commands.Blocking
import Klyro.Util.Glob

/-!
# Connection and server commands (`commands/server.rs`)

* `Served` — the shared state together with the client a command came from.
* `Server.info` — the sections of INFO.
* `Server.dispatch` — the family, with what becomes of the connection.
-/

set_option autoImplicit false

namespace Klyro

/-- What a command may read and change. -/
structure Served where
  app : App
  client : Client

namespace Served

/-- Run on the shared state. -/
def onApp {α : Type} (m : Run App α) : Run Served α :=
  Act.zoom Served.app (fun a s => { s with app := a }) m

/-- Run on the keyspace. -/
def onStore {α : Type} (m : Run Store α) : Run Served α := onApp (App.onStore m)

/-- Run on the client. -/
def onClient {α : Type} (m : Run Client α) : Run Served α :=
  Act.zoom Served.client (fun c s => { s with client := c }) m

end Served

namespace Server

open Served

/-- `SECTIONS`. -/
def sections : List String :=
  ["server", "clients", "memory", "persistence", "stats", "keyspace", "memorydb"]

/-- One `key:value` line. -/
def line (key value : String) : String := key ++ ":" ++ value ++ "\r\n"

/-- `title_case`. -/
def titleCase (word : String) : String :=
  match word.toList with
  | [] => ""
  | c :: cs =>
    String.ofList ((if 97 ≤ c.toNat ∧ c.toNat ≤ 122 then Char.ofNat (c.toNat - 32) else c) :: cs)

/-- Two decimals of a non-negative number. -/
def twoDecimals (x : F64) : String :=
  let hundredths := SoftFloat.halfEven (x.units * 100) (2 ^ Format.unitExp ⟨53, 11⟩)
  let cents := hundredths % 100
  showNat (hundredths / 100) ++ "." ++ (if cents < 10 then "0" else "") ++ showNat cents

/-- The units of `human_bytes`. -/
def byteUnits : List (Nat × String) :=
  [(1024 * 1024 * 1024, "G"), (1024 * 1024, "M"), (1024, "K")]

/-- `human_bytes`. -/
def humanBytes (bytes : Nat) : String :=
  let value : F64 := SoftFloat.ofInt bytes
  match byteUnits.find? fun u => SoftFloat.le (SoftFloat.ofInt u.1) value with
  | some (scale, suffix) => twoDecimals (value.div (SoftFloat.ofInt scale)) ++ suffix
  | none => showNat bytes ++ "B"

/-- `unix_seconds`. -/
def unixSeconds (t : SystemTime) : Nat := ((durationSince t 0).getD 0) / nanosPerSec

/-- `KLYRO_VERSION`. -/
def klyroVersion : String := "0.1.1"

/-- `REDIS_COMPAT_VERSION`. -/
def redisCompatVersion : String := "7.0.0"

/-- The totals of INFO's `memorydb` section over the memory keys. -/
def memoryTotals : List Bytes → Nat × Nat × Nat × Nat → Run Store (Nat × Nat × Nat × Nat)
  | [], totals => pure totals
  | key :: keys, (records, vectors, terms, bytes) => do
    let found ← Store.existingMemory key do
      let m ← Act.get
      let heap ← heapBytes
      pure (m.len, m.vectors.live, m.text.termCount, heap)
    match found with
    | none => memoryTotals keys (records, vectors, terms, bytes)
    | some (r, v, t, b) => memoryTotals keys (records + r, vectors + v, terms + t, bytes + b)

/-- `append_section`, without its heading. -/
def sectionBody (name : String) : Run App String := do
  let a ← Act.get
  match name with
  | "server" => do
    let e ← env
    let t ← instantNow
    let uptime := (t - a.stats.startedAt) / nanosPerSec
    pure (line "klyro_version" klyroVersion ++ line "redis_version" redisCompatVersion ++
      line "process_id" (showNat e.pid) ++ line "tcp_bind" a.config.bind ++
      line "tcp_port" (showNat a.config.port) ++ line "uptime_in_seconds" (showNat uptime) ++
      line "uptime_in_days" (showNat (uptime / 86400)))
  | "clients" =>
    pure (line "connected_clients" (showNat a.stats.connectedClients) ++
      line "maxclients" (showNat a.config.maxclients) ++
      line "rejected_connections" (showNat a.stats.rejectedConnections) ++
      line "blocked_clients" (showNat a.blocked.length) ++
      line "watching_clients" (showNat a.watch.tracked) ++
      line "pubsub_clients" (showNat a.pubsub.subscriptionCount))
  | "memory" => do
    let used ← usedBytes
    let peak ← usedBytes
    pure (line "used_memory" (showNat used) ++ line "used_memory_human" (humanBytes used) ++
      line "used_memory_peak" (showNat peak) ++ line "used_memory_peak_human" (humanBytes peak) ++
      line "maxmemory" (showNat a.config.maxmemory) ++
      line "maxmemory_human" (if a.config.maxmemory = 0 then "unlimited"
        else humanBytes a.config.maxmemory) ++
      line "maxmemory_policy" a.config.maxmemoryPolicy.name)
  | "persistence" =>
    pure (line "dbfilename" a.config.dbfilename ++
      line "changes_since_last_save" (showNat a.store.dirty) ++
      line "last_save_time" (showNat ((a.stats.lastSaveAt.map unixSeconds).getD 0)) ++
      line "last_save_status" (if a.stats.lastSaveOk then "ok" else "err") ++
      line "total_saves" (showNat a.stats.saveCount) ++
      line "save_interval_seconds" (showNat (a.config.saveInterval / nanosPerSec)))
  | "stats" =>
    pure (line "total_connections_received" (showNat a.stats.totalConnections) ++
      line "total_commands_processed" (showNat a.stats.totalCommands) ++
      line "keyspace_hits" (showNat a.stats.keyspaceHits) ++
      line "keyspace_misses" (showNat a.stats.keyspaceMisses) ++
      line "expired_keys" (showNat a.store.expired) ++
      line "evicted_keys" (showNat a.stats.evictedKeys) ++
      line "pubsub_channels" (showNat (a.pubsub.activeChannels none).length) ++
      line "pubsub_patterns" (showNat a.pubsub.patternCount) ++
      line "total_messages_published" (showNat a.stats.messagesPublished) ++
      line "total_transactions" (showNat a.stats.transactions))
  | "memorydb" => do
    let keys ← App.onStore Store.memoryKeys
    let totals ← App.onStore (memoryTotals keys (0, 0, 0, 0))
    pure (line "memory_indexes" (showNat keys.length) ++ line "memory_records" (showNat totals.1) ++
      line "memory_vectors" (showNat totals.2.1) ++ line "memory_terms" (showNat totals.2.2.1) ++
      line "memory_index_bytes" (showNat totals.2.2.2) ++
      line "memory_records_expired" (showNat a.stats.memoryRecordsExpired))
  | "keyspace" => do
    let size ← App.onStore Store.size
    let volatileSize ← App.onStore Store.volatileSize
    let breakdown ← App.onStore Store.typeBreakdown
    pure ("db0:keys=" ++ showNat size ++ ",expires=" ++ showNat volatileSize ++ "\r\n" ++
      String.join (breakdown.map fun p => line p.1.name (showNat p.2)))
  | _ => pure ""

/-- `append_section`, the wanted sections one after the other. -/
def appendSections : List String → String → Run App String
  | [], out => pure out
  | name :: names, out => do
    let body ← sectionBody name
    let out := if out.isEmpty then out else out ++ "\r\n"
    appendSections names (out ++ "# " ++ titleCase name ++ "\r\n" ++ body)

/-- The sections INFO was asked for. -/
def wantedSections (requested : String) : List String :=
  if requested ∈ ["all", "default", "everything"] then sections
  else if requested ∈ sections then [requested]
  else []

/-- `info`. -/
def info (argv : List Bytes) : Run App Reply :=
  if 2 < argv.length then pure (.wrongArity "INFO")
  else do
    let requested := if argv.length = 1 then "all" else lowercase (toDisplay (arg argv 1))
    let out ← appendSections (wantedSections requested) ""
    pure (.text out)

/-- `config`. -/
def config (argv : List Bytes) : Run App Reply := do
  if argv.length ≤ 1 then return .wrongArity "CONFIG"
  match toUpper (arg argv 1) with
  | "GET" =>
    if argv.length ≤ 2 then return .wrongArity "CONFIG|GET"
    let a ← Act.get
    let wanted := parameters.filter fun name =>
      (argv.drop 2).any fun pattern => globMatch pattern (Text.bytes name)
    return .map (wanted.filterMap fun name =>
      (a.config.get name).map fun value => (.text name, .text value))
  | "SET" =>
    if argv.length ≠ 4 then return .wrongArity "CONFIG|SET"
    let name := lowercase (toDisplay (arg argv 2))
    let a ← Act.get
    let outcome := a.config.set name (toDisplay (arg argv 3)) false
    Act.modify fun a => { a with config := outcome.2 }
    match outcome.1 with
    | none => return .ok
    | some .unknown =>
      return .error ("ERR Unknown option or number of arguments for CONFIG SET - '" ++ name ++ "'")
    | some e => return .error ("ERR CONFIG SET failed - " ++ e.display ++ " '" ++ name ++ "'")
  | "RESETSTAT" =>
    Act.modify fun a => { a with stats := a.stats.reset }
    return .ok
  | other => return .error ("ERR Unknown CONFIG subcommand: " ++ other)

/-- The protocol a HELLO asks for. -/
def helloProtocol (argv : List Bytes) : Option Protocol :=
  match argv[1]? with
  | none => some .resp2
  | some version => (parseI64 version).bind Protocol.fromVersion

/-- `hello`. -/
def hello (client : Client) (argv : List Bytes) : Reply :=
  match helloProtocol argv with
  | none => .error "NOPROTO unsupported protocol version"
  | some protocol =>
    .map [(.text "server", .text "klyro"), (.text "version", .text klyroVersion),
      (.text "proto", .integer protocol.version), (.text "id", .integer client.id),
      (.text "mode", .text "standalone"), (.text "role", .text "master"),
      (.text "modules", .array [])]

/-- `client_line`. -/
def clientLine (c : Client) (t : Instant) : String :=
  "id=" ++ showNat c.id ++ " addr=" ++ c.addr ++ " name=" ++ toDisplay c.name ++ " age=" ++
    showNat ((t - c.created) / nanosPerSec) ++ " resp=" ++
    String.ofList (Text.showInt c.protocol.version) ++ " db=0 sub=" ++ showNat c.channels.length ++
    " psub=" ++ showNat c.patterns.length ++ " multi=" ++
    (match c.transaction with
      | none => "-1"
      | some t => showNat t.queued.length) ++
    " watch=" ++ showNat c.watched.length ++ " cmd=client|info"

/-- `u8::is_ascii_whitespace`, for client names. -/
def blank (b : UInt8) : Bool := b = 32 || b = 9 || b = 10 || b = 12 || b = 13

/-- `client_command`. -/
def clientCommand (argv : List Bytes) : Run Client Reply := do
  if argv.length ≤ 1 then return .wrongArity "CLIENT"
  let c ← Act.get
  match toUpper (arg argv 1) with
  | "ID" => return .integer c.id
  | "GETNAME" => return if c.name.isEmpty then .nil else .bulk c.name
  | "SETNAME" =>
    if argv.length ≠ 3 then return .wrongArity "CLIENT|SETNAME"
    if (arg argv 2).any blank then
      return .error "ERR Client names cannot contain spaces, newlines or special characters."
    Act.set { c with name := arg argv 2 }
    return .ok
  | "SETINFO" => return if argv.length ≠ 4 then .wrongArity "CLIENT|SETINFO" else .ok
  | "INFO" =>
    let t ← instantNow
    return .text (clientLine c t)
  | other =>
    return .error ("ERR Unknown CLIENT subcommand or wrong number of arguments for '" ++
      other ++ "'")

/-- `handle`, arm by arm. -/
def arms : List (String × (List Bytes → Run Served Reply)) :=
  [("PING", fun argv => pure (match argv with
      | [_] => .simple "PONG"
      | [_, message] => .bulk message
      | _ => .wrongArity "PING")),
    ("ECHO", fun argv => pure (match argv with
      | [_, message] => .bulk message
      | _ => .wrongArity "ECHO")),
    ("HELLO", fun argv => do
      let s ← Act.get
      pure (hello s.client argv)),
    ("CLIENT", fun argv => onClient (clientCommand argv)),
    ("COMMAND", fun _ => pure (.array [])),
    ("INFO", fun argv => onApp (info argv)),
    ("CONFIG", fun argv => onApp (config argv)),
    ("SAVE", fun _ => do
      let saved ← onApp App.save
      pure (if saved then .ok else .error "ERR the save failed; see the server log")),
    ("QUIT", fun _ => pure .ok),
    ("SHUTDOWN", fun _ => do
      onApp (Act.modify fun a => { a with running := false })
      pure .ok)]

/-- `negotiated_protocol` of a HELLO that was answered with its map. -/
def switchedProtocol (name : String) (argv : List Bytes) : Reply → Option Protocol
  | .map _ => if name = "HELLO" then some ((helloProtocol argv).getD .resp2) else none
  | _ => none

/-- `dispatch`. -/
def dispatch (name : String) (argv : List Bytes) : Run Served Response := do
  let reply ← match arms.lookup name with
    | some handler => handler argv
    | none => pure unknownVerb
  pure { replies := [reply]
         close := name = "QUIT" || name = "SHUTDOWN"
         protocol := switchedProtocol name argv reply }

end Server

end Klyro
