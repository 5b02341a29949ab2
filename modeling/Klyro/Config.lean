import Klyro.Util.Bytes

/-!
# Runtime configuration (`config.rs`, and the policies of `evict.rs`)

* `Config` — every tunable of the server, with its defaults.
* `Config.get` / `Config.set` — the surface behind `CONFIG GET` and `CONFIG SET`.
-/

set_option autoImplicit false

namespace Klyro

/-- Which keys may be evicted, and how a victim is picked from them. -/
inductive Policy where
  | noEviction | allkeysLru | allkeysLfu | allkeysRandom
  | volatileLru | volatileLfu | volatileRandom | volatileTtl
deriving DecidableEq

/-- `POLICIES`. -/
def policies : List (String × Policy) :=
  [("noeviction", .noEviction), ("allkeys-lru", .allkeysLru), ("allkeys-lfu", .allkeysLfu),
    ("allkeys-random", .allkeysRandom), ("volatile-lru", .volatileLru),
    ("volatile-lfu", .volatileLfu), ("volatile-random", .volatileRandom),
    ("volatile-ttl", .volatileTtl)]

namespace Policy

/-- `Policy::parse`. -/
def parse (name : String) : Option Policy := policies.lookup (lowercase name)

/-- `Policy::name`. -/
def name (p : Policy) : String := ((policies.find? fun q => q.2 == p).map Prod.fst).getD ""

/-- `volatile_only`. -/
def volatileOnly : Policy → Bool
  | .volatileLru | .volatileLfu | .volatileRandom | .volatileTtl => true
  | _ => false

/-- `evicts`. -/
def evicts (p : Policy) : Bool := p != .noEviction

end Policy

/-- Why a `CONFIG SET` was refused. -/
inductive SetError where
  | unknown | immutable | badValue
deriving DecidableEq

/-- `Display` of a refusal. -/
def SetError.display : SetError → String
  | .unknown => "unknown parameter"
  | .immutable => "parameter cannot be changed at runtime"
  | .badValue => "invalid value for parameter"

/-- The tunables. -/
structure Config where
  bind : String := "0.0.0.0"
  port : Nat := 7171
  dbfilename : String := "klyro.dump"
  saveInterval : Duration := 60 * nanosPerSec
  sweepInterval : Duration := 1 * nanosPerSec
  maxclients : Nat := 10000
  maxStringBytes : Nat := 512 * 1024 * 1024
  protoMaxBulkLen : Nat := 512 * 1024 * 1024
  clientOutputBufferLimit : Nat := 256 * 1024 * 1024
  scanDefaultCount : Nat := 10
  zaddMaxPairs : Nat := 128
  maxmemory : Nat := 0
  maxmemoryPolicy : Policy := .noEviction
  maxmemorySamples : Nat := 5
  memMaxTopk : Nat := 100
  memMaxCandidates : Nat := 500
  memMaxScan : Nat := 1000000
  memMaxDim : Nat := 4096
  memMaxTextBytes : Nat := 65536
  memMaxRecords : Nat := 0
  memMaxTermsPerDoc : Nat := 1024
  memRecencyHalflife : Nat := 7 * 24 * 3600
deriving DecidableEq

/-- `PARAMETERS`. -/
def parameters : List String :=
  ["bind", "port", "dbfilename", "save-interval", "sweep-interval", "maxclients",
    "max-string-bytes", "proto-max-bulk-len", "client-output-buffer-limit", "scan-default-count",
    "zadd-max-pairs", "maxmemory", "maxmemory-policy", "maxmemory-samples", "mem-max-topk",
    "mem-max-candidates", "mem-max-scan", "mem-max-dim", "mem-max-text-bytes", "mem-max-records",
    "mem-max-terms-per-doc", "mem-recency-halflife"]

/-- `non_negative`. -/
def nonNegative (value : List Char) : Option Nat := Text.parseNat u64Max value

/-- `positive`. -/
def positive (value : String) : Option Nat := (nonNegative value.toList).filter (0 < ·)

/-- The size suffixes of `parse_size`, in the order they are tried. -/
def sizeSuffixes : List (String × Nat) :=
  [("kb", 1024), ("mb", 1024 * 1024), ("gb", 1024 * 1024 * 1024), ("k", 1000), ("m", 1000000),
    ("g", 1000000000)]

/-- `str::strip_suffix`. -/
def stripSuffix (cs suffix : List Char) : Option (List Char) :=
  if suffix.isSuffixOf cs then some (cs.take (cs.length - suffix.length)) else none

/-- The loop of `parse_size` over the suffixes. -/
def parseSizeWith (lower : List Char) : List (String × Nat) → Option Nat
  | [] => nonNegative lower
  | (suffix, scale) :: rest =>
    match stripSuffix lower suffix.toList with
    | some number =>
      ((nonNegative (Text.trim number)).map (· * scale)).filter (· ≤ u64Max)
    | none => parseSizeWith lower rest

/-- `parse_size`. -/
def parseSize (value : String) : Option Nat :=
  parseSizeWith (lowercase (String.ofList (Text.trim value.toList))).toList sizeSuffixes

namespace Config

/-- `Config::get`. -/
def get (c : Config) (name : String) : Option String :=
  match name with
  | "bind" => some c.bind
  | "port" => some (showNat c.port)
  | "dbfilename" => some c.dbfilename
  | "save-interval" => some (showNat (c.saveInterval / nanosPerSec))
  | "sweep-interval" => some (showNat (asMillis c.sweepInterval))
  | "maxclients" => some (showNat c.maxclients)
  | "max-string-bytes" => some (showNat c.maxStringBytes)
  | "proto-max-bulk-len" => some (showNat c.protoMaxBulkLen)
  | "client-output-buffer-limit" => some (showNat c.clientOutputBufferLimit)
  | "scan-default-count" => some (showNat c.scanDefaultCount)
  | "zadd-max-pairs" => some (showNat c.zaddMaxPairs)
  | "maxmemory" => some (showNat c.maxmemory)
  | "maxmemory-policy" => some c.maxmemoryPolicy.name
  | "maxmemory-samples" => some (showNat c.maxmemorySamples)
  | "mem-max-topk" => some (showNat c.memMaxTopk)
  | "mem-max-candidates" => some (showNat c.memMaxCandidates)
  | "mem-max-scan" => some (showNat c.memMaxScan)
  | "mem-max-dim" => some (showNat c.memMaxDim)
  | "mem-max-text-bytes" => some (showNat c.memMaxTextBytes)
  | "mem-max-records" => some (showNat c.memMaxRecords)
  | "mem-max-terms-per-doc" => some (showNat c.memMaxTermsPerDoc)
  | "mem-recency-halflife" => some (showNat c.memRecencyHalflife)
  | _ => none

/-- Store a parsed value, or refuse it. -/
def store {α : Type} (c : Config) (value : Option α) (put : α → Config) : Option SetError × Config :=
  match value with
  | some a => (none, put a)
  | none => (some .badValue, c)

/-- A nonempty text. -/
def nonEmptyText (value : String) : Option String := if value.isEmpty then none else some value

/-- `Config::set`: the refusal, if any, and the configuration afterwards. -/
def set (c : Config) (name value : String) (allowStartupOnly : Bool) : Option SetError × Config :=
  match name with
  | "bind" =>
    if !allowStartupOnly then (some .immutable, c)
    else c.store (nonEmptyText value) fun v => { c with bind := v }
  | "port" =>
    if !allowStartupOnly then (some .immutable, c)
    else match Text.parseNat 65535 value.toList with
      | none => (some .badValue, c)
      -- the port is stored before it is refused
      | some 0 => (some .badValue, { c with port := 0 })
      | some n => (none, { c with port := n })
  | "dbfilename" => c.store (nonEmptyText value) fun v => { c with dbfilename := v }
  | "save-interval" => c.store (positive value) fun n => { c with saveInterval := n * nanosPerSec }
  | "sweep-interval" => c.store (positive value) fun n => { c with sweepInterval := fromMillis n }
  | "maxclients" => c.store (positive value) fun n => { c with maxclients := n }
  | "max-string-bytes" => c.store (positive value) fun n => { c with maxStringBytes := n }
  | "proto-max-bulk-len" => c.store (positive value) fun n => { c with protoMaxBulkLen := n }
  | "client-output-buffer-limit" =>
    c.store (positive value) fun n => { c with clientOutputBufferLimit := n }
  | "scan-default-count" => c.store (positive value) fun n => { c with scanDefaultCount := n }
  | "zadd-max-pairs" => c.store (positive value) fun n => { c with zaddMaxPairs := n }
  | "maxmemory" => c.store (parseSize value) fun n => { c with maxmemory := n }
  | "maxmemory-policy" => c.store (Policy.parse value) fun p => { c with maxmemoryPolicy := p }
  | "maxmemory-samples" => c.store (positive value) fun n => { c with maxmemorySamples := n }
  | "mem-max-topk" => c.store (positive value) fun n => { c with memMaxTopk := n }
  | "mem-max-candidates" => c.store (positive value) fun n => { c with memMaxCandidates := n }
  | "mem-max-scan" => c.store (positive value) fun n => { c with memMaxScan := n }
  | "mem-max-dim" => c.store (positive value) fun n => { c with memMaxDim := n }
  | "mem-max-text-bytes" => c.store (positive value) fun n => { c with memMaxTextBytes := n }
  | "mem-max-records" =>
    c.store (nonNegative value.toList) fun n => { c with memMaxRecords := n }
  | "mem-max-terms-per-doc" => c.store (positive value) fun n => { c with memMaxTermsPerDoc := n }
  | "mem-recency-halflife" => c.store (positive value) fun n => { c with memRecencyHalflife := n }
  | _ => (some .unknown, c)

end Config

end Klyro
