import Klyro.Commands.Basic
import Klyro.Util.Glob

/-!
# Commands on keys of any type (`commands/generic.rs`)
-/

set_option autoImplicit false

namespace Klyro.Generic

/-- `DEL`, `UNLINK`. -/
def del (name : String) : Handler := fun argv => do
  minArgs argv name 1
  let deleted ← Act.countList Store.del (argv.drop 1)
  return .integer deleted

/-- `EXISTS`. -/
def hasKeys : Handler := fun argv => do
  minArgs argv "EXISTS" 1
  let found ← Act.countList Store.hasKey (argv.drop 1)
  return .integer found

/-- `expire_variant`. -/
def expireVariant (name : String) (toDeadline : Int → Run Store SystemTime) : Handler := fun argv => do
  exactArgs argv name 2
  let amount ← intArg (arg argv 2)
  let deadline ← toDeadline amount
  let done ← Store.setExpireAt (arg argv 1) (some deadline)
  return .bool done

/-- `PERSIST`. -/
def persist : Handler := fun argv => do
  exactArgs argv "PERSIST" 1
  let hadExpiry ← Store.hasExpiry (arg argv 1)
  if hadExpiry then
    let _ ← Store.setExpireAt (arg argv 1) none
  return .bool hadExpiry

/-- `TTL`. -/
def ttl : Handler := fun argv => do
  exactArgs argv "TTL" 1
  let left ← Store.ttl (arg argv 1)
  return .integer left

/-- `PTTL`. -/
def pttl : Handler := fun argv => do
  exactArgs argv "PTTL" 1
  let left ← Store.pttlMs (arg argv 1)
  return .integer left

/-- `TYPE`. -/
def type : Handler := fun argv => do
  exactArgs argv "TYPE" 1
  let found ← Store.typeOf (arg argv 1)
  return .simple ((found.map StoreType.name).getD "none")

/-- `KEYS`. -/
def keys : Handler := fun argv => do
  exactArgs argv "KEYS" 1
  let all ← Store.foreachKey
  return .bulkArray (all.filter fun key => globMatch (arg argv 1) key)

/-- The options of `SCAN`: the pattern and the count. -/
def scanOptions : Nat → List Bytes → Option Bytes × Int → Cmd (Option Bytes × Int)
  | 0, _, options => pure options
  | _, [], options => pure options
  | fuel + 1, word :: rest, options =>
    match rest with
    | [] => throw syntaxError
    | value :: rest =>
      if eqIgnoreCase word "MATCH" then scanOptions fuel rest (some value, options.2)
      else if eqIgnoreCase word "COUNT" then do
        let c ← intArg value
        if 0 < c then scanOptions fuel rest (options.1, c) else throw syntaxError
      else throw syntaxError

/-- The cursor of `SCAN`. -/
def scanCursor (word : Bytes) : Cmd Nat :=
  match parseI64 word with
  | some c => if 0 ≤ c then pure c.toNat else throw (.error "ERR invalid cursor")
  | none => throw (.error "ERR invalid cursor")

/-- `SCAN`. -/
def scan (config : Config) : Handler := fun argv => do
  minArgs argv "SCAN" 1
  let cursor ← scanCursor (arg argv 1)
  let options ← scanOptions (argv.drop 2).length (argv.drop 2)
    (none, wrapI64 config.scanDefaultCount)
  -- `count as usize`
  let batch ← Store.scan cursor (options.2 % (u64Max + 1)).toNat
  let found := batch.1.filter fun key =>
    match options.1 with
    | none => true
    | some pattern => globMatch pattern key
  return .array [.text (showNat batch.2), .bulkArray found]

/-- `DBSIZE`. -/
def dbsize : Handler := fun argv => do
  exactArgs argv "DBSIZE" 0
  let n ← Store.size
  return .integer n

/-- `RENAME`. -/
def rename : Handler := fun argv => do
  exactArgs argv "RENAME" 2
  let there ← Store.hasKey (arg argv 1)
  if !there then return .error "ERR no such key"
  let _ ← Store.rename (arg argv 1) (arg argv 2)
  return .ok

/-- `RENAMENX`. -/
def renamenx : Handler := fun argv => do
  exactArgs argv "RENAMENX" 2
  let there ← Store.hasKey (arg argv 1)
  if !there then return .error "ERR no such key"
  let taken ← if arg argv 1 ≠ arg argv 2 then Store.hasKey (arg argv 2) else pure false
  if taken then return .bool false
  let _ ← Store.rename (arg argv 1) (arg argv 2)
  return .bool true

/-- The option of `COPY`. -/
def copyReplace (argv : List Bytes) : Cmd Bool :=
  if argv.length = 3 then pure false
  else if argv.length = 4 ∧ eqIgnoreCase (arg argv 3) "REPLACE" then pure true
  else throw syntaxError

/-- `COPY`. -/
def copy : Handler := fun argv => do
  minArgs argv "COPY" 2
  let replace ← copyReplace argv
  let copied ← Store.copy (arg argv 1) (arg argv 2) replace
  return .bool (copied.getD false)

/-- `RANDOMKEY`. -/
def randomkey : Handler := fun argv => do
  exactArgs argv "RANDOMKEY" 0
  let key ← Store.randomKey
  return bulkOrNil key

/-- `FLUSHDB`, `FLUSHALL`. -/
def flush : Handler := fun _ => do
  let _ ← Store.flush
  return .ok

/-- `handle`, arm by arm. -/
def arms (config : Config) : Arms :=
  [("DEL", del "DEL"), ("UNLINK", del "UNLINK"), ("EXISTS", hasKeys),
    ("EXPIRE", expireVariant "EXPIRE" fun secs => deadlineAfterMillis (saturatingMul secs 1000)),
    ("PEXPIRE", expireVariant "PEXPIRE" deadlineAfterMillis),
    ("EXPIREAT", expireVariant "EXPIREAT" fun secs => deadlineAtUnixMillis (saturatingMul secs 1000)),
    ("PEXPIREAT", expireVariant "PEXPIREAT" deadlineAtUnixMillis),
    ("PERSIST", persist), ("TTL", ttl), ("PTTL", pttl), ("TYPE", type), ("KEYS", keys),
    ("SCAN", scan config), ("DBSIZE", dbsize), ("RENAME", rename), ("RENAMENX", renamenx),
    ("COPY", copy), ("RANDOMKEY", randomkey), ("FLUSHDB", flush), ("FLUSHALL", flush)]

end Klyro.Generic
