import Klyro.Commands.Basic

/-!
# Hash commands (`commands/hash.rs`)
-/

set_option autoImplicit false

namespace Klyro.Hashes

/-- Insert every pair, counting the new fields. -/
def insertPairs : List (Bytes × Bytes) → HashValue → Nat × HashValue
  | [], h => (0, h)
  | (field, value) :: pairs, h =>
    let rest := insertPairs pairs (h.insert field value)
    (if h.contains field then rest.1 else rest.1 + 1, rest.2)

/-- `HSET`, `HMSET`. -/
def hset (name : String) (reply : Nat → Reply) : Handler := fun argv => do
  minArgs argv name 3
  if (argv.drop 2).length % 2 ≠ 0 then throw (.wrongArity name)
  checkType (arg argv 1) .hash
  let added ← Store.getOrCreateHash (arg argv 1) (Act.state (insertPairs (pairsOf (argv.drop 2))))
  let added ← expect "type checked" added
  return reply added

/-- `HSETNX`. -/
def hsetnx : Handler := fun argv => do
  exactArgs argv "HSETNX" 3
  checkType (arg argv 1) .hash
  let inserted ← Store.getOrCreateHash (arg argv 1) (Act.state fun h =>
    if h.contains (arg argv 2) then (false, h) else (true, h.insert (arg argv 2) (arg argv 3)))
  let inserted ← expect "type checked" inserted
  if inserted then return .bool true
  Store.deleteIfEmpty (arg argv 1)
  return .bool false

/-- `read_hash(..).and_then(|h| h.get(field))`. -/
def readField (key field : Bytes) : Run Store (Option Bytes) := do
  let h ← Store.readHash key
  pure (h.bind fun h => h.lookup field)

/-- `HGET`. -/
def hget : Handler := fun argv => do
  exactArgs argv "HGET" 2
  checkType (arg argv 1) .hash
  let value ← readField (arg argv 1) (arg argv 2)
  return bulkOrNil value

/-- `HMGET`. -/
def hmget : Handler := fun argv => do
  minArgs argv "HMGET" 2
  checkType (arg argv 1) .hash
  let hash ← Store.readHash (arg argv 1)
  return .array ((argv.drop 2).map fun field => bulkOrNil (hash.bind fun h => h.lookup field))

/-- Remove every field, counting those that were there. -/
def removeFields : List Bytes → HashValue → Nat × HashValue
  | [], h => (0, h)
  | field :: fields, h =>
    let rest := removeFields fields (h.erase field)
    (if h.contains field then rest.1 + 1 else rest.1, rest.2)

/-- `HDEL`. -/
def hdel : Handler := fun argv => do
  minArgs argv "HDEL" 2
  checkType (arg argv 1) .hash
  let removed ← Store.writeHash (arg argv 1) (Act.state (removeFields (argv.drop 2)))
  Store.deleteIfEmpty (arg argv 1)
  return .integer (removed.getD 0)

/-- `HLEN`. -/
def hlen : Handler := fun argv => do
  exactArgs argv "HLEN" 1
  checkType (arg argv 1) .hash
  let h ← Store.readHash (arg argv 1)
  return .integer ((h.map Assoc.size).getD 0)

/-- `HEXISTS`. -/
def hexists : Handler := fun argv => do
  exactArgs argv "HEXISTS" 2
  checkType (arg argv 1) .hash
  let value ← readField (arg argv 1) (arg argv 2)
  return .bool value.isSome

/-- `HSTRLEN`. -/
def hstrlen : Handler := fun argv => do
  exactArgs argv "HSTRLEN" 2
  checkType (arg argv 1) .hash
  let value ← readField (arg argv 1) (arg argv 2)
  return .integer ((value.map List.length).getD 0)

/-- `HKEYS`, `HVALS`. -/
def hlist (name : String) (pick : Bytes × Bytes → Bytes) : Handler := fun argv => do
  exactArgs argv name 1
  checkType (arg argv 1) .hash
  let h ← Store.readHash (arg argv 1)
  return .bulkArray ((h.map fun h => h.pairs.map pick).getD [])

/-- `HGETALL`. -/
def hgetall : Handler := fun argv => do
  exactArgs argv "HGETALL" 1
  checkType (arg argv 1) .hash
  let h ← Store.readHash (arg argv 1)
  return .map ((h.map fun h => h.pairs.map fun p => (.bulk p.1, .bulk p.2)).getD [])

/-- `HINCRBY`. -/
def hincrby : Handler := fun argv => do
  exactArgs argv "HINCRBY" 3
  let delta ← intArg (arg argv 3)
  checkType (arg argv 1) .hash
  let current ← readField (arg argv 1) (arg argv 2)
  let base ← match current with
    | none => pure 0
    | some v => orThrow (.error "ERR hash value is not an integer") (parseI64 v)
  match checkedAdd base delta with
  | none => return .error "ERR increment or decrement would overflow"
  | some updated => do
    let done ← Store.getOrCreateHash (arg argv 1) (Act.modify fun h =>
      h.insert (arg argv 2) (showIntBytes updated))
    expect "type checked" done
    return .integer updated

/-- `HINCRBYFLOAT`. -/
def hincrbyfloat : Handler := fun argv => do
  exactArgs argv "HINCRBYFLOAT" 3
  let delta ← floatArg (arg argv 3)
  checkType (arg argv 1) .hash
  let current ← readField (arg argv 1) (arg argv 2)
  let base ← match current with
    | none => pure (SoftFloat.zero false)
    | some v => orThrow notAFloat (parseF64 v)
  let sum := base.add delta
  if !sum.isFinite then return .error "ERR increment would produce NaN or Infinity"
  let done ← Store.getOrCreateHash (arg argv 1) (Act.modify fun h =>
    h.insert (arg argv 2) (formatF64 sum))
  expect "type checked" done
  return .bulk (formatF64 sum)

/-- `handle`, arm by arm. -/
def arms : Arms :=
  [("HSET", hset "HSET" fun added => .integer added), ("HMSET", hset "HMSET" fun _ => .ok),
    ("HSETNX", hsetnx), ("HGET", hget), ("HMGET", hmget), ("HDEL", hdel), ("HLEN", hlen),
    ("HEXISTS", hexists), ("HSTRLEN", hstrlen), ("HKEYS", hlist "HKEYS" Prod.fst),
    ("HVALS", hlist "HVALS" Prod.snd), ("HGETALL", hgetall), ("HINCRBY", hincrby),
    ("HINCRBYFLOAT", hincrbyfloat)]

end Klyro.Hashes
