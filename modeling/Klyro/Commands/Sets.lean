import Klyro.Commands.Basic

/-!
# Set commands (`commands/set.rs`)
-/

set_option autoImplicit false

namespace Klyro.Sets

/-- The members of a set. -/
def members (s : SetValue) : List Bytes := s.keys

/-- Insert every member, counting the new ones. -/
def insertAll : List Bytes → SetValue → Nat × SetValue
  | [], s => (0, s)
  | m :: ms, s =>
    let rest := insertAll ms (s.insert m ())
    (if s.contains m then rest.1 else rest.1 + 1, rest.2)

/-- Remove every member, counting those that were there. -/
def removeAll : List Bytes → SetValue → Nat × SetValue
  | [], s => (0, s)
  | m :: ms, s =>
    let rest := removeAll ms (s.erase m)
    (if s.contains m then rest.1 + 1 else rest.1, rest.2)

/-- Type checks of `collect_sets`. -/
def checkSets : List Bytes → Cmd Unit
  | [] => pure ()
  | key :: keys => do
    checkType key .set
    checkSets keys

/-- `collect_sets`. -/
def collectSets (keys : List Bytes) : Cmd (List SetValue) := do
  checkSets keys
  Act.mapList (fun key => do
    let s ← Store.readSet key
    pure (s.getD ∅)) keys

/-- The draws of `take_random`: the members left to draw from, and the set. -/
def takeLoop : Nat → List Bytes → Run SetValue (List Bytes)
  | 0, _ => pure []
  | n + 1, pool => do
    let i ← below pool.length
    match pool[i]?, swapRemove pool i with
    | some picked, some pool => do
      Act.modify fun s => s.erase picked
      let rest ← takeLoop n pool
      pure (picked :: rest)
    | _, _ => Act.panic .swapRemove

/-- `take_random`. -/
def takeRandom (count : Nat) : Run SetValue (List Bytes) := do
  let s ← Act.get
  takeLoop (Nat.min count (members s).length) (members s)

/-- The three operations of the set algebra. -/
inductive Algebra where
  | inter | union | diff
deriving DecidableEq

/-- `combine`. -/
def combine (op : Algebra) : List SetValue → Cmd (List Bytes)
  | [] => expect "at least one key was required" none
  | first :: others =>
    pure (members (others.foldl (fun acc other =>
      match op with
      | .inter => (members acc).foldl (fun acc m => if other.contains m then acc else acc.erase m) acc
      | .union => (members other).foldl (fun acc m => acc.insert m ()) acc
      | .diff => (members acc).foldl (fun acc m => if other.contains m then acc.erase m else acc) acc)
      first))

/-- `SADD`. -/
def sadd : Handler := fun argv => do
  minArgs argv "SADD" 2
  checkType (arg argv 1) .set
  let added ← Store.getOrCreateSet (arg argv 1) (Act.state (insertAll (argv.drop 2)))
  let added ← expect "type checked" added
  return .integer added

/-- `SREM`. -/
def srem : Handler := fun argv => do
  minArgs argv "SREM" 2
  checkType (arg argv 1) .set
  let removed ← Store.writeSet (arg argv 1) (Act.state (removeAll (argv.drop 2)))
  Store.deleteIfEmpty (arg argv 1)
  return .integer (removed.getD 0)

/-- `SISMEMBER`. -/
def sismember : Handler := fun argv => do
  exactArgs argv "SISMEMBER" 2
  checkType (arg argv 1) .set
  let s ← Store.readSet (arg argv 1)
  return .bool (s.any fun s => s.contains (arg argv 2))

/-- `SMISMEMBER`. -/
def smismember : Handler := fun argv => do
  minArgs argv "SMISMEMBER" 2
  checkType (arg argv 1) .set
  let s ← Store.readSet (arg argv 1)
  return .array ((argv.drop 2).map fun m => .bool ((s.getD ∅).contains m))

/-- `SCARD`. -/
def scard : Handler := fun argv => do
  exactArgs argv "SCARD" 1
  checkType (arg argv 1) .set
  let s ← Store.readSet (arg argv 1)
  return .integer ((s.map Assoc.size).getD 0)

/-- `SMEMBERS`. -/
def smembers : Handler := fun argv => do
  exactArgs argv "SMEMBERS" 1
  checkType (arg argv 1) .set
  let s ← Store.readSet (arg argv 1)
  return .set ((members (s.getD ∅)).map .bulk)

/-- The count of `SPOP` and `SRANDMEMBER`. -/
def pickCount (argv : List Bytes) (name : String) : Cmd (Option Int) :=
  if argv.length = 2 then pure none
  else if argv.length = 3 then do
    let c ← intArg (arg argv 2)
    pure (some c)
  else throw (.wrongArity name)

/-- `SPOP`. -/
def spop : Handler := fun argv => do
  minArgs argv "SPOP" 1
  let count ← pickCount argv "SPOP"
  if count.any (· < 0) then return .error "ERR value is out of range, must be positive"
  checkType (arg argv 1) .set
  let taken ← Store.writeSet (arg argv 1) (takeRandom (count.getD 1).toNat)
  Store.deleteIfEmpty (arg argv 1)
  let picked := taken.getD []
  return match count with
    | none => bulkOrNil picked.head?
    | some _ => .set (picked.map .bulk)

/-- The draws of `SRANDMEMBER` with a negative count, which may repeat members. -/
def drawLoop (pool : List Bytes) : Nat → Run Store (List Bytes)
  | 0 => pure []
  | n + 1 => do
    let i ← below pool.length
    let rest ← drawLoop pool n
    pure (match pool[i]? with
      | some m => m :: rest
      | none => rest)

/-- `SRANDMEMBER`. -/
def srandmember : Handler := fun argv => do
  minArgs argv "SRANDMEMBER" 1
  let count ← pickCount argv "SRANDMEMBER"
  checkType (arg argv 1) .set
  let s ← Store.readSet (arg argv 1)
  let s := s.getD ∅
  let picked ← if count.any (· < 0) then drawLoop (members s) (count.getD 1).natAbs
    else (Act.zoom (fun _ => s) (fun _ store => store) (takeRandom (count.getD 1).toNat) :
      Run Store (List Bytes))
  return match count with
    | none => bulkOrNil picked.head?
    | some _ => .bulkArray picked

/-- `SMOVE`. -/
def smove : Handler := fun argv => do
  exactArgs argv "SMOVE" 3
  let source := arg argv 1
  let destination := arg argv 2
  let member := arg argv 3
  checkType source .set
  checkType destination .set
  let removed ← Store.writeSet source (Act.state fun s => (s.contains member, s.erase member))
  if !removed.getD false then return .bool false
  let done ← Store.getOrCreateSet destination (Act.modify fun s => s.insert member ())
  expect "type checked" done
  Store.deleteIfEmpty source
  return .bool true

/-- `SINTER`, `SUNION`, `SDIFF`. -/
def algebra (name : String) (op : Algebra) : Handler := fun argv => do
  minArgs argv name 1
  let sets ← collectSets (argv.drop 1)
  let result ← combine op sets
  return .set (result.map .bulk)

/-- `SINTERSTORE`, `SUNIONSTORE`, `SDIFFSTORE`. -/
def algebraStore (name : String) (op : Algebra) : Handler := fun argv => do
  minArgs argv name 2
  let destination := arg argv 1
  checkType destination .set
  let sets ← collectSets (argv.drop 2)
  let result ← combine op sets
  let _ ← Store.del destination
  if 0 < result.length then
    let done ← Store.getOrCreateSet destination (Act.modify fun s =>
      result.foldl (fun s m => s.insert m ()) s)
    expect "just deleted, so it is free" done
  return .integer result.length

/-- `handle`, arm by arm. -/
def arms : Arms :=
  [("SADD", sadd), ("SREM", srem), ("SISMEMBER", sismember), ("SMISMEMBER", smismember),
    ("SCARD", scard), ("SMEMBERS", smembers), ("SPOP", spop), ("SRANDMEMBER", srandmember),
    ("SMOVE", smove), ("SINTER", algebra "SINTER" .inter), ("SUNION", algebra "SUNION" .union),
    ("SDIFF", algebra "SDIFF" .diff), ("SINTERSTORE", algebraStore "SINTERSTORE" .inter),
    ("SUNIONSTORE", algebraStore "SUNIONSTORE" .union),
    ("SDIFFSTORE", algebraStore "SDIFFSTORE" .diff)]

end Klyro.Sets
