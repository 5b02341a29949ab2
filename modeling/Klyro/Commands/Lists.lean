import Klyro.Commands.Basic

/-!
# List commands (`commands/list.rs`)
-/

set_option autoImplicit false

namespace Klyro.Lists

/-- Which end of a list an operation works on. -/
inductive End where
  | left | right
deriving DecidableEq

/-- `End::parse`. -/
def End.parse (token : Bytes) : Option End :=
  if eqIgnoreCase token "LEFT" then some .left
  else if eqIgnoreCase token "RIGHT" then some .right
  else none

/-- `pop_from`: the value and what is left, when there is one. -/
def popFrom (l : ListValue) : End → Option (Bytes × ListValue)
  | .left => match l with
    | [] => none
    | v :: l => some (v, l)
  | .right => match l.getLast? with
    | none => none
    | some v => some (v, l.dropLast)

/-- `push_to`. -/
def pushTo (l : ListValue) (side : End) (value : Bytes) : ListValue :=
  match side with
  | .left => value :: l
  | .right => l ++ [value]

/-- `pop_from` on the list in place. -/
def pop (side : End) : Run ListValue (Option Bytes) := Act.state fun l =>
  match popFrom l side with
  | some (v, l) => (some v, l)
  | none => (none, l)

/-- `pop_one`. -/
def popOne (key : Bytes) (side : End) : Run Store (Option Bytes) := do
  match ← Store.writeList key (pop side) with
  | some (some value) => do
    Store.deleteIfEmpty key
    pure (some value)
  | _ => pure none

/-- `move_one`. -/
def moveOne (source destination : Bytes) (takeFrom putTo : End) : Run Store (Option Bytes) := do
  match ← Store.writeList source (pop takeFrom) with
  | some (some value) => do
    let pushed ← Store.getOrCreateList destination (Act.modify fun l => pushTo l putTo value)
    Act.expect "type checked" pushed
    Store.deleteIfEmpty source
    pure (some value)
  | _ => pure none

/-- Up to `count` values off one end. -/
def popMany (side : End) : Nat → ListValue → List Bytes × ListValue
  | 0, l => ([], l)
  | n + 1, l =>
    match popFrom l side with
    | none => ([], l)
    | some (v, l) =>
      let rest := popMany side n l
      (v :: rest.1, rest.2)

/-- `LPUSH`, `RPUSH`, `LPUSHX`, `RPUSHX`. -/
def push (name : String) (side : End) (onlyIfPresent : Bool) : Handler := fun argv => do
  minArgs argv name 2
  let key := arg argv 1
  checkType key .list
  let absent ← if onlyIfPresent then do
      let there ← Store.hasKey key
      pure !there
    else pure false
  if absent then return .integer 0
  let len ← Store.getOrCreateList key (Act.state fun l =>
    let l := (argv.drop 2).foldl (fun l value => pushTo l side value) l
    (l.length, l))
  let len ← expect "type checked" len
  return .integer len

/-- The count of `LPOP` and `ZPOPMIN`. -/
def popCount (argv : List Bytes) (name : String) : Cmd (Option Nat) :=
  if argv.length = 2 then pure none
  else if argv.length = 3 then do
    let c ← intArg (arg argv 2)
    if 0 ≤ c then pure (some c.toNat)
    else throw (.error "ERR value is out of range, must be positive")
  else throw (.wrongArity name)

/-- `LPOP`, `RPOP`. -/
def lpop (name : String) (side : End) : Handler := fun argv => do
  minArgs argv name 1
  let key := arg argv 1
  let count ← popCount argv name
  checkType key .list
  let popped ← Store.writeList key (Act.state (popMany side (count.getD 1)))
  let popped := popped.getD []
  Store.deleteIfEmpty key
  return match count with
    | none => bulkOrNil popped.head?
    | some _ => if popped.isEmpty then .nilArray else .bulkArray popped

/-- `LLEN`. -/
def llen : Handler := fun argv => do
  exactArgs argv "LLEN" 1
  checkType (arg argv 1) .list
  let l ← Store.readList (arg argv 1)
  return .integer (l.map List.length |>.getD 0)

/-- `LRANGE`. -/
def lrange : Handler := fun argv => do
  exactArgs argv "LRANGE" 3
  let start ← intArg (arg argv 2)
  let stop ← intArg (arg argv 3)
  checkType (arg argv 1) .list
  let l ← Store.readList (arg argv 1)
  return .bulkArray (l.map (fun l => ListValue.range l start stop) |>.getD [])

/-- `LINDEX`. -/
def lindex : Handler := fun argv => do
  exactArgs argv "LINDEX" 2
  let index ← intArg (arg argv 2)
  checkType (arg argv 1) .list
  let l ← Store.readList (arg argv 1)
  return bulkOrNil (l.bind fun l => (resolveIndex l.length index).bind fun i => l[i]?)

/-- `LSET`. -/
def lset : Handler := fun argv => do
  exactArgs argv "LSET" 3
  let index ← intArg (arg argv 2)
  checkType (arg argv 1) .list
  let found ← Store.writeList (arg argv 1) (Act.state fun l =>
    match resolveIndex l.length index with
    | some i => (true, l.set i (arg argv 3))
    | none => (false, l))
  return match found with
    | none => .error "ERR no such key"
    | some true => .ok
    | some false => .error "ERR index out of range"

/-- `LINSERT`. -/
def linsert : Handler := fun argv => do
  exactArgs argv "LINSERT" 4
  let before ← if eqIgnoreCase (arg argv 2) "BEFORE" then pure true
    else if eqIgnoreCase (arg argv 2) "AFTER" then pure false
    else throw syntaxError
  checkType (arg argv 1) .list
  let newLen ← Store.writeList (arg argv 1) (Act.state fun l =>
    ListValue.insert l before (arg argv 3) (arg argv 4))
  match newLen.join with
  | some len => return .integer len
  | none => do
    let there ← Store.hasKey (arg argv 1)
    return .integer (if there then -1 else 0)

/-- `LREM`. -/
def lrem : Handler := fun argv => do
  exactArgs argv "LREM" 3
  let count ← intArg (arg argv 2)
  checkType (arg argv 1) .list
  let removed ← Store.writeList (arg argv 1) (Act.state fun l =>
    ListValue.remove l count (arg argv 3))
  Store.deleteIfEmpty (arg argv 1)
  return .integer (removed.getD 0)

/-- `LTRIM`. -/
def ltrim : Handler := fun argv => do
  exactArgs argv "LTRIM" 3
  let start ← intArg (arg argv 2)
  let stop ← intArg (arg argv 3)
  checkType (arg argv 1) .list
  let _ ← Store.writeList (arg argv 1) (Act.modify fun l => ListValue.trim l start stop)
  Store.deleteIfEmpty (arg argv 1)
  return .ok

/-- The ends a move names. -/
def moveEnds (argv : List Bytes) : Cmd (End × End) :=
  match End.parse (arg argv 3), End.parse (arg argv 4) with
  | some f, some t => pure (f, t)
  | _, _ => throw syntaxError

/-- The common part of `RPOPLPUSH` and `LMOVE`. -/
def moveBetween (argv : List Bytes) (ends : End × End) : Cmd Reply := do
  checkType (arg argv 1) .list
  checkType (arg argv 2) .list
  let moved ← moveOne (arg argv 1) (arg argv 2) ends.1 ends.2
  return bulkOrNil moved

/-- `RPOPLPUSH`. -/
def rpoplpush : Handler := fun argv => do
  exactArgs argv "RPOPLPUSH" 2
  moveBetween argv (.right, .left)

/-- `LMOVE`. -/
def lmove : Handler := fun argv => do
  exactArgs argv "LMOVE" 4
  let ends ← moveEnds argv
  moveBetween argv ends

/-- `handle`, arm by arm. -/
def arms : Arms :=
  [("LPUSH", push "LPUSH" .left false), ("RPUSH", push "RPUSH" .right false),
    ("LPUSHX", push "LPUSHX" .left true), ("RPUSHX", push "RPUSHX" .right true),
    ("LPOP", lpop "LPOP" .left), ("RPOP", lpop "RPOP" .right), ("LLEN", llen), ("LRANGE", lrange),
    ("LINDEX", lindex), ("LSET", lset), ("LINSERT", linsert), ("LREM", lrem), ("LTRIM", ltrim),
    ("RPOPLPUSH", rpoplpush), ("LMOVE", lmove)]

end Klyro.Lists
