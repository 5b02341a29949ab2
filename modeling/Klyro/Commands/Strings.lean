import Klyro.Commands.Basic

/-!
# String commands (`commands/string.rs`)
-/

set_option autoImplicit false

namespace Klyro.Strings

/-- `SETNX`. -/
def setnx : Handler := fun argv => do
  exactArgs argv "SETNX" 2
  let there ← Store.hasKey (arg argv 1)
  if there then return .bool false
  Store.setString (arg argv 1) (arg argv 2)
  return .bool true

/-- `SETEX`, `PSETEX`. -/
def setex (name : String) (unit : Int) : Handler := fun argv => do
  exactArgs argv name 3
  let amount ← intArg (arg argv 2)
  if amount ≤ 0 then
    return .error ("ERR invalid expire time in '" ++ lowercase name ++ "' command")
  Store.setString (arg argv 1) (arg argv 3)
  let deadline ← deadlineAfterMillis (saturatingMul amount unit)
  let _ ← Store.setExpireAt (arg argv 1) (some deadline)
  return .ok

/-- `GET`. -/
def get : Handler := fun argv => do
  exactArgs argv "GET" 1
  checkType (arg argv 1) .string
  let value ← Store.getString (arg argv 1)
  return bulkOrNil value

/-- `GETSET`. -/
def getset : Handler := fun argv => do
  exactArgs argv "GETSET" 2
  checkType (arg argv 1) .string
  let previous ← Store.getString (arg argv 1)
  Store.setString (arg argv 1) (arg argv 2)
  return bulkOrNil previous

/-- `GETDEL`. -/
def getdel : Handler := fun argv => do
  exactArgs argv "GETDEL" 1
  checkType (arg argv 1) .string
  let value ← Store.getString (arg argv 1)
  if value.isSome then
    let _ ← Store.del (arg argv 1)
  return bulkOrNil value

/-- One key of `MGET`: what is not a string reads as nil. -/
def mgetOne (key : Bytes) : Run Store Reply := do
  match ← Store.peekType key with
  | some .string => do
    let value ← Store.getString key
    pure (bulkOrNil value)
  | _ => pure .nil

/-- `MGET`. -/
def mget : Handler := fun argv => do
  minArgs argv "MGET" 1
  let values ← Act.mapList mgetOne (argv.drop 1)
  return .array values

/-- `any(|pair| app.store.exists(&pair[0]))`. -/
def anyExists : List (Bytes × Bytes) → Run Store Bool
  | [] => pure false
  | (key, _) :: pairs => do
    let there ← Store.hasKey key
    if there then pure true else anyExists pairs

/-- `MSET`, `MSETNX`. -/
def mset (name : String) (onlyIfNone : Bool) : Handler := fun argv => do
  minArgs argv name 2
  if (argv.drop 1).length % 2 ≠ 0 then throw (.wrongArity name)
  let pairs := pairsOf (argv.drop 1)
  let taken ← if onlyIfNone then anyExists pairs else pure false
  if taken then return .bool false
  Act.forList (fun p => Store.setString p.1 p.2) pairs
  return if onlyIfNone then .bool true else .ok

/-- The refusal of an overflowing counter. -/
def wouldOverflow : Reply := .error "ERR increment or decrement would overflow"

/-- `apply_integer_delta`. -/
def applyIntegerDelta (key : Bytes) (delta : Int) : Cmd Reply := do
  checkType key .string
  let current ← Store.getString key
  let value ← match current with
    | none => pure 0
    | some current => orThrow notAnInteger (parseI64 current)
  match checkedAdd value delta with
  | none => return wouldOverflow
  | some updated => do
    Store.updateString key (showIntBytes updated)
    return .integer updated

/-- `INCR`, `DECR`. -/
def incr (name : String) (delta : Int) : Handler := fun argv => do
  exactArgs argv name 1
  applyIntegerDelta (arg argv 1) delta

/-- `INCRBY`. -/
def incrby : Handler := fun argv => do
  exactArgs argv "INCRBY" 2
  let amount ← intArg (arg argv 2)
  applyIntegerDelta (arg argv 1) amount

/-- `DECRBY`; the smallest integer has no negation. -/
def decrby : Handler := fun argv => do
  exactArgs argv "DECRBY" 2
  let amount ← intArg (arg argv 2)
  if amount = i64Min then return wouldOverflow
  applyIntegerDelta (arg argv 1) (-amount)

/-- `INCRBYFLOAT`. -/
def incrbyfloat : Handler := fun argv => do
  exactArgs argv "INCRBYFLOAT" 2
  let amount ← floatArg (arg argv 2)
  checkType (arg argv 1) .string
  let found ← Store.getString (arg argv 1)
  let current ← match found with
    | none => pure (SoftFloat.zero false)
    | some v => orThrow notAFloat (parseF64 v)
  let updated := current.add amount
  if !updated.isFinite then return .error "ERR increment would produce NaN or Infinity"
  Store.updateString (arg argv 1) (formatF64 updated)
  return .bulk (formatF64 updated)

/-- The refusal of a string above `max-string-bytes`. -/
def stringTooLong : Reply := .error "ERR string exceeds maximum allowed size"

/-- `APPEND`. -/
def append (config : Config) : Handler := fun argv => do
  exactArgs argv "APPEND" 2
  checkType (arg argv 1) .string
  let found ← Store.getString (arg argv 1)
  let value := found.getD []
  if config.maxStringBytes < value.length + (arg argv 2).length then return stringTooLong
  let value := value ++ arg argv 2
  Store.updateString (arg argv 1) value
  return .integer value.length

/-- `STRLEN`. -/
def strlen : Handler := fun argv => do
  exactArgs argv "STRLEN" 1
  checkType (arg argv 1) .string
  let value ← Store.getString (arg argv 1)
  return .integer ((value.map List.length).getD 0)

/-- `substring`. -/
def substring (value : Bytes) (start stop : Int) : Bytes :=
  let len : Int := value.length
  let start := if start < 0 then start + len else start
  let stop := if stop < 0 then stop + len else stop
  let start := if start < 0 then 0 else start
  let stop := if len ≤ stop then len - 1 else stop
  if len = 0 ∨ stop < start ∨ len ≤ start then []
  else (value.take (stop.toNat + 1)).drop start.toNat

/-- `GETRANGE`, `SUBSTR`. -/
def getrange (name : String) : Handler := fun argv => do
  exactArgs argv name 3
  let start ← intArg (arg argv 2)
  let stop ← intArg (arg argv 3)
  checkType (arg argv 1) .string
  let value ← Store.getString (arg argv 1)
  return .bulk (substring (value.getD []) start stop)

/-- The bytes with `patch` over them from `offset` on, padded with zeros. -/
def patched (value : Bytes) (offset : Nat) (patch : Bytes) : Bytes :=
  let value := if value.length < offset + patch.length then
      value ++ List.replicate (offset + patch.length - value.length) 0
    else value
  value.take offset ++ patch ++ value.drop (offset + patch.length)

/-- `SETRANGE`. -/
def setrange (config : Config) : Handler := fun argv => do
  exactArgs argv "SETRANGE" 3
  let offset ← intArg (arg argv 2)
  if offset < 0 then return .error "ERR offset is out of range"
  checkType (arg argv 1) .string
  let patch := arg argv 3
  let found ← Store.getString (arg argv 1)
  let value := found.getD []
  if patch.isEmpty then return .integer value.length
  if config.maxStringBytes < offset.toNat + patch.length then return stringTooLong
  let value := patched value offset.toNat patch
  Store.updateString (arg argv 1) value
  return .integer value.length

/-- The expiry an option asks for. -/
inductive Expiry where
  | keep | clear
  | at (deadline : SystemTime)

/-- The options of `SET` read so far. -/
structure SetOptions where
  onlyIfAbsent : Bool := false
  onlyIfPresent : Bool := false
  returnOld : Bool := false
  expiry : Expiry := .clear

/-- `takes_argument`: the expiry the amount behind an option asks for. -/
def takesArgument (rest : List Bytes) (unit : Int) (absolute : Bool) : Cmd Expiry :=
  match rest with
  | [] => throw syntaxError
  | word :: _ => do
    let amount ← intArg word
    if !absolute ∧ amount ≤ 0 then throw (.error "ERR invalid expire time in 'set' command")
    let millis := saturatingMul amount unit
    let deadline ← if absolute then epochPlusMillis (max millis 0).toNat
      else deadlineAfterMillis millis
    return .at deadline

/-- The loop of `set` over its options; `fuel` is the number of words. -/
def setOptions : Nat → List Bytes → SetOptions → Cmd SetOptions
  | 0, _, options => pure options
  | _, [], options => pure options
  | fuel + 1, option :: rest, options =>
    if eqIgnoreCase option "NX" then setOptions fuel rest { options with onlyIfAbsent := true }
    else if eqIgnoreCase option "XX" then setOptions fuel rest { options with onlyIfPresent := true }
    else if eqIgnoreCase option "GET" then setOptions fuel rest { options with returnOld := true }
    else if eqIgnoreCase option "KEEPTTL" then setOptions fuel rest { options with expiry := .keep }
    else if eqIgnoreCase option "EX" then do
      let expiry ← takesArgument rest 1000 false
      setOptions fuel (rest.drop 1) { options with expiry := expiry }
    else if eqIgnoreCase option "PX" then do
      let expiry ← takesArgument rest 1 false
      setOptions fuel (rest.drop 1) { options with expiry := expiry }
    else if eqIgnoreCase option "EXAT" then do
      let expiry ← takesArgument rest 1000 true
      setOptions fuel (rest.drop 1) { options with expiry := expiry }
    else if eqIgnoreCase option "PXAT" then do
      let expiry ← takesArgument rest 1 true
      setOptions fuel (rest.drop 1) { options with expiry := expiry }
    else throw syntaxError

/-- The write of `SET`, with its expiry. -/
def store (key value : Bytes) : Expiry → Run Store Unit
  | .keep => Store.updateString key value
  | .clear => Store.setString key value
  | .at deadline => do
    Store.setString key value
    let _ ← Store.setExpireAt key (some deadline)

/-- `SET`. -/
def set : Handler := fun argv => do
  minArgs argv "SET" 2
  let key := arg argv 1
  let value := arg argv 2
  let options ← setOptions (argv.drop 3).length (argv.drop 3) {}
  if options.onlyIfAbsent && options.onlyIfPresent then throw syntaxError
  let previous ← if options.returnOld then do
      checkType key .string
      (Store.getString key : Run Store (Option Bytes))
    else pure none
  let there ← Store.hasKey key
  if (options.onlyIfAbsent && there) || (options.onlyIfPresent && !there) then
    return if options.returnOld then bulkOrNil previous else .nil
  store key value options.expiry
  return if options.returnOld then bulkOrNil previous else .ok

/-- The option of `GETEX`. -/
def getexExpiry (argv : List Bytes) : Cmd Expiry :=
  let option := arg argv 2
  if argv.length = 2 then pure .keep
  else if argv.length = 3 ∧ eqIgnoreCase option "PERSIST" then pure .clear
  else if argv.length = 4 ∧ (eqIgnoreCase option "EX" ∨ eqIgnoreCase option "PX") then do
    let amount ← intArg (arg argv 3)
    if amount ≤ 0 then throw (.error "ERR invalid expire time in 'getex' command")
    let deadline ← deadlineAfterMillis
      (if eqIgnoreCase option "EX" then saturatingMul amount 1000 else amount)
    return .at deadline
  else throw syntaxError

/-- `GETEX`. -/
def getex : Handler := fun argv => do
  minArgs argv "GETEX" 1
  let key := arg argv 1
  let expiry ← getexExpiry argv
  checkType key .string
  match ← Store.getString key with
  | none => return .nil
  | some value => do
    match expiry with
    | .keep => pure ()
    | .clear => do
      let _ ← Store.setExpireAt key none
    | .at deadline => do
      let _ ← Store.setExpireAt key (some deadline)
    return .bulk value

/-- `handle`, arm by arm. -/
def arms (config : Config) : Arms :=
  [("SET", set), ("SETNX", setnx), ("SETEX", setex "SETEX" 1000), ("PSETEX", setex "PSETEX" 1),
    ("GET", get), ("GETSET", getset), ("GETDEL", getdel), ("GETEX", getex), ("MGET", mget),
    ("MSET", mset "MSET" false), ("MSETNX", mset "MSETNX" true), ("INCR", incr "INCR" 1),
    ("DECR", incr "DECR" (-1)), ("INCRBY", incrby), ("DECRBY", decrby),
    ("INCRBYFLOAT", incrbyfloat), ("APPEND", append config), ("STRLEN", strlen),
    ("GETRANGE", getrange "GETRANGE"), ("SUBSTR", getrange "SUBSTR"), ("SETRANGE", setrange config)]

end Klyro.Strings
