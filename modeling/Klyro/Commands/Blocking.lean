import Klyro.Commands.Lists

/-!
# The blocking pops (`commands/blocking.rs`)

Each of these first tries the plain operation.  When that finds nothing the client is parked, and
the same code runs again when one of its keys is written.
-/

set_option autoImplicit false

namespace Klyro

/-- What dispatch produced: the frames for this client, and what becomes of the connection. -/
structure Response where
  replies : List Reply
  close : Bool := false
  /-- Set by HELLO when it switches the protocol version. -/
  protocol : Option Protocol := none
  /-- Set when the client should be parked. -/
  block : Option Blocked := none

namespace Response

/-- `Response::new`. -/
def new (reply : Reply) : Response := { replies := [reply] }

/-- `Response::frames`. -/
def frames (replies : List Reply) : Response := { replies := replies }

/-- `Response::parked`. -/
def parked (block : Blocked) : Response := { replies := [], block := some block }

/-- `Response::single`: the first frame. -/
def single (r : Response) : Reply := r.replies.head?.getD .nil

end Response

namespace Blocking

open Lists (End popOne moveOne)

/-- Which end of a sorted set a pop takes from. -/
inductive Edge where
  | min | max
deriving DecidableEq

/-- `Edge::parse`. -/
def Edge.parse (token : Bytes) : Option Edge :=
  if eqIgnoreCase token "MIN" then some .min
  else if eqIgnoreCase token "MAX" then some .max
  else none

/-- `answer`: the value found, or a parked client; inside EXEC the timeout reply. -/
def answer (client : Client) (argv : List Bytes) (found : Option Reply) (keys : List Bytes)
    (deadline : Option Instant) (onTimeout : Reply) : Response :=
  match found with
  | some reply => .new reply
  | none =>
    if client.inExec then .new onTimeout
    else .parked { id := client.id, keys := keys, deadline := deadline, argv := argv,
                   onTimeout := onTimeout }

/-- `Instant::now() + Duration::from_secs_f64(seconds)` of a positive finite number; both steps
panic when they leave their range. -/
def deadlineIn (seconds : F64) : Run Store Instant := do
  let t ← instantNow
  let nanos := SoftFloat.halfEven (seconds.units * nanosPerSec) (2 ^ Format.unitExp ⟨53, 11⟩)
  if u64Max < nanos / nanosPerSec then Act.panic .overflow
  else if i64Max < ((t + nanos) / nanosPerSec : Nat) then Act.panic .overflow
  else pure (t + nanos)

/-- `parse_timeout`. -/
def parseTimeout (word : Bytes) : Cmd (Option Instant) :=
  match parseF64 word with
  | none => throw (.error "ERR timeout is not a float or out of range")
  | some seconds =>
    if seconds.lt (SoftFloat.zero false) then throw (.error "ERR timeout is negative")
    else if !seconds.isFinite then throw (.error "ERR timeout is out of range")
    else if seconds.feq (SoftFloat.zero false) then pure none
    else do
      let deadline ← deadlineIn seconds
      pure (some deadline)

/-- The keys and options of `LMPOP`, `ZMPOP` and their blocking spellings. -/
structure MultiKey where
  keys : List Bytes
  direction : Bytes
  count : Nat

/-- The count of a multi-key pop. -/
def multiCount (options : List Bytes) : Cmd Nat :=
  match options with
  | [] => pure 1
  | [word, count] =>
    if eqIgnoreCase word "COUNT" then do
      let n ← intArg count
      if 0 < n then pure n.toNat else throw (.error "ERR count should be greater than 0")
    else throw syntaxError
  | _ => throw syntaxError

/-- `parse_multi_key`; `pos` is the position of `numkeys`. -/
def parseMultiKey (argv : List Bytes) (pos : Nat) (name : String) : Cmd MultiKey := do
  let numkeys ← intArg (arg argv pos)
  if numkeys ≤ 0 then throw (.error "ERR numkeys should be greater than 0")
  let directionAt := pos + 1 + numkeys.toNat
  if argv.length ≤ directionAt then throw (.wrongArity name)
  let count ← multiCount (argv.drop (directionAt + 1))
  return { keys := (argv.take directionAt).drop (pos + 1)
           direction := arg argv directionAt
           count := count }

/-- `pop_first_list`. -/
def popFirstList (side : End) : List Bytes → Cmd (Option Reply)
  | [] => pure none
  | key :: keys => do
    checkType key .list
    match ← popOne key side with
    | some value => return some (.array [.bulk key, .bulk value])
    | none => popFirstList side keys

/-- The loop of `mpop_lists` on one key. -/
def popUpTo (key : Bytes) (side : End) : Nat → Run Store (List Bytes)
  | 0 => pure []
  | n + 1 => do
    match ← popOne key side with
    | some value => do
      let rest ← popUpTo key side n
      pure (value :: rest)
    | none => pure []

/-- `mpop_lists`. -/
def mpopLists (side : End) (count : Nat) : List Bytes → Cmd (Option Reply)
  | [] => pure none
  | key :: keys => do
    checkType key .list
    let popped ← popUpTo key side count
    if !popped.isEmpty then return some (.array [.bulk key, .bulkArray popped])
    mpopLists side count keys

/-- `pop_one_scored`. -/
def popOneScored (key : Bytes) (edge : Edge) (count : Nat) : Run Store (List (Bytes × F64)) := do
  let popped ← Store.writeZset key (Act.state fun z => z.pop count (edge == .max))
  let popped := popped.getD []
  if popped.isEmpty then pure () else Store.deleteIfEmpty key
  pure popped

/-- `pop_first_zset`. -/
def popFirstZset (edge : Edge) : List Bytes → Cmd (Option Reply)
  | [] => pure none
  | key :: keys => do
    checkType key .zset
    let popped ← popOneScored key edge 1
    match popped with
    | (member, score) :: _ => return some (.array [.bulk key, .bulk member, .double score])
    | [] => popFirstZset edge keys

/-- `mpop_zsets`. -/
def mpopZsets (edge : Edge) (count : Nat) : List Bytes → Cmd (Option Reply)
  | [] => pure none
  | key :: keys => do
    checkType key .zset
    let popped ← popOneScored key edge count
    if !popped.isEmpty then
      return some (.array [.bulk key,
        .array (popped.map fun p => .array [.bulk p.1, .double p.2])])
    mpopZsets edge count keys

/-- The keys of `BLPOP`: all arguments but the trailing timeout. -/
def keysBeforeTimeout (argv : List Bytes) : List Bytes := (argv.drop 1).dropLast

/-- `BLPOP`, `BRPOP`. -/
def blpop (name : String) (side : End) (client : Client) (argv : List Bytes) : Cmd Response := do
  minArgs argv name 2
  let keys := keysBeforeTimeout argv
  let deadline ← parseTimeout (arg argv (argv.length - 1))
  let found ← popFirstList side keys
  return answer client argv found keys deadline .nilArray

/-- The common part of `BLMOVE` and `BRPOPLPUSH`. -/
def blockingMove (client : Client) (argv : List Bytes) (ends : End × End) (timeout : Bytes) :
    Cmd Response := do
  let deadline ← parseTimeout timeout
  let source := arg argv 1
  let destination := arg argv 2
  checkType source .list
  checkType destination .list
  let found ← moveOne source destination ends.1 ends.2
  return answer client argv (found.map .bulk) [source] deadline .nil

/-- `BLMOVE`. -/
def blmove (client : Client) (argv : List Bytes) : Cmd Response := do
  exactArgs argv "BLMOVE" 5
  let ends ← Lists.moveEnds argv
  blockingMove client argv ends (arg argv 5)

/-- `BRPOPLPUSH`. -/
def brpoplpush (client : Client) (argv : List Bytes) : Cmd Response := do
  exactArgs argv "BRPOPLPUSH" 3
  blockingMove client argv (.right, .left) (arg argv 3)

/-- `LMPOP`. -/
def lmpop (_ : Client) (argv : List Bytes) : Cmd Response := do
  minArgs argv "LMPOP" 3
  let request ← parseMultiKey argv 1 "LMPOP"
  let side ← orThrow syntaxError (End.parse request.direction)
  let found ← mpopLists side request.count request.keys
  return .new (found.getD .nilArray)

/-- `BLMPOP`. -/
def blmpop (client : Client) (argv : List Bytes) : Cmd Response := do
  minArgs argv "BLMPOP" 4
  let deadline ← parseTimeout (arg argv 1)
  let request ← parseMultiKey argv 2 "BLMPOP"
  let side ← orThrow syntaxError (End.parse request.direction)
  let found ← mpopLists side request.count request.keys
  return answer client argv found request.keys deadline .nilArray

/-- `BZPOPMIN`, `BZPOPMAX`. -/
def bzpop (name : String) (edge : Edge) (client : Client) (argv : List Bytes) : Cmd Response := do
  minArgs argv name 2
  let keys := keysBeforeTimeout argv
  let deadline ← parseTimeout (arg argv (argv.length - 1))
  let found ← popFirstZset edge keys
  return answer client argv found keys deadline .nilArray

/-- `ZMPOP`. -/
def zmpop (_ : Client) (argv : List Bytes) : Cmd Response := do
  minArgs argv "ZMPOP" 3
  let request ← parseMultiKey argv 1 "ZMPOP"
  let edge ← orThrow syntaxError (Edge.parse request.direction)
  let found ← mpopZsets edge request.count request.keys
  return .new (found.getD .nilArray)

/-- `BZMPOP`. -/
def bzmpop (client : Client) (argv : List Bytes) : Cmd Response := do
  minArgs argv "BZMPOP" 4
  let deadline ← parseTimeout (arg argv 1)
  let request ← parseMultiKey argv 2 "BZMPOP"
  let edge ← orThrow syntaxError (Edge.parse request.direction)
  let found ← mpopZsets edge request.count request.keys
  return answer client argv found request.keys deadline .nilArray

/-- `handle`, arm by arm. -/
def arms : List (String × (Client → List Bytes → Cmd Response)) :=
  [("BLPOP", blpop "BLPOP" .left), ("BRPOP", blpop "BRPOP" .right), ("BLMOVE", blmove),
    ("BRPOPLPUSH", brpoplpush), ("LMPOP", lmpop), ("BLMPOP", blmpop),
    ("BZPOPMIN", bzpop "BZPOPMIN" .min), ("BZPOPMAX", bzpop "BZPOPMAX" .max), ("ZMPOP", zmpop),
    ("BZMPOP", bzmpop)]

/-- `handle`. -/
def handle (client : Client) (name : String) (argv : List Bytes) : Cmd Response :=
  match arms.lookup name with
  | some handler => handler client argv
  | none => pure (.new unknownVerb)

/-- `dispatch`. -/
def dispatch (client : Client) (name : String) (argv : List Bytes) : Run Store Response := do
  match ← (handle client name argv).run with
  | .ok response => pure response
  | .error error => pure (.new error)

end Blocking

end Klyro
