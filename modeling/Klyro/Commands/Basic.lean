import Klyro.App

/-!
# What the handlers share (`commands/mod.rs`)

A handler is a computation over the keyspace that may stop early with a reply: `Checked<T>` and
`?`.  `argv[i]` is read by `arg`; the arity checks in front of it keep `i` in range.
-/

set_option autoImplicit false

namespace Klyro

/-- `Checked<T>`, computed over the keyspace. -/
abbrev Cmd (α : Type) := ExceptT Reply (Run Store) α

/-- One arm of a handler: what it does with the argument vector. -/
abbrev Handler := List Bytes → Cmd Reply

/-- The arms of a handler, by name. -/
abbrev Arms := List (String × Handler)

/-- `argv[i]`. -/
def arg (argv : List Bytes) (i : Nat) : Bytes := argv.getD i []

/-- `wrongtype`. -/
def wrongtype : Reply :=
  .error "WRONGTYPE Operation against a key holding the wrong kind of value"

/-- `not_an_integer`. -/
def notAnInteger : Reply := .error "ERR value is not an integer or out of range"

/-- `not_a_float`. -/
def notAFloat : Reply := .error "ERR value is not a valid float"

/-- `syntax_error`. -/
def syntaxError : Reply := .error "ERR syntax error"

/-- The last arm of every handler. -/
def unknownVerb : Reply := .error "ERR unknown command"

/-- `check_type`. -/
def checkType (key : Bytes) (want : StoreType) : Cmd Unit := do
  let found ← Store.peekType key
  if found.any (· ≠ want) then throw wrongtype else pure ()

/-- `ok_or_else(..)?`. -/
def orThrow {α : Type} (refusal : Reply) : Option α → Cmd α
  | some a => pure a
  | none => throw refusal

/-- `parse_int`. -/
def intArg (bytes : Bytes) : Cmd Int := orThrow notAnInteger (parseI64 bytes)

/-- `parse_float`. -/
def floatArg (bytes : Bytes) : Cmd F64 := orThrow notAFloat (parseF64 bytes)

/-- `exact_args`. -/
def exactArgs (argv : List Bytes) (name : String) (n : Nat) : Cmd Unit :=
  if argv.length = n + 1 then pure () else throw (.wrongArity name)

/-- `min_args`. -/
def minArgs (argv : List Bytes) (name : String) (n : Nat) : Cmd Unit :=
  if n < argv.length then pure () else throw (.wrongArity name)

/-- `.expect(message)`. -/
def expect {α : Type} (message : String) (found : Option α) : Cmd α :=
  (Act.expect message found : Run Store α)

/-- A handler answers with its reply, early or not: `Ok(reply) | Err(reply) => reply`. -/
def answer (m : Cmd Reply) : Run Store Reply := do
  match ← m.run with
  | .ok reply => pure reply
  | .error reply => pure reply

/-- The match of a handler over the command's name. -/
def Arms.run (arms : Arms) (name : String) (argv : List Bytes) : Cmd Reply :=
  match arms.lookup name with
  | some handler => handler argv
  | none => pure unknownVerb

/-- `Option<Bytes>` as a reply. -/
def bulkOrNil : Option Bytes → Reply
  | some v => .bulk v
  | none => .nil

/-- `chunks(2)` of an even number of arguments. -/
def pairsOf : List Bytes → List (Bytes × Bytes)
  | a :: b :: rest => (a, b) :: pairsOf rest
  | _ => []

/-- `i64::saturating_mul`. -/
def saturatingMul (a b : Int) : Int := max i64Min (min i64Max (a * b))

/-- `checked_add` of two `i64`. -/
def checkedAdd (a b : Int) : Option Int :=
  if i64Min ≤ a + b ∧ a + b ≤ i64Max then some (a + b) else none

/-- `deadline_after_millis`. -/
def deadlineAfterMillis (millis : Int) : Run Store SystemTime := do
  let t ← now
  if 0 ≤ millis then addDuration t (fromMillis millis.toNat)
  else
    let deadline := t - (fromMillis millis.natAbs : Nat)
    pure (if inTimeRange deadline then deadline else 0)

/-- `UNIX_EPOCH + Duration::from_millis(..)`. -/
def epochPlusMillis (millis : Nat) : Run Store SystemTime := addDuration 0 (fromMillis millis)

/-- `deadline_at_unix_millis`. -/
def deadlineAtUnixMillis (millis : Int) : Run Store SystemTime :=
  if millis ≤ 0 then pure 0 else epochPlusMillis millis.toNat

end Klyro
