import Klyro.Util.Bytes

/-!
# Replies (`resp.rs`, the reply half)

* `Reply` — what a command hands back, described by meaning rather than by wire form.
* `encode` — its wire form in a protocol version.
-/

set_option autoImplicit false

namespace Klyro

/-- Which protocol version a connection negotiated. -/
inductive Protocol where
  | resp2
  | resp3
deriving DecidableEq

/-- `Protocol::from_version`. -/
def Protocol.fromVersion (version : Int) : Option Protocol :=
  if version = 2 then some .resp2 else if version = 3 then some .resp3 else none

/-- `Protocol::version`. -/
def Protocol.version : Protocol → Int
  | .resp2 => 2
  | .resp3 => 3

/-- A reply. -/
inductive Reply where
  /-- A short, known-good status. -/
  | simple (text : String)
  /-- The first word is conventionally an error code. -/
  | error (message : String)
  | integer (n : Int)
  /-- Arbitrary bytes, with their number in front. -/
  | bulk (payload : Bytes)
  /-- "No such value". -/
  | nil
  /-- A null array, which is not an empty one. -/
  | nilArray
  | array (items : List Reply)
  /-- Fields and values: a flat array in RESP2. -/
  | map (pairs : List (Reply × Reply))
  /-- Unordered unique items: an array in RESP2. -/
  | set (items : List Reply)
  /-- An out-of-band message: an array in RESP2. -/
  | push (items : List Reply)
  /-- A score: a bulk string in RESP2. -/
  | double (value : F64)
  /-- Members with their scores: flat in RESP2, nested pairs in RESP3. -/
  | scoredMembers (pairs : List (Bytes × F64))

namespace Reply

/-- `Reply::ok`. -/
def ok : Reply := .simple "OK"

/-- `Reply::bulk` of a text. -/
def text (s : String) : Reply := .bulk (Text.bytes s)

/-- `Reply::bool`. -/
def bool (value : Bool) : Reply := .integer (if value then 1 else 0)

/-- `Reply::wrong_arity`. -/
def wrongArity (command : String) : Reply :=
  .error ("ERR wrong number of arguments for '" ++ lowercase command ++ "' command")

/-- `Reply::push`: an out-of-band frame, its kind first. -/
def pushed (kind : String) (rest : List Reply) : Reply := .push (text kind :: rest)

/-- `Reply::bulk_array`. -/
def bulkArray (items : List Bytes) : Reply := .array (items.map .bulk)

/-- `matches!(reply, Reply::Error(_))`. -/
def isError : Reply → Bool
  | .error _ => true
  | _ => false

end Reply

/-- The end of a line. -/
def crlf : Bytes := [13, 10]

/-- A line that starts with a marker and a number. -/
def countLine (marker : UInt8) (n : Nat) : Bytes :=
  marker :: (Text.utf8 (Nat.toDigits 10 n) ++ crlf)

/-- The bytes of an error message, its line breaks flattened to spaces. -/
def flatBytes (message : String) : Bytes :=
  (Text.bytes message).map fun byte => if byte = 13 ∨ byte = 10 then 32 else byte

/-- A bulk string on the wire. -/
def encodeBulk (payload : Bytes) : Bytes := countLine 36 payload.length ++ payload ++ crlf

/-- A score on the wire. -/
def encodeDouble (value : F64) : Protocol → Bytes
  | .resp3 => 44 :: (formatF64 value ++ crlf)
  | .resp2 => encodeBulk (formatF64 value)

/-- The members and scores on the wire, without the count in front. -/
def encodeScored (protocol : Protocol) : List (Bytes × F64) → Bytes
  | [] => []
  | (member, score) :: pairs =>
    (match protocol with
      | .resp3 => countLine 42 2
      | .resp2 => []) ++ encodeBulk member ++ encodeDouble score protocol ++
        encodeScored protocol pairs

mutual

/-- `encode`, with `encode_aggregate`: the wire form of a reply. -/
def encode (protocol : Protocol) : Reply → Bytes
  | .simple text => 43 :: (Text.bytes text ++ crlf)
  | .error message => 45 :: (flatBytes message ++ crlf)
  | .integer n => 58 :: (showIntBytes n ++ crlf)
  | .bulk payload => encodeBulk payload
  | .nil => match protocol with
    | .resp3 => 95 :: crlf
    | .resp2 => 36 :: (Text.bytes "-1" ++ crlf)
  | .nilArray => match protocol with
    | .resp3 => 95 :: crlf
    | .resp2 => 42 :: (Text.bytes "-1" ++ crlf)
  | .array items => countLine 42 items.length ++ encodeItems protocol items
  | .set items => countLine (match protocol with | .resp3 => 126 | .resp2 => 42) items.length ++
      encodeItems protocol items
  | .push items => countLine (match protocol with | .resp3 => 62 | .resp2 => 42) items.length ++
      encodeItems protocol items
  | .map pairs =>
    (match protocol with
      | .resp3 => countLine 37 pairs.length
      | .resp2 => countLine 42 (pairs.length * 2)) ++ encodePairs protocol pairs
  | .double value => encodeDouble value protocol
  | .scoredMembers pairs =>
    (match protocol with
      | .resp3 => countLine 42 pairs.length
      | .resp2 => countLine 42 (pairs.length * 2)) ++ encodeScored protocol pairs

/-- The items of an aggregate, one after the other. -/
def encodeItems (protocol : Protocol) : List Reply → Bytes
  | [] => []
  | item :: items => encode protocol item ++ encodeItems protocol items

/-- The keys and values of a map. -/
def encodePairs (protocol : Protocol) : List (Reply × Reply) → Bytes
  | [] => []
  | (key, value) :: pairs =>
    encode protocol key ++ encode protocol value ++ encodePairs protocol pairs

end

example : encode .resp3 (.map [(.text "a", .array [.integer 1, .nil])]) =
    Text.bytes "%1\r\n$1\r\na\r\n*2\r\n:1\r\n_\r\n" := by decide +kernel

example : encode .resp2 (.error "ERR bad\r\nthing") = Text.bytes "-ERR bad  thing\r\n" := by
  decide +kernel

end Klyro
