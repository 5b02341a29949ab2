import Klyro.Lib.BinarySearch
import Klyro.Util.Bytes

/-!
# Memory records and filters (`types/memory/record.rs`, `types/memory/filter.rs`)

One stored memory with its metadata, sorted by field, and the filters that select records.
-/

set_option autoImplicit false

namespace Klyro

/-- `unix_millis`. -/
def unixMillis (t : SystemTime) : Int :=
  match durationSince t 0 with
  | some since => wrapI64 (asMillis since)
  | none => 0

/-- `from_unix_millis`; an `i64` of milliseconds never leaves the range of `SystemTime`. -/
def fromUnixMillis (millis : Int) : SystemTime := (fromMillis millis.toNat : Nat)

/-- One stored memory. -/
structure MemoryRecord where
  id : Bytes
  text : Bytes
  metadata : List (Bytes × Bytes)
  importance : F32
  createdAt : SystemTime
  updatedAt : SystemTime
  expireAt : Option SystemTime
  slot : Option Nat
deriving DecidableEq

namespace MemoryRecord

/-- `MemoryRecord::new`. -/
def new (id text : Bytes) (now : SystemTime) : MemoryRecord where
  id := id
  text := text
  metadata := []
  importance := lit "0.5"
  createdAt := now
  updatedAt := now
  expireAt := none
  slot := none

/-- `is_live`. -/
def isLive (r : MemoryRecord) (now : SystemTime) : Bool :=
  match r.expireAt with
  | some deadline => decide (now < deadline)
  | none => true

/-- `set_meta`: whether the field is new. -/
def setMeta (r : MemoryRecord) (field value : Bytes) : Bool × MemoryRecord :=
  match binarySearchBy (fun p => cmpBytes p.1 field) r.metadata with
  | .ok i => (false, { r with metadata := r.metadata.modify i fun p => (p.1, value) })
  | .error i => (true, { r with metadata := r.metadata.insertIdx i (field, value) })

/-- `get_meta`. -/
def getMeta (r : MemoryRecord) (field : Bytes) : Option Bytes :=
  match binarySearchBy (fun p => cmpBytes p.1 field) r.metadata with
  | .ok i => (r.metadata[i]?).map Prod.snd
  | .error _ => none

/-- `remove_meta`. -/
def removeMeta (r : MemoryRecord) (field : Bytes) : Bool × MemoryRecord :=
  match binarySearchBy (fun p => cmpBytes p.1 field) r.metadata with
  | .ok i => (true, { r with metadata := r.metadata.eraseIdx i })
  | .error _ => (false, r)

/-- Set every pair, counting the new fields. -/
def setMetaAll : List (Bytes × Bytes) → MemoryRecord → Nat × MemoryRecord
  | [], r => (0, r)
  | (field, value) :: pairs, r =>
    let one := r.setMeta field value
    let rest := setMetaAll pairs one.2
    (if one.1 then rest.1 + 1 else rest.1, rest.2)

/-- Remove every field, counting those that were there. -/
def removeMetaAll : List Bytes → MemoryRecord → Nat × MemoryRecord
  | [], r => (0, r)
  | field :: fields, r =>
    let one := r.removeMeta field
    let rest := removeMetaAll fields one.2
    (if one.1 then rest.1 + 1 else rest.1, rest.2)

end MemoryRecord

/-! ## Filters -/

/-- The comparisons a clause can make. -/
inductive Op where
  | eq | ne | gt | gte | lt | lte | isIn | contains
deriving DecidableEq

namespace Op

/-- The words of the operators, in the order they are tried. -/
def names : List (String × Op) :=
  [("EQ", .eq), ("NE", .ne), ("GT", .gt), ("GTE", .gte), ("LT", .lt), ("LTE", .lte), ("IN", .isIn),
    ("CONTAINS", .contains)]

/-- `Op::parse`. -/
def parse (word : Bytes) : Option Op := (names.find? fun p => eqIgnoreCase word p.1).map Prod.snd

end Op

/-- Which value a clause reads. -/
inductive Field where
  | metadata (name : Bytes)
  | id | text | importance | createdAt | updatedAt
deriving DecidableEq

namespace Field

/-- The reserved names, without their `@`. -/
def names : List (String × Field) :=
  [("id", .id), ("text", .text), ("importance", .importance), ("created_at", .createdAt),
    ("updated_at", .updatedAt)]

/-- `Field::parse`. -/
def parse : Bytes → Option Field
  | 64 :: reserved => (names.find? fun p => eqIgnoreCase reserved p.1).map Prod.snd
  | name => some (.metadata name)

/-- `Field::read`. -/
def read : Field → MemoryRecord → Option Bytes
  | .metadata name, r => r.getMeta name
  | .id, r => some r.id
  | .text, r => some r.text
  | .importance, r => some (Text.utf8 r.importance.display)
  | .createdAt, r => some (showIntBytes (unixMillis r.createdAt))
  | .updatedAt, r => some (showIntBytes (unixMillis r.updatedAt))

end Field

/-- One clause of a filter. -/
structure Clause where
  field : Field
  op : Op
  value : Bytes
deriving DecidableEq

/-- `compare`: as numbers when both are, as bytes otherwise. -/
def compareValues (left right : Bytes) : Ordering :=
  match parseF64 left, parseF64 right with
  | some a, some b => cmpFloat a b
  | _, _ => cmpBytes left right

/-- `contains`. -/
def containsBytes (haystack needle : Bytes) : Bool := haystack.tails.any needle.isPrefixOf

/-- `Clause::matches`. -/
def Clause.accepts (c : Clause) (r : MemoryRecord) : Bool :=
  match c.field.read r with
  | none => c.op == .ne
  | some actual =>
    let ordering := compareValues actual c.value
    match c.op with
    | .eq => ordering == .eq
    | .ne => ordering != .eq
    | .gt => ordering == .gt
    | .gte => ordering != .lt
    | .lt => ordering == .lt
    | .lte => ordering != .gt
    | .isIn => (splitOn 44 c.value).any fun option => compareValues actual option == .eq
    | .contains => containsBytes actual c.value

/-- Every clause of a query. -/
abbrev Filter := List Clause

/-- `Filter::matches`. -/
def Filter.accepts (f : Filter) (r : MemoryRecord) (now : SystemTime) : Bool :=
  r.isLive now && f.all fun c => c.accepts r

end Klyro
