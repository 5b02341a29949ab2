import Klyro.Lib.SwapIndex
import Klyro.Types.Memory.Index
import Klyro.Types.Zset

/-!
# The keyspace (`store.rs`)

A map from keys to typed values with optional deadlines, and two vectors of keys beside it (every
key, and those with a deadline), repaired by `swap_remove`.  Every operation of `Store` is here,
as the code computes it: each lookup reads the clock and may drop the key it looks for.

A `&mut` into the keyspace is modelled by the computation that uses it: `getOrCreate`, `write` and
`existingMemory` take a `Run` over the value and put the value it leaves back in place.
-/

set_option autoImplicit false

namespace Klyro

/-- The types a key can hold. -/
inductive StoreType where
  | string | list | hash | set | zset | memory
deriving DecidableEq

/-- `StoreType::name`. -/
def StoreType.name : StoreType → String
  | .string => "string"
  | .list => "list"
  | .hash => "hash"
  | .set => "set"
  | .zset => "zset"
  | .memory => "memory"

/-- The map behind a hash key. -/
abbrev HashValue := Assoc Bytes Bytes

/-- The set behind a set key. -/
abbrev SetValue := Assoc Bytes Unit

/-- A typed value. -/
inductive Value where
  | str (s : Bytes)
  | list (l : ListValue)
  | hash (h : HashValue)
  | set (s : SetValue)
  | zset (z : Zset)
  | memory (m : Memory)
deriving DecidableEq

namespace Value

/-- `type_of`. -/
def typeOf : Value → StoreType
  | .str _ => .string
  | .list _ => .list
  | .hash _ => .hash
  | .set _ => .set
  | .zset _ => .zset
  | .memory _ => .memory

/-- `is_empty_collection`. -/
def isEmptyCollection : Value → Bool
  | .str _ | .memory _ => false
  | .list l => l.isEmpty
  | .hash h => h.isEmpty
  | .set s => s.isEmpty
  | .zset z => z.size == 0

end Value

/-- What a key looks like to the eviction policies. -/
structure Access where
  accessedAt : Nat
  freq : Nat
  decayedAt : Nat
deriving DecidableEq

namespace Access

/-- `LFU_INIT`. -/
def lfuInit : Nat := 5

/-- `LFU_DECAY_MINUTES`. -/
def lfuDecayMinutes : Nat := 1

/-- `Access::new`. -/
def new (clock minute : Nat) : Access := ⟨clock, lfuInit, minute⟩

/-- `decayed_freq`. -/
def decayedFreq (a : Access) (minute : Nat) : Nat :=
  let halvings := (minute - a.decayedAt) / lfuDecayMinutes
  if halvings = 0 then a.freq else if 8 ≤ halvings then 0 else a.freq / 2 ^ halvings

/-- The odds of an increment at a frequency. -/
def odds (freq : Nat) : F64 :=
  let base : F64 := SoftFloat.sub (SoftFloat.ofInt freq) (SoftFloat.ofInt lfuInit)
  SoftFloat.div (lit "1") (SoftFloat.add (SoftFloat.mul (base.fmax (SoftFloat.zero false)) (lit "10"))
    (lit "1"))

/-- `record_hit`. -/
def recordHit {σ : Type} (a : Access) (clock minute : Nat) : Run σ Access :=
  let freq := a.decayedFreq minute
  if freq = 255 then pure ⟨clock, freq, minute⟩
  else do
    let draw ← unitInterval
    pure ⟨clock, if draw.lt (odds freq) then freq + 1 else freq, minute⟩

end Access

/-- One key's value and bookkeeping. -/
structure Entry where
  value : Value
  expireAt : Option SystemTime
  slot : Nat
  volatileSlot : Option Nat
  access : Access
deriving DecidableEq

/-- The keyspace. -/
structure Store where
  map : Assoc Bytes Entry := ∅
  keys : List Bytes := []
  volatile : List Bytes := []
  clock : Nat := 0
  started : Instant := 0
  dirty : Nat := 0
  expired : Nat := 0
  lookupHits : Nat := 0
  lookupMisses : Nat := 0
deriving DecidableEq

/-- One key as the eviction policies see it. -/
structure Candidate where
  key : Bytes
  lastAccess : Nat
  freq : Nat
  expireAt : Option SystemTime
deriving DecidableEq

/-- `is_live`. -/
def Entry.isLive (entry : Entry) (now : SystemTime) : Bool :=
  match entry.expireAt with
  | some t => decide (now < t)
  | none => true

/-- The entry with its two positions filled in. -/
def Entry.placedAt (entry : Entry) (slot : Nat) (volatileSlot : Option Nat) : Entry :=
  { entry with slot := slot, volatileSlot := volatileSlot }

namespace Store

variable {α τ : Type}

/-- `Store::new`. -/
def new : Run Unit Store := do
  let started ← instantNow
  pure { started := started }

/-- `minute`. -/
def minute : Run Store Nat := do
  let t ← instantNow
  let s ← Act.get
  pure ((t - s.started) / nanosPerSec / 60 % 4294967296)

/-- Change the entry of `key` in place. -/
def adjustEntry (key : Bytes) (f : Entry → Entry) (s : Store) : Store :=
  { s with map := s.map.adjust key f }

/-- Count a change. -/
def bumpDirty (s : Store) : Store := { s with dirty := s.dirty + 1 }

/-- The repair after a `swap_remove`: change the entry of the key that now sits at `slot`. -/
def repair (keys : List Bytes) (slot : Nat) (f : Entry → Entry) (map : Assoc Bytes Entry) :
    Assoc Bytes Entry :=
  match keys[slot]? with
  | some moved => map.adjust moved f
  | none => map

/-- `detach_volatile`. -/
def detachVolatile (slot : Nat) : Run Store Unit := do
  let s ← Act.get
  match swapRemove s.volatile slot with
  | none => Act.panic .swapRemove
  | some volatile =>
    Act.set { s with
      volatile := volatile
      map := repair volatile slot (fun e => { e with volatileSlot := some slot }) s.map }

/-- `sync_volatile`. -/
def syncVolatile (key : Bytes) : Run Store Unit := do
  let s ← Act.get
  match s.map.lookup key with
  | none => pure ()
  | some entry =>
    match entry.expireAt.isSome, entry.volatileSlot with
    | true, none =>
      Act.set { adjustEntry key (fun e => { e with volatileSlot := some s.volatile.length }) s with
        volatile := s.volatile ++ [key] }
    | false, some slot => do
      Act.set (adjustEntry key (fun e => { e with volatileSlot := none }) s)
      detachVolatile slot
    | _, _ => pure ()

/-- `insert_entry`. -/
def insertEntry (key : Bytes) (entry : Entry) : Run Store Unit := do
  let s ← Act.get
  match s.map.lookup key with
  | some previous =>
    Act.set { s with map := s.map.insert key (entry.placedAt previous.slot previous.volatileSlot) }
  | none =>
    Act.set { s with
      map := s.map.insert key (entry.placedAt s.keys.length none)
      keys := s.keys ++ [key] }
  syncVolatile key

/-- `fresh`. -/
def fresh (value : Value) (expireAt : Option SystemTime) : Run Store Entry := do
  let s ← Act.get
  let m ← minute
  pure { value := value, expireAt := expireAt, slot := 0, volatileSlot := none,
         access := Access.new s.clock m }

/-- `remove_entry`. -/
def removeEntry (key : Bytes) : Run Store (Option Entry) := do
  let s ← Act.get
  match s.map.lookup key with
  | none => pure none
  | some entry =>
    match swapRemove s.keys entry.slot with
    | none => Act.panic .swapRemove
    | some keys => do
      Act.set { s with
        map := repair keys entry.slot (fun e => { e with slot := entry.slot }) (s.map.erase key)
        keys := keys }
      match entry.volatileSlot with
      | some slot => detachVolatile slot
      | none => pure ()
      pure (some entry)

/-- `touch`. -/
def touch (key : Bytes) : Run Store Unit := do
  Act.modify fun s => { s with clock := s.clock + 1 }
  let m ← minute
  let s ← Act.get
  match s.map.lookup key with
  | none => pure ()
  | some entry => do
    let access ← entry.access.recordHit s.clock m
    Act.modify (adjustEntry key fun e => { e with access := access })

/-- `expire_if_due`. -/
def expireIfDue (key : Bytes) : Run Store Unit := do
  let t ← now
  let s ← Act.get
  if (s.map.lookup key).any fun e => !e.isLive t then do
    let _ ← removeEntry key
    Act.modify fun s => { s with dirty := s.dirty + 1, expired := s.expired + 1 }
  else pure ()

/-- `account`. -/
def account (found : Bool) (s : Store) : Store :=
  if found then { s with lookupHits := s.lookupHits + 1 }
  else { s with lookupMisses := s.lookupMisses + 1 }

/-- `find` and `find_mut`. -/
def find (key : Bytes) : Run Store (Option Entry) := do
  expireIfDue key
  let s ← Act.get
  let found := s.map.contains key
  Act.modify (account found)
  if found then touch key else pure ()
  let s ← Act.get
  pure (s.map.lookup key)

/-- `lookup_counts`. -/
def lookupCounts (s : Store) : Nat × Nat := (s.lookupHits, s.lookupMisses)

/-- `volatile_size`. -/
def volatileSize : Run Store Nat := do
  let t ← now
  let s ← Act.get
  pure (s.volatile.countP fun k => (s.map.lookup k).any fun e => e.isLive t)

/-- The entries live at `t`, in iteration order. -/
def liveEntries (s : Store) (t : SystemTime) : List (Bytes × Entry) :=
  s.map.pairs.filter fun p => p.2.isLive t

/-- `type_breakdown`. -/
def typeBreakdown : Run Store (List (StoreType × Nat)) := do
  let t ← now
  let s ← Act.get
  pure ([.string, .list, .hash, .set, .zset, .memory].map fun ty =>
    (ty, (s.liveEntries t).countP fun p => p.2.value.typeOf == ty))

/-- `exists`. -/
def hasKey (key : Bytes) : Run Store Bool := do
  let e ← find key
  pure e.isSome

/-- `type_of`. -/
def typeOf (key : Bytes) : Run Store (Option StoreType) := do
  let e ← find key
  pure (e.map fun e => e.value.typeOf)

/-- `peek_type`. -/
def peekType (key : Bytes) : Run Store (Option StoreType) := do
  expireIfDue key
  let s ← Act.get
  pure ((s.map.lookup key).map fun e => e.value.typeOf)

/-- `del`. -/
def del (key : Bytes) : Run Store Bool := do
  match ← find key with
  | none => pure false
  | some _ => do
    let _ ← removeEntry key
    Act.modify bumpDirty
    pure true

/-- `delete_if_empty`. -/
def deleteIfEmpty (key : Bytes) : Run Store Unit := do
  let e ← find key
  if e.any fun e => e.value.isEmptyCollection then do
    let _ ← removeEntry key
    Act.modify bumpDirty
  else pure ()

/-- `set_expire_at`. -/
def setExpireAt (key : Bytes) (deadline : Option SystemTime) : Run Store Bool := do
  match ← find key with
  | some _ => do
    Act.modify (adjustEntry key fun e => { e with expireAt := deadline })
    syncVolatile key
    Act.modify bumpDirty
    pure true
  | none => pure false

/-- `has_expiry`. -/
def hasExpiry (key : Bytes) : Run Store Bool := do
  let e ← find key
  pure (e.any fun e => e.expireAt.isSome)

/-- Milliseconds from `now` to a deadline, zero when it has passed. -/
def millisLeft (deadline now : SystemTime) : Int :=
  match durationSince deadline now with
  | some d => wrapI64 (asMillis d)
  | none => 0

/-- `pttl_ms`. -/
def pttlMs (key : Bytes) : Run Store Int := do
  match ← find key with
  | none => pure (-2)
  | some e =>
    match e.expireAt with
    | none => pure (-1)
    | some t => do
      let n ← now
      pure (millisLeft t n)

/-- `ttl`. -/
def ttl (key : Bytes) : Run Store Int := do
  let n ← pttlMs key
  pure (if n < 0 then n else n / 1000)

/-- `rename`. -/
def rename (key newKey : Bytes) : Run Store Bool := do
  match ← find key with
  | none => pure false
  | some _ =>
    if key = newKey then pure true
    else do
      let removed ← removeEntry key
      let entry ← Act.expect "find() proved it is live" removed
      insertEntry newKey entry
      Act.modify bumpDirty
      pure true

/-- The clone of a value; a memory index is rebuilt, which reads the clock. -/
def cloneValue : Value → Run Store Value
  | .memory m => do
    let copy ← Act.zoom (fun _ => m) (fun _ s => s) Memory.clone
    pure (.memory copy)
  | v => pure v

/-- The last part of `copy`: the entry of `key` is cloned and put at `dest`. -/
def copyEntry (key dest : Bytes) : Run Store (Option Bool) := do
  let s ← Act.get
  let entry ← Act.expect "find() proved it is live" (s.map.lookup key)
  let value ← cloneValue entry.value
  insertEntry dest { entry with value := value }
  Act.modify bumpDirty
  pure (some true)

/-- `copy`. -/
def copy (key dest : Bytes) (replace : Bool) : Run Store (Option Bool) := do
  match ← find key with
  | none => pure none
  | some _ => do
    let taken ← if replace then pure false else hasKey dest
    if taken then pure (some false) else copyEntry key dest

/-- `flush`. -/
def flush : Run Store Nat := Act.state fun s =>
  (s.map.size, { s with map := ∅, keys := [], volatile := [], dirty := s.dirty + 1 })

/-- `RANDOM_KEY_ATTEMPTS`. -/
def randomKeyAttempts : Nat := 20

/-- The draws of `random_key`. -/
def randomKeyLoop (t : SystemTime) : Nat → Run Store (Option Bytes)
  | 0 => pure none
  | n + 1 => do
    let s ← Act.get
    if s.keys.isEmpty then pure none
    else do
      let i ← below s.keys.length
      match s.keys[i]? with
      | none => Act.panic .bounds
      | some key =>
        if (s.map.lookup key).any fun e => e.isLive t then pure (some key) else randomKeyLoop t n

/-- `random_key`. -/
def randomKey : Run Store (Option Bytes) := do
  let t ← now
  randomKeyLoop t randomKeyAttempts

/-- `size`. -/
def size : Run Store Nat := do
  let t ← now
  let s ← Act.get
  pure (s.liveEntries t).length

/-- `sweep_expired`. -/
def sweepExpired : Run Store Unit := do
  let t ← now
  let s ← Act.get
  let expired := (s.map.pairs.filter fun p => !p.2.isLive t).map Prod.fst
  Act.forList (fun key => do
    let _ ← removeEntry key
    Act.modify fun s => { s with dirty := s.dirty + 1, expired := s.expired + 1 }) expired

/-- The draws of `sample`. -/
def sampleLoop (pool : List Bytes) (t : SystemTime) (m : Nat) : Nat → Run Store (List Candidate)
  | 0 => pure []
  | n + 1 => do
    let i ← below pool.length
    match pool[i]? with
    | none => Act.panic .bounds
    | some key => do
      let s ← Act.get
      let rest ← sampleLoop pool t m n
      pure (match s.map.lookup key with
        | some entry =>
          if entry.isLive t then
            ⟨key, entry.access.accessedAt, entry.access.decayedFreq m, entry.expireAt⟩ :: rest
          else rest
        | none => rest)

/-- The bytes of a `Candidate`. -/
def candidateSize : Nat := 56

/-- `sample`. -/
def sample (volatileOnly : Bool) (count : Nat) : Run Store (List Candidate) := do
  let s ← Act.get
  let pool := if volatileOnly then s.volatile else s.keys
  if pool.isEmpty ∨ count = 0 then pure []
  else do
    let t ← now
    let m ← minute
    if isizeMax < count * candidateSize then Act.panic .capacity else sampleLoop pool t m count

/-- `volatile_is_empty`. -/
def volatileIsEmpty (s : Store) : Bool := s.volatile.isEmpty

/-- `evict`. -/
def evict (key : Bytes) : Run Store Bool := do
  match ← removeEntry key with
  | none => pure false
  | some _ => do
    Act.modify bumpDirty
    pure true

/-- `foreach_key`. -/
def foreachKey : Run Store (List Bytes) := do
  let t ← now
  let s ← Act.get
  pure ((s.liveEntries t).map Prod.fst)

/-- `scan`. -/
def scan (startCursor minCount : Nat) : Run Store (List Bytes × Nat) := do
  let t ← now
  let s ← Act.get
  let keys := sortBy cmpBytes ((s.liveEntries t).map Prod.fst)
  if keys.length ≤ startCursor then pure ([], 0)
  else
    let stop := Nat.min ((startCursor + Nat.max minCount 1) % (u64Max + 1)) keys.length
    if stop < startCursor then Act.panic .bounds
    else pure ((keys.take stop).drop startCursor, if keys.length ≤ stop then 0 else stop)

/-- `foreach_entry`. -/
def foreachEntry : Run Store (List (Bytes × StoreType)) := do
  let t ← now
  let s ← Act.get
  pure ((s.liveEntries t).map fun p => (p.1, p.2.value.typeOf))

/-- `set_string`. -/
def setString (key value : Bytes) : Run Store Unit := do
  Act.modify bumpDirty
  let entry ← fresh (.str value) none
  insertEntry key entry

/-- `update_string`. -/
def updateString (key value : Bytes) : Run Store Unit := do
  Act.modify bumpDirty
  match ← find key with
  | some _ => Act.modify (adjustEntry key fun e => { e with value := .str value })
  | none => do
    let entry ← fresh (.str value) none
    insertEntry key entry

/-- `get_string`. -/
def getString (key : Bytes) : Run Store (Option Bytes) := do
  let e ← find key
  pure (match e.map Entry.value with
    | some (.str s) => some s
    | _ => none)

/-- `mark_dirty`. -/
def markDirty : Run Store Unit := Act.modify bumpDirty

/-- `reset_dirty`. -/
def resetDirty : Run Store Unit := Act.modify fun s => { s with dirty := 0 }

/-- `create_memory`. -/
def createMemory (key : Bytes) (memory : Memory) : Run Store Bool := do
  if ← hasKey key then pure false
  else do
    Act.modify bumpDirty
    let entry ← fresh (.memory memory) none
    insertEntry key entry
    pure true

/-- `memory_keys`. -/
def memoryKeys : Run Store (List Bytes) := do
  let t ← now
  let s ← Act.get
  pure ((s.map.pairs.filter fun p => p.2.isLive t && p.2.value.typeOf == .memory).map Prod.fst)

end Store

/-! ## Typed access -/

/-- One variant of `Value`, with the laws of its constructor and its pattern. -/
structure Variant (τ : Type) where
  type : StoreType
  wrap : τ → Value
  unwrap : Value → Option τ
  empty : τ
  unwrap_wrap : ∀ v, unwrap (wrap v) = some v
  wrap_unwrap : ∀ {x v}, unwrap x = some v → wrap v = x
  isSome_unwrap : ∀ x, (unwrap x).isSome = true ↔ x.typeOf = type

namespace Variant

/-- `Value::List`. -/
def list : Variant ListValue where
  type := .list
  wrap := .list
  unwrap := fun | .list l => some l | _ => none
  empty := []
  unwrap_wrap := fun _ => rfl
  wrap_unwrap := fun {x v} h => by cases x <;> cases h; rfl
  isSome_unwrap := fun x => by cases x <;> simp [Value.typeOf]

/-- `Value::Hash`. -/
def hash : Variant HashValue where
  type := .hash
  wrap := .hash
  unwrap := fun | .hash h => some h | _ => none
  empty := ∅
  unwrap_wrap := fun _ => rfl
  wrap_unwrap := fun {x v} h => by cases x <;> cases h; rfl
  isSome_unwrap := fun x => by cases x <;> simp [Value.typeOf]

/-- `Value::Set`. -/
def set : Variant SetValue where
  type := .set
  wrap := .set
  unwrap := fun | .set s => some s | _ => none
  empty := ∅
  unwrap_wrap := fun _ => rfl
  wrap_unwrap := fun {x v} h => by cases x <;> cases h; rfl
  isSome_unwrap := fun x => by cases x <;> simp [Value.typeOf]

/-- `Value::Zset`. -/
def zset : Variant Zset where
  type := .zset
  wrap := .zset
  unwrap := fun | .zset z => some z | _ => none
  empty := {}
  unwrap_wrap := fun _ => rfl
  wrap_unwrap := fun {x v} h => by cases x <;> cases h; rfl
  isSome_unwrap := fun x => by cases x <;> simp [Value.typeOf]

/-- `Value::Memory`; `empty` is never used. -/
def memory : Variant Memory where
  type := .memory
  wrap := .memory
  unwrap := fun | .memory m => some m | _ => none
  empty := Memory.new (MemoryConfig.new .search 0 .cosine)
  unwrap_wrap := fun _ => rfl
  wrap_unwrap := fun {x v} h => by cases x <;> cases h; rfl
  isSome_unwrap := fun x => by cases x <;> simp [Value.typeOf]

end Variant

namespace Store

variable {α τ : Type}

/-- Use the value at `key` in place: `map.get_mut(key).unwrap()` and the match on its variant. -/
def useValue (V : Variant τ) (key : Bytes) (use : Run τ α) : Run Store (Option α) := do
  let s ← Act.get
  let entry ← Act.expect "called Option::unwrap() on a None value" (s.map.lookup key)
  let v ← Act.expect "entered unreachable code" (V.unwrap entry.value)
  let a ← Act.zoom (fun _ => v) (fun v => adjustEntry key fun e => { e with value := V.wrap v }) use
  pure (some a)

/-- `get_or_create_*`. -/
def getOrCreate (V : Variant τ) (key : Bytes) (use : Run τ α) : Run Store (Option α) := do
  Act.modify bumpDirty
  match ← find key with
  | some e => if (V.unwrap e.value).isSome then useValue V key use else pure none
  | none => do
    let entry ← fresh (V.wrap V.empty) none
    insertEntry key entry
    useValue V key use

/-- `read_*`. -/
def read (V : Variant τ) (key : Bytes) : Run Store (Option τ) := do
  let e ← find key
  pure (e.bind fun e => V.unwrap e.value)

/-- `write_*`. -/
def write (V : Variant τ) (key : Bytes) (use : Run τ α) : Run Store (Option α) := do
  let e ← find key
  if e.any fun e => (V.unwrap e.value).isSome then do
    Act.modify bumpDirty
    useValue V key use
  else pure none

/-- `get_or_create_list`. -/
def getOrCreateList (key : Bytes) (use : Run ListValue α) : Run Store (Option α) :=
  getOrCreate .list key use

/-- `read_list`. -/
def readList (key : Bytes) : Run Store (Option ListValue) := read .list key

/-- `write_list`. -/
def writeList (key : Bytes) (use : Run ListValue α) : Run Store (Option α) := write .list key use

/-- `get_or_create_hash`. -/
def getOrCreateHash (key : Bytes) (use : Run HashValue α) : Run Store (Option α) :=
  getOrCreate .hash key use

/-- `read_hash`. -/
def readHash (key : Bytes) : Run Store (Option HashValue) := read .hash key

/-- `write_hash`. -/
def writeHash (key : Bytes) (use : Run HashValue α) : Run Store (Option α) := write .hash key use

/-- `get_or_create_set`. -/
def getOrCreateSet (key : Bytes) (use : Run SetValue α) : Run Store (Option α) :=
  getOrCreate .set key use

/-- `read_set`. -/
def readSet (key : Bytes) : Run Store (Option SetValue) := read .set key

/-- `write_set`. -/
def writeSet (key : Bytes) (use : Run SetValue α) : Run Store (Option α) := write .set key use

/-- `get_or_create_zset`. -/
def getOrCreateZset (key : Bytes) (use : Run Zset α) : Run Store (Option α) :=
  getOrCreate .zset key use

/-- `read_zset`. -/
def readZset (key : Bytes) : Run Store (Option Zset) := read .zset key

/-- `write_zset`. -/
def writeZset (key : Bytes) (use : Run Zset α) : Run Store (Option α) := write .zset key use

/-- `get_existing_memory`. -/
def existingMemory (key : Bytes) (use : Run Memory α) : Run Store (Option α) := do
  let e ← find key
  if e.any fun e => (Variant.memory.unwrap e.value).isSome then useValue .memory key use
  else pure none

end Store

end Klyro
