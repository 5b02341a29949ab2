import Klyro.Lib.Act
import Klyro.Lib.Assoc
import Klyro.Lib.SoftFloat

/-!
# The outside world of the server

What the program asks of its surroundings, in the order it asks: the wall clock, the monotonic
clock, the random generator, the allocator's byte count and the disk.  `Env` holds every answer
in advance, `World` counts how many of each have been used and holds the files, so a statement
about every `Env` is a statement about every sequence of answers.

* `now` — `SystemTime::now()`; the readings need not be monotonic.
* `below`, `unitInterval` — the generator's two consumers, over arbitrary draws.
* `addDuration` — `SystemTime + Duration`, which panics outside the range of the type.
-/

set_option autoImplicit false

namespace Klyro

/-- A key, a value, a field, a member: every payload in the keyspace. -/
abbrev Bytes := List UInt8

instance : LawfulBEq Bytes := inferInstance

/-- `SystemTime`: nanoseconds since the Unix epoch. -/
abbrev SystemTime := Int

/-- `Duration`: nanoseconds. -/
abbrev Duration := Nat

/-- `Instant`: nanoseconds on the monotonic clock. -/
abbrev Instant := Nat

/-- `i64::MAX`. -/
def i64Max : Int := 9223372036854775807

/-- `i64::MIN`. -/
def i64Min : Int := -9223372036854775808

/-- `usize::MAX` and `u64::MAX`. -/
def u64Max : Nat := 18446744073709551615

/-- `isize::MAX`, the largest allocation in bytes. -/
def isizeMax : Nat := 9223372036854775807

/-- The difference of two `u64`, wrapped. -/
def wrapSubU64 (a b : Nat) : Nat := (a + (u64Max + 1) - b % (u64Max + 1)) % (u64Max + 1)

/-- The value of an integer after it is cut to an `i64`. -/
def wrapI64 (i : Int) : Int := (i + 9223372036854775808) % 18446744073709551616 - 9223372036854775808

/-- The answers the surroundings are going to give. -/
structure Env where
  /-- Readings of the wall clock. -/
  clock : Nat → SystemTime
  /-- The system clock cannot be set before the epoch. -/
  epoch : ∀ i, 0 ≤ clock i
  /-- Readings of the monotonic clock. -/
  instant : Nat → Instant
  /-- Outputs of the generator, `rand::next_u64`. -/
  draw : Nat → UInt64
  /-- Readings of the allocator's counters, `memory::used_bytes` and `memory::peak_bytes`. -/
  used : Nat → Nat
  /-- Sums of vector capacities, which only the allocator knows. -/
  heap : Nat → Nat
  /-- Whether a file operation succeeds. -/
  disk : Nat → Bool
  /-- `std::process::id`. -/
  pid : Nat := 1
  /-- `f32::ln`. -/
  ln : F32 → F32
  /-- `f64::powf`. -/
  powf : F64 → F64 → F64

/-- Surroundings in which only the wall clock matters and the disk never fails. -/
def Env.ofClock (clock : Nat → SystemTime) (epoch : ∀ i, 0 ≤ clock i) : Env where
  clock := clock
  epoch := epoch
  instant := fun _ => 0
  draw := fun _ => 0
  used := fun _ => 0
  heap := fun _ => 0
  disk := fun _ => true
  ln := id
  powf := fun x _ => x

/-- Surroundings in which the clock stands still. -/
def stillEnv (t : Nat) : Env := Env.ofClock (fun _ => t) fun _ => Int.natCast_nonneg t

/-- Every reading of the clock is `t`. -/
def Env.StandsAt (e : Env) (t : SystemTime) : Prop := ∀ i, e.clock i = t

/-- How far the answers have been used, and the files. -/
structure World where
  ticks : Nat := 0
  instants : Nat := 0
  draws : Nat := 0
  probes : Nat := 0
  ios : Nat := 0
  files : Assoc String Bytes := ∅
deriving DecidableEq

/-- A computation of the server over the state `σ`. -/
abbrev Run (σ α : Type) := Act Env World σ α

variable {σ α : Type}

/-- `SystemTime::now()`. -/
def now : Run σ SystemTime := fun e s w => .done (e.clock w.ticks) s { w with ticks := w.ticks + 1 }

/-- `Instant::now()`. -/
def instantNow : Run σ Instant := fun e s w =>
  .done (e.instant w.instants) s { w with instants := w.instants + 1 }

/-- `rand::next_u64`. -/
def nextU64 : Run σ UInt64 := fun e s w => .done (e.draw w.draws) s { w with draws := w.draws + 1 }

/-- `memory::used_bytes`. -/
def usedBytes : Run σ Nat := fun e s w => .done (e.used w.probes) s { w with probes := w.probes + 1 }

/-- The bytes a structure holds in the heap. -/
def heapBytes : Run σ Nat := fun e s w => .done (e.heap w.probes) s { w with probes := w.probes + 1 }

/-- Whether the next file operation succeeds. -/
def diskOk : Run σ Bool := fun e s w => .done (e.disk w.ios) s { w with ios := w.ios + 1 }

/-- The environment. -/
def env : Run σ Env := fun e s w => .done e s w

/-- `rand::unit_interval`: the top 53 bits over `2 ^ 53`. -/
def unitInterval : Run σ F64 := do
  let x ← nextU64
  pure (SoftFloat.div (SoftFloat.ofInt (x.toNat / 2048 : Nat)) (SoftFloat.ofInt 9007199254740992))

/-- `rand::below`. -/
def below (n : Nat) : Run σ Nat :=
  if n = 0 then pure 0 else do
    let x ← nextU64
    pure (x.toNat % n)

/-- `later.duration_since(earlier)`, `none` for an error. -/
def durationSince (later earlier : SystemTime) : Option Duration :=
  if earlier ≤ later then some (later - earlier).toNat else none

/-- `Duration::as_millis`. -/
def asMillis (d : Duration) : Nat := d / 1000000

/-- Nanoseconds in a millisecond and in a second. -/
def nanosPerMilli : Nat := 1000000

@[inherit_doc nanosPerMilli]
def nanosPerSec : Nat := 1000000000

/-- The range of `SystemTime`: an `i64` of seconds. -/
def inTimeRange (t : Int) : Bool :=
  decide (i64Min * 1000000000 ≤ t ∧ t < (i64Max + 1) * 1000000000)

/-- `SystemTime + Duration`. -/
def addDuration (t : SystemTime) (d : Duration) : Run σ SystemTime :=
  if inTimeRange (t + d) then pure (t + d) else Act.panic .overflow

/-- `Duration::from_millis` of a non-negative amount. -/
def fromMillis (n : Nat) : Duration := n * nanosPerMilli

section rules

variable {e : Env} {s : σ} {w : World} {R : Panic → Prop}

@[simp] theorem sat_now {Q : SystemTime → σ → World → Prop} :
    Act.Sat now e s w Q R ↔ Q (e.clock w.ticks) s { w with ticks := w.ticks + 1 } := Iff.rfl

@[simp] theorem sat_instantNow {Q : Instant → σ → World → Prop} :
    Act.Sat instantNow e s w Q R ↔ Q (e.instant w.instants) s { w with instants := w.instants + 1 } :=
  Iff.rfl

@[simp] theorem sat_nextU64 {Q : UInt64 → σ → World → Prop} :
    Act.Sat nextU64 e s w Q R ↔ Q (e.draw w.draws) s { w with draws := w.draws + 1 } := Iff.rfl

@[simp] theorem sat_usedBytes {Q : Nat → σ → World → Prop} :
    Act.Sat usedBytes e s w Q R ↔ Q (e.used w.probes) s { w with probes := w.probes + 1 } := Iff.rfl

@[simp] theorem sat_heapBytes {Q : Nat → σ → World → Prop} :
    Act.Sat heapBytes e s w Q R ↔ Q (e.heap w.probes) s { w with probes := w.probes + 1 } := Iff.rfl

@[simp] theorem sat_diskOk {Q : Bool → σ → World → Prop} :
    Act.Sat diskOk e s w Q R ↔ Q (e.disk w.ios) s { w with ios := w.ios + 1 } := Iff.rfl

@[simp] theorem sat_env {Q : Env → σ → World → Prop} : Act.Sat env e s w Q R ↔ Q e s w := Iff.rfl

end rules

end Klyro
