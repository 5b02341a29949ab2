import Klyro.Util.Bytes

/-!
# Embedding storage and similarity (`types/memory/vector.rs`)

Vectors sit end to end in one array; deleted slots go on a free list and are handed out again.
-/

set_option autoImplicit false

namespace Klyro

/-- How vectors are compared. -/
inductive Metric where
  | cosine | l2 | innerProduct
deriving DecidableEq

namespace Metric

/-- `Metric::parse`. -/
def parse (word : Bytes) : Option Metric :=
  if eqIgnoreCase word "COSINE" then some .cosine
  else if eqIgnoreCase word "L2" then some .l2
  else if eqIgnoreCase word "IP" || eqIgnoreCase word "INNERPRODUCT" then some .innerProduct
  else none

/-- `Metric::name`. -/
def name : Metric → String
  | .cosine => "COSINE"
  | .l2 => "L2"
  | .innerProduct => "IP"

/-- `Metric::normalizes`. -/
def normalizes (m : Metric) : Bool := m == .cosine

end Metric

/-- Why a vector was refused. -/
inductive VectorError where
  | notFloats
  | wrongDimension (expected got : Nat)
  | notFinite
  | zeroVector
deriving DecidableEq

/-- The value with the given bits. -/
def f32FromBits (n : Nat) : F32 :=
  ⟨decide (2147483648 ≤ n % 4294967296), ⟨n % 2147483648, Nat.mod_lt _ (by decide)⟩⟩

/-- The bits of a value. -/
def f32Bits (x : F32) : Nat := (if x.neg then 2147483648 else 0) + x.mag.val

/-- `f32::from_le_bytes`. -/
def f32FromLeBytes (a b c d : UInt8) : F32 :=
  f32FromBits (a.toNat + 256 * b.toNat + 65536 * c.toNat + 16777216 * d.toNat)

/-- `f32::to_le_bytes`. -/
def f32ToLeBytes (x : F32) : Bytes :=
  let n := f32Bits x
  [UInt8.ofNat n, UInt8.ofNat (n / 256), UInt8.ofNat (n / 65536), UInt8.ofNat (n / 16777216)]

/-- `parse_le_f32`: the first fault decides. -/
def parseLeF32 : Bytes → Except VectorError (List F32)
  | [] => .ok []
  | a :: b :: c :: d :: rest =>
    if rest.length % 4 ≠ 0 then .error .notFloats
    else
      let value := f32FromLeBytes a b c d
      if value.isFinite then (parseLeF32 rest).map (value :: ·) else .error .notFinite
  | _ => .error .notFloats

/-- `encode_le_f32`. -/
def encodeLeF32 (values : List F32) : Bytes := values.flatMap f32ToLeBytes

/-- `Iterator::sum` of floats, which starts from `-0.0`. -/
def sumF32 (values : List F32) : F32 := values.foldl SoftFloat.add (SoftFloat.zero true)

/-- `norm`. -/
def norm (values : List F32) : F32 := (sumF32 (values.map fun v => v.mul v)).sqrt

/-- `dot`. -/
def dot (a b : List F32) : F32 := sumF32 (List.zipWith SoftFloat.mul a b)

/-- `l2_distance`. -/
def l2Distance (a b : List F32) : F32 :=
  (sumF32 (List.zipWith (fun x y => (x.sub y).mul (x.sub y)) a b)).sqrt

/-- Divide by the length when there is one. -/
def normalized (values : List F32) : List F32 :=
  let length := norm values
  if SoftFloat.lt (SoftFloat.zero false) length then values.map fun v => v.div length else values

/-- The vectors of one index. -/
structure VectorIndex where
  dim : Nat
  metric : Metric
  data : List F32 := []
  free : List Nat := []
  live : Nat := 0
deriving DecidableEq

namespace VectorIndex

/-- `validate`. -/
def validate (v : VectorIndex) (values : List F32) : Option VectorError :=
  if values.length ≠ v.dim then some (.wrongDimension v.dim values.length)
  else if v.metric.normalizes && (norm values).feq (SoftFloat.zero false) then some .zeroVector
  else none

/-- `prepare`. -/
def prepare (v : VectorIndex) (values : List F32) : List F32 :=
  if v.metric.normalizes then normalized values else values

/-- `write`: a slot outside the array, or a vector of another length, is a panic. -/
def write (slot : Nat) (values : List F32) : Run VectorIndex Unit := do
  let v ← Act.get
  let start := slot * v.dim
  if start + v.dim ≤ v.data.length ∧ values.length = v.dim then
    Act.set { v with data := v.data.take start ++ v.prepare values ++ v.data.drop (start + v.dim) }
  else Act.panic .bounds

/-- The slot `insert` writes to: a freed one, or a new one at the end. -/
def takeSlot : Run VectorIndex Nat := do
  let v ← Act.get
  match v.free.getLast? with
  | some slot => do
    Act.set { v with free := v.free.dropLast }
    pure slot
  | none =>
    if isizeMax < 4 * (v.data.length + v.dim) then Act.panic .capacity
    else do
      let data := v.data ++ List.replicate v.dim (SoftFloat.zero false)
      Act.set { v with data := data }
      if v.dim = 0 then Act.panic .divZero else pure (data.length / v.dim - 1)

/-- `insert`. -/
def insert (values : List F32) : Run VectorIndex Nat := do
  let slot ← takeSlot
  Act.modify fun v => { v with live := v.live + 1 }
  write slot values
  pure slot

/-- `overwrite`. -/
def overwrite (slot : Nat) (values : List F32) : Run VectorIndex Unit := write slot values

/-- `remove`. -/
def remove (v : VectorIndex) (slot : Nat) : VectorIndex :=
  let start := slot * v.dim
  if v.data.length < start + v.dim ∨ slot ∈ v.free then v
  else
    { v with
      data := v.data.take start ++ List.replicate v.dim (SoftFloat.zero false) ++
        v.data.drop (start + v.dim)
      free := v.free ++ [slot]
      live := wrapSubU64 v.live 1 }

/-- `get`. -/
def get (v : VectorIndex) (slot : Nat) : Option (List F32) :=
  let start := slot * v.dim
  if start + v.dim ≤ v.data.length then some ((v.data.drop start).take v.dim) else none

/-- `scan_cost`. -/
def scanCost (v : VectorIndex) : Nat := v.live

/-- `similarity`. -/
def similarity (v : VectorIndex) (slot : Nat) (query : List F32) : Option F32 :=
  (v.get slot).map fun stored =>
    match v.metric with
    | .cosine | .innerProduct => dot stored query
    | .l2 => (l2Distance stored query).negate

end VectorIndex

end Klyro
