import Klyro.Types.Memory.Record

/-!
# Fusing ranked lists (`types/memory/fuse.rs`)

Keyword and vector candidates become one ranking, by min-max normalization or by rank.
-/

set_option autoImplicit false

namespace Klyro

/-- How a hybrid query weighs its four signals. -/
structure Weights where
  keyword : F32
  vector : F32
  recency : F32
  importance : F32
deriving DecidableEq

namespace Weights

/-- `Weights::default`. -/
def default : Weights := ⟨lit "0.35", lit "0.50", lit "0.10", lit "0.05"⟩

/-- `is_valid`. -/
def isValid (w : Weights) : Bool :=
  [w.keyword, w.vector, w.recency, w.importance].all fun x =>
    x.isFinite && SoftFloat.le (SoftFloat.zero false) x

end Weights

/-- One ranked result. -/
structure Hit where
  id : Bytes
  score : F32
  keyword : F32
  vector : F32
  recency : F32
deriving DecidableEq

/-- The two strategies. -/
inductive Fusion where
  | linear | rrf
deriving DecidableEq

/-- `Fusion::parse`. -/
def Fusion.parse (word : Bytes) : Option Fusion :=
  if eqIgnoreCase word "LINEAR" then some .linear
  else if eqIgnoreCase word "RRF" then some .rrf
  else none

/-- `Duration::as_secs_f64`. -/
def asSecsF64 (d : Duration) : F64 :=
  SoftFloat.add (SoftFloat.ofInt (d / nanosPerSec : Nat))
    (SoftFloat.div (SoftFloat.ofInt (d % nanosPerSec : Nat)) (SoftFloat.ofInt 1000000000))

/-- `recency_score`. -/
def recencyScore (powf : F64 → F64 → F64) (updatedAt now : SystemTime) (halfLife : Duration) : F32 :=
  let halfLife := (asSecsF64 halfLife).fmax (lit "1")
  let age := (durationSince now updatedAt).map asSecsF64 |>.getD (SoftFloat.zero false)
  SoftFloat.cast (powf (lit "0.5") (age.div halfLife))

/-- `f32::clamp(0.0, 1.0)`. -/
def clampUnit (x : F32) : F32 :=
  if x.lt (SoftFloat.zero false) then SoftFloat.zero false
  else if SoftFloat.lt (lit "1") x then lit "1"
  else x

/-- `normalize`. -/
def normalizeScores (values : List F32) : List F32 :=
  let low := values.foldl SoftFloat.fmin (SoftFloat.inf false)
  let high := values.foldl SoftFloat.fmax (SoftFloat.inf true)
  let spread := high.sub low
  values.map fun v =>
    if SoftFloat.lt (SoftFloat.zero false) spread then (v.sub low).div spread else lit "1"

/-- The walk of `ranks` over the sorted positions. -/
def ranksWalk (scores : List F32) : List Nat → Nat → Option Nat → F32 → List F32 → List F32
  | [], _, _, _, out => out
  | i :: order, position, previous, rank, out =>
    let score := scores.getD i (SoftFloat.zero false)
    let rank := match previous with
      | none => (lit "1" : F32)
      | some j =>
        if !score.feq (scores.getD j (SoftFloat.zero false)) then
          SoftFloat.add (SoftFloat.ofInt position) (lit "1")
        else rank
    ranksWalk scores order (position + 1) (some i) rank (out.set i rank)

/-- `ranks`. -/
def ranks (scores : List F32) : List F32 :=
  let order := sortBy (fun a b => cmpFloat (scores.getD b (SoftFloat.zero false))
    (scores.getD a (SoftFloat.zero false))) (List.range scores.length)
  ranksWalk scores order 0 none (SoftFloat.zero false)
    (List.replicate scores.length (SoftFloat.zero false))

/-- Hand the scaled values out to the rows that have the component. -/
def distribute : List Bool → List F32 → List F32
  | [], _ => []
  | true :: present, s :: scaled => s :: distribute present scaled
  | true :: present, [] => SoftFloat.zero false :: distribute present []
  | false :: present, scaled => SoftFloat.zero false :: distribute present scaled

/-- `component`. -/
def component (raw : List F32) (present : List Bool) (fusion : Fusion) : List F32 :=
  let found := ((raw.zip present).filter fun p => p.2).map Prod.fst
  if found.isEmpty then List.replicate raw.length (SoftFloat.zero false)
  else
    let scaled := match fusion with
      | .linear => normalizeScores found
      | .rrf => (ranks found).map fun r => SoftFloat.div (lit "1") (SoftFloat.add (lit "60") r)
    distribute ((raw.zip present).map Prod.snd) scaled

/-- One candidate of the fusion. -/
structure Row where
  id : Bytes
  rawKeyword : F32
  rawVector : F32
  hadKeyword : Bool
  hadVector : Bool
deriving DecidableEq

/-- Change the row of `id`, appending it when it is new. -/
def onRow (id : Bytes) (f : Row → Row) : List Row → List Row
  | [] => [f ⟨id, SoftFloat.zero false, SoftFloat.zero false, false, false⟩]
  | r :: rows => if r.id = id then f r :: rows else r :: onRow id f rows

/-- The rows of both candidate lists, in the order they arrive. -/
def fuseRows (keyword vector : List (Bytes × F32)) : List Row :=
  let rows := keyword.foldl (fun rows p =>
    onRow p.1 (fun r => { r with rawKeyword := p.2, hadKeyword := true }) rows) []
  vector.foldl (fun rows p =>
    onRow p.1 (fun r => { r with rawVector := p.2, hadVector := true }) rows) rows

/-- `fuse`. -/
def fuse (powf : F64 → F64 → F64) (keyword vector : List (Bytes × F32))
    (lookup : Bytes → Option MemoryRecord) (weights : Weights) (fusion : Fusion)
    (halfLife : Duration) (now : SystemTime) : List Hit :=
  let rows := fuseRows keyword vector
  let keywordComponent := component (rows.map Row.rawKeyword) (rows.map Row.hadKeyword) fusion
  let vectorComponent := component (rows.map Row.rawVector) (rows.map Row.hadVector) fusion
  let hits := (rows.zip (keywordComponent.zip vectorComponent)).filterMap fun p =>
    (lookup p.1.id).map fun record =>
      let recency := recencyScore powf record.updatedAt now halfLife
      let importance := clampUnit record.importance
      { id := p.1.id
        score := ((((weights.keyword.mul p.2.1).add (weights.vector.mul p.2.2)).add
          (weights.recency.mul recency)).add (weights.importance.mul importance))
        keyword := p.1.rawKeyword
        vector := p.1.rawVector
        recency := recency : Hit }
  sortBy (fun a b => (cmpFloat b.score a.score).then (cmpBytes a.id b.id)) hits

end Klyro
