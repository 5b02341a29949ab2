import Klyro.Types.Memory.Ranked
import Mathlib.Data.Rat.Defs

/-!
# Fusion over any numbers

The fusion, written once for every kind of number: with the arithmetic of `f32` it is the program's,
with rationals it is what the program would compute without rounding.

* `Numbers` — the arithmetic; `Numbers.f32`, `Numbers.exact`.
* `Numbers.fuse` — the fusion, function by function; `fuse_eq` — the program's is its `f32` reading.
-/

set_option autoImplicit false

namespace Klyro

/-- The arithmetic a fusion uses. -/
structure Numbers (α : Type) where
  zero : α
  one : α
  /-- `RRF_K`. -/
  rrfK : α
  ofNat : Nat → α
  add : α → α → α
  sub : α → α → α
  mul : α → α → α
  div : α → α → α
  /-- `<`. -/
  less : α → α → Bool
  /-- `==`. -/
  same : α → α → Bool
  /-- `partial_cmp`, or `Equal`. -/
  cmp : α → α → Ordering
  lowest : List α → α
  highest : List α → α

/-- Four signals, or their weights. -/
structure Signals (α : Type) where
  keyword : α
  vector : α
  recency : α
  importance : α

/-- One candidate of a fusion. -/
structure FuseRow (α : Type) where
  id : Bytes
  rawKeyword : α
  rawVector : α
  hadKeyword : Bool
  hadVector : Bool

/-- One result of a fusion. -/
structure Fused (α : Type) where
  id : Bytes
  score : α
  keyword : α
  vector : α
  recency : α

namespace Numbers

/-- The program's numbers. -/
def f32 : Numbers F32 where
  zero := SoftFloat.zero false
  one := lit "1"
  rrfK := lit "60"
  ofNat n := SoftFloat.ofInt n
  add := SoftFloat.add
  sub := SoftFloat.sub
  mul := SoftFloat.mul
  div := SoftFloat.div
  less := SoftFloat.lt
  same := SoftFloat.feq
  cmp := cmpFloat
  lowest values := values.foldl SoftFloat.fmin (SoftFloat.inf false)
  highest values := values.foldl SoftFloat.fmax (SoftFloat.inf true)

/-- Numbers without rounding. -/
def exact : Numbers Rat where
  zero := 0
  one := 1
  rrfK := 60
  ofNat n := n
  add := (· + ·)
  sub := (· - ·)
  mul := (· * ·)
  div := (· / ·)
  less x y := decide (x < y)
  same x y := decide (x = y)
  cmp := compare
  lowest values := values.foldl min (values.headD 0)
  highest values := values.foldl max (values.headD 0)

variable {α : Type} (N : Numbers α)

/-- `normalize`. -/
def normalize (values : List α) : List α :=
  let low := N.lowest values
  let spread := N.sub (N.highest values) low
  values.map fun v => if N.less N.zero spread then N.div (N.sub v low) spread else N.one

/-- The walk of `ranks` over the sorted positions. -/
def ranksWalk (scores : List α) : List Nat → Nat → Option Nat → α → List α → List α
  | [], _, _, _, out => out
  | i :: order, position, previous, rank, out =>
    let score := scores.getD i N.zero
    let rank := match previous with
      | none => N.one
      | some j =>
        if !N.same score (scores.getD j N.zero) then N.add (N.ofNat position) N.one else rank
    ranksWalk scores order (position + 1) (some i) rank (out.set i rank)

/-- `ranks`. -/
def ranks (scores : List α) : List α :=
  let order := sortBy (fun a b => N.cmp (scores.getD b N.zero) (scores.getD a N.zero))
    (List.range scores.length)
  N.ranksWalk scores order 0 none N.zero (List.replicate scores.length N.zero)

/-- Hand the scaled values out to the rows that have the component. -/
def distribute : List Bool → List α → List α
  | [], _ => []
  | true :: present, s :: scaled => s :: distribute present scaled
  | true :: present, [] => N.zero :: distribute present []
  | false :: present, scaled => N.zero :: distribute present scaled

/-- `component`. -/
def component (raw : List α) (present : List Bool) (fusion : Fusion) : List α :=
  let found := ((raw.zip present).filter fun p => p.2).map Prod.fst
  if found.isEmpty then List.replicate raw.length N.zero
  else
    let scaled := match fusion with
      | .linear => N.normalize found
      | .rrf => (N.ranks found).map fun r => N.div N.one (N.add N.rrfK r)
    N.distribute ((raw.zip present).map Prod.snd) scaled

/-- Change the row of `id`, appending it when it is new. -/
def onRow (id : Bytes) (f : FuseRow α → FuseRow α) : List (FuseRow α) → List (FuseRow α)
  | [] => [f ⟨id, N.zero, N.zero, false, false⟩]
  | r :: rows => if r.id = id then f r :: rows else r :: onRow id f rows

/-- The rows of both candidate lists, in the order they arrive. -/
def rows (keyword vector : List (Bytes × α)) : List (FuseRow α) :=
  let rows := keyword.foldl (fun rows p =>
    N.onRow p.1 (fun r => { r with rawKeyword := p.2, hadKeyword := true }) rows) []
  vector.foldl (fun rows p =>
    N.onRow p.1 (fun r => { r with rawVector := p.2, hadVector := true }) rows) rows

/-- The weighted sum of the signals. -/
def weigh (weights signals : Signals α) : α :=
  N.add (N.add (N.add (N.mul weights.keyword signals.keyword) (N.mul weights.vector signals.vector))
    (N.mul weights.recency signals.recency)) (N.mul weights.importance signals.importance)

/-- `fuse`, up to the sort; `lookup` gives the recency and the importance of a record. -/
def hits (keyword vector : List (Bytes × α)) (lookup : Bytes → Option (α × α)) (weights : Signals α)
    (fusion : Fusion) : List (Fused α) :=
  let rows := N.rows keyword vector
  let keywordComponent :=
    N.component (rows.map FuseRow.rawKeyword) (rows.map FuseRow.hadKeyword) fusion
  let vectorComponent :=
    N.component (rows.map FuseRow.rawVector) (rows.map FuseRow.hadVector) fusion
  (rows.zip (keywordComponent.zip vectorComponent)).filterMap fun p =>
    (lookup p.1.id).map fun record =>
      { id := p.1.id
        score := N.weigh weights ⟨p.2.1, p.2.2, record.1, record.2⟩
        keyword := p.1.rawKeyword
        vector := p.1.rawVector
        recency := record.1 }

/-- `fuse`. -/
def fuse (keyword vector : List (Bytes × α)) (lookup : Bytes → Option (α × α)) (weights : Signals α)
    (fusion : Fusion) : List (Fused α) :=
  sortBy (fun a b => (N.cmp b.score a.score).then (cmpBytes a.id b.id))
    (N.hits keyword vector lookup weights fusion)

end Numbers

/-! ## The program's fusion -/

/-- The weights as signals. -/
def Weights.signals (w : Weights) : Signals F32 := ⟨w.keyword, w.vector, w.recency, w.importance⟩

/-- A result as the program has it. -/
def Fused.toHit (h : Fused F32) : Hit := ⟨h.id, h.score, h.keyword, h.vector, h.recency⟩

/-- A row as the program has it. -/
def FuseRow.toRow (c : FuseRow F32) : Row :=
  ⟨c.id, c.rawKeyword, c.rawVector, c.hadKeyword, c.hadVector⟩

/-- The recency and the importance of a record. -/
def recordSignals (powf : F64 → F64 → F64) (halfLife : Duration) (now : SystemTime)
    (lookup : Bytes → Option MemoryRecord) (id : Bytes) : Option (F32 × F32) :=
  (lookup id).map fun record =>
    (recencyScore powf record.updatedAt now halfLife, clampUnit record.importance)

section program

theorem ranksWalk_f32 (scores : List F32) : ∀ (order : List Nat) (position : Nat)
    (previous : Option Nat) (rank : F32) (out : List F32),
    ranksWalk scores order position previous rank out =
      Numbers.f32.ranksWalk scores order position previous rank out
  | [], _, _, _, _ => rfl
  | _ :: order, _, _, _, _ => ranksWalk_f32 scores order _ _ _ _

theorem distribute_f32 : ∀ (present : List Bool) (scaled : List F32),
    distribute present scaled = Numbers.f32.distribute present scaled
  | [], _ => rfl
  | true :: present, s :: scaled => by
    rw [distribute, Numbers.distribute, distribute_f32]
  | true :: present, [] => by
    rw [distribute, Numbers.distribute, distribute_f32]
    rfl
  | false :: present, scaled => by
    rw [distribute, Numbers.distribute, distribute_f32]
    rfl

theorem component_f32 (raw : List F32) (present : List Bool) (fusion : Fusion) :
    component raw present fusion = Numbers.f32.component raw present fusion := by
  have hranks : ∀ scores : List F32, ranks scores = Numbers.f32.ranks scores := fun scores =>
    ranksWalk_f32 scores _ _ _ _ _
  unfold component Numbers.component
  simp only [distribute_f32, hranks]
  rfl

theorem onRow_f32 {id : Bytes} {f : Row → Row} {g : FuseRow F32 → FuseRow F32}
    (hfg : ∀ c, (g c).toRow = f c.toRow) : ∀ rows : List (FuseRow F32),
    onRow id f (rows.map FuseRow.toRow) = (Numbers.f32.onRow id g rows).map FuseRow.toRow
  | [] => by
    rw [List.map_nil, onRow, Numbers.onRow, List.map_singleton, hfg]
    rfl
  | c :: rows => by
    rw [List.map_cons, onRow, Numbers.onRow]
    by_cases hid : c.id = id
    · rw [if_pos hid, if_pos (show c.toRow.id = id from hid), List.map_cons, hfg]
    · rw [if_neg hid, if_neg (show c.toRow.id ≠ id from hid), List.map_cons, onRow_f32 hfg]

theorem foldl_onRow_f32 {f : Bytes × F32 → Row → Row} {g : Bytes × F32 → FuseRow F32 → FuseRow F32}
    (hfg : ∀ p c, (g p c).toRow = f p c.toRow) : ∀ (list : List (Bytes × F32))
    (rows : List (FuseRow F32)),
    list.foldl (fun rows p => onRow p.1 (f p) rows) (rows.map FuseRow.toRow) =
      (list.foldl (fun rows p => Numbers.f32.onRow p.1 (g p) rows) rows).map FuseRow.toRow
  | [], _ => rfl
  | p :: list, rows => by
    rw [List.foldl_cons, List.foldl_cons, onRow_f32 (hfg p), foldl_onRow_f32 hfg]

theorem fuseRows_f32 (keyword vector : List (Bytes × F32)) :
    fuseRows keyword vector = (Numbers.f32.rows keyword vector).map FuseRow.toRow := by
  unfold fuseRows Numbers.rows
  have hkeyword := foldl_onRow_f32
    (f := fun p r => { r with rawKeyword := p.2, hadKeyword := true })
    (g := fun p c => { c with rawKeyword := p.2, hadKeyword := true }) (fun _ _ => rfl) keyword []
  rw [List.map_nil] at hkeyword
  dsimp only
  rw [hkeyword]
  exact foldl_onRow_f32 (f := fun p r => { r with rawVector := p.2, hadVector := true })
    (g := fun p c => { c with rawVector := p.2, hadVector := true }) (fun _ _ => rfl) vector _

/-- A row keeps its id, and a new one comes last. -/
theorem map_onRow {f : Row → Row} (hf : ∀ r, (f r).id = r.id) (id : Bytes) (rows : List Row) :
    (onRow id f rows).map Row.id =
      if id ∈ rows.map Row.id then rows.map Row.id else rows.map Row.id ++ [id] := by
  induction rows with
  | nil =>
    rw [onRow, List.map_singleton, hf, List.map_nil, if_neg List.not_mem_nil]
    rfl
  | cons r rows ih =>
    rw [onRow, List.map_cons]
    by_cases hid : r.id = id
    · rw [if_pos hid, List.map_cons, hf, if_pos (by rw [hid]; exact List.mem_cons_self)]
    · have hmem : id ∈ r.id :: rows.map Row.id ↔ id ∈ rows.map Row.id := by
        rw [List.mem_cons, or_iff_right (Ne.symm hid)]
      rw [if_neg hid, List.map_cons, ih]
      simp only [hmem]
      split
      · rfl
      · rfl

theorem foldl_onRow_ids {f : Bytes × F32 → Row → Row} (hf : ∀ p r, (f p r).id = r.id) :
    ∀ (list : List (Bytes × F32)) (rows : List Row), (rows.map Row.id).Nodup →
      ((list.foldl (fun rows p => onRow p.1 (f p) rows) rows).map Row.id).Nodup ∧
        ∀ id ∈ (list.foldl (fun rows p => onRow p.1 (f p) rows) rows).map Row.id,
          id ∈ list.map Prod.fst ∨ id ∈ rows.map Row.id
  | [], _, hrows => ⟨hrows, fun _ hid => .inr hid⟩
  | p :: list, rows, hrows => by
    have hids := map_onRow (hf p) p.1 rows
    have hnodup : ((onRow p.1 (f p) rows).map Row.id).Nodup := by
      rw [hids]
      split
      · exact hrows
      · rename_i hnew
        exact List.nodup_append.mpr ⟨hrows, List.nodup_singleton _, fun a ha b hb hab => by
          rw [List.mem_singleton] at hb
          exact hnew (hb ▸ hab ▸ ha)⟩
    obtain ⟨hrest, hfrom⟩ := foldl_onRow_ids hf list _ hnodup
    refine ⟨hrest, fun id hid => ?_⟩
    rw [List.map_cons, List.mem_cons]
    rcases hfrom id hid with h | h
    · exact .inl (.inr h)
    · rw [hids] at h
      split at h
      · exact .inr h
      · rcases List.mem_append.mp h with h | h
        · exact .inr h
        · exact .inl (.inl (List.mem_singleton.mp h))

/-- **Every row has an id of one of the lists, and no two have the same.** -/
theorem fuseRows_ids (keyword vector : List (Bytes × F32)) :
    ((fuseRows keyword vector).map Row.id).Nodup ∧ ∀ id ∈ (fuseRows keyword vector).map Row.id,
      id ∈ keyword.map Prod.fst ∨ id ∈ vector.map Prod.fst := by
  obtain ⟨hkeyword, hfromk⟩ := foldl_onRow_ids
    (f := fun p r => { r with rawKeyword := p.2, hadKeyword := true }) (fun _ _ => rfl) keyword []
    List.nodup_nil
  obtain ⟨hboth, hfromv⟩ := foldl_onRow_ids
    (f := fun p r => { r with rawVector := p.2, hadVector := true }) (fun _ _ => rfl) vector _ hkeyword
  refine ⟨hboth, fun id hid => ?_⟩
  rcases hfromv id hid with h | h
  · exact .inr h
  · rcases hfromk id h with h | h
    · exact .inl h
    · cases h

/-- **The program's fusion is the `f32` reading.** -/
theorem fuse_eq (powf : F64 → F64 → F64) (keyword vector : List (Bytes × F32))
    (lookup : Bytes → Option MemoryRecord) (weights : Weights) (fusion : Fusion)
    (halfLife : Duration) (now : SystemTime) :
    fuse powf keyword vector lookup weights fusion halfLife now =
      (Numbers.f32.fuse keyword vector (recordSignals powf halfLife now lookup) weights.signals
        fusion).map Fused.toHit := by
  have hhits : ∀ (rows : List (FuseRow F32)) (components : List (F32 × F32)),
      (((rows.map FuseRow.toRow).zip components).filterMap fun p =>
        (lookup p.1.id).map fun record =>
          let recency := recencyScore powf record.updatedAt now halfLife
          let importance := clampUnit record.importance
          { id := p.1.id
            score := ((((weights.keyword.mul p.2.1).add (weights.vector.mul p.2.2)).add
              (weights.recency.mul recency)).add (weights.importance.mul importance))
            keyword := p.1.rawKeyword
            vector := p.1.rawVector
            recency := recency : Hit }) =
        ((rows.zip components).filterMap fun p =>
          (recordSignals powf halfLife now lookup p.1.id).map fun record =>
            { id := p.1.id
              score := Numbers.f32.weigh weights.signals ⟨p.2.1, p.2.2, record.1, record.2⟩
              keyword := p.1.rawKeyword
              vector := p.1.rawVector
              recency := record.1 : Fused F32 }).map Fused.toHit := by
    intro rows components
    rw [List.zip_map_left, List.filterMap_map, List.map_filterMap]
    refine List.filterMap_congr fun p _ => ?_
    simp only [recordSignals, Option.map_map]
    rfl
  unfold fuse Numbers.fuse Numbers.hits
  dsimp only
  rw [fuseRows_f32, hhits, sortBy_map]
  simp only [component_f32, List.map_map]
  rfl

end program

end Klyro
