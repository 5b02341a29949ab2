import Klyro.Persist.Load

/-!
# Reading pieces that were cut short

A list of pieces of which only the first `n` bytes are left.  Every piece before the cut is read
as it was written; the piece the cut falls into is read as it was written when only its newline
is missing, and otherwise it depends on what it is.

* `cut`, `wholeCount`, `tornPiece` — the bytes that are left, how many pieces can still be read,
  and the piece after them with the bytes left of it.
* `Refused` — the cut is inside a blob; the reader answers with an input error.
* `sat_blobCut`, `sat_lineCut` — one piece.
* `sat_blobsCut`, `sat_pairsCut`, `sat_scoredCut` — the elements of a collection.
-/

set_option autoImplicit false

namespace Klyro

open DumpReader

/-- The first `n` bytes of some pieces. -/
def cut (ps : List Piece) (n : Nat) : Bytes := (ps.flatMap Piece.bytes).take n

/-- Whether the first `n` bytes of a piece, at the end of the input, are read like all of it. -/
def Piece.readable (n : Nat) : Piece → Bool
  | .line text => decide (text.length ≤ n) && decide (0 < n)
  | .blob b => (b.isEmpty && decide (0 < n)) || decide ((Piece.blob b).bytes.length ≤ n + 1)

/-- How many pieces can be read when `n` bytes are left. -/
def wholeCount : List Piece → Nat → Nat
  | [], _ => 0
  | p :: ps, n => if p.readable n then wholeCount ps (n - p.bytes.length) + 1 else 0

/-- The piece the cut falls into, or before, with the bytes that are left of it. -/
def tornPiece : List Piece → Nat → Option (Piece × Nat)
  | [], _ => none
  | p :: ps, n => if p.readable n then tornPiece ps (n - p.bytes.length) else some (p, n)

/-- The cut is inside a blob. -/
def Refused (ps : List Piece) (n : Nat) : Prop :=
  match tornPiece ps n with
  | some (.blob _, m) => 0 < m
  | _ => False

instance (ps : List Piece) (n : Nat) : Decidable (Refused ps n) := by
  unfold Refused
  split <;> infer_instance

section counting

variable {p : Piece} {ps : List Piece} {n : Nat}

theorem wholeCount_cons (h : p.readable n = true) :
    wholeCount (p :: ps) n = wholeCount ps (n - p.bytes.length) + 1 := by
  simp [wholeCount, h]

theorem wholeCount_torn (h : p.readable n = false) : wholeCount (p :: ps) n = 0 := by
  simp [wholeCount, h]

theorem tornPiece_cons (h : p.readable n = true) :
    tornPiece (p :: ps) n = tornPiece ps (n - p.bytes.length) := by
  simp [tornPiece, h]

theorem tornPiece_torn (h : p.readable n = false) : tornPiece (p :: ps) n = some (p, n) := by
  simp [tornPiece, h]

theorem refused_cons (h : p.readable n = true) :
    Refused (p :: ps) n ↔ Refused ps (n - p.bytes.length) := by
  unfold Refused
  rw [tornPiece_cons h]

theorem refused_blob {b : Bytes} (h : (Piece.blob b).readable n = false) :
    Refused (.blob b :: ps) n ↔ 0 < n := by
  unfold Refused
  rw [tornPiece_torn h]

theorem refused_line {text : Bytes} (h : (Piece.line text).readable n = false) :
    ¬ Refused (.line text :: ps) n := by
  unfold Refused
  rw [tornPiece_torn h]
  exact id

theorem not_refused_nil : ¬ Refused [] n := id

theorem bytes_pos (p : Piece) : 0 < p.bytes.length := by
  cases p with
  | line text => simp [Piece.bytes]
  | blob b => simp [Piece.bytes]

theorem readable_zero (p : Piece) : p.readable 0 = false := by
  cases p with
  | line text => simp [Piece.readable]
  | blob b =>
    have hdig : 0 < (Text.utf8 (Nat.toDigits 10 b.length)).length := by
      rw [Text.utf8_ascii (Text.ascii_toDigits _), List.length_map]
      exact Nat.length_toDigits_pos
    simp [Piece.readable, Piece.bytes]
    omega

theorem wholeCount_zero (ps : List Piece) : wholeCount ps 0 = 0 := by
  cases ps with
  | nil => rfl
  | cons p ps => exact wholeCount_torn (readable_zero p)

theorem not_refused_zero (ps : List Piece) : ¬ Refused ps 0 := by
  cases ps with
  | nil => exact not_refused_nil
  | cons p ps =>
    cases p with
    | line text => exact refused_line (readable_zero _)
    | blob b =>
      rw [refused_blob (readable_zero _)]
      exact Nat.lt_irrefl 0

theorem wholeCount_le : ∀ (ps : List Piece) (n : Nat), wholeCount ps n ≤ ps.length
  | [], _ => Nat.le_refl 0
  | p :: ps, n => by
    unfold wholeCount
    have := wholeCount_le ps (n - p.bytes.length)
    rw [List.length_cons]
    split <;> omega

/-- Pieces that can all be read are not refused. -/
theorem not_refused_whole : ∀ {ps : List Piece} {n : Nat}, wholeCount ps n = ps.length →
    ¬ Refused ps n
  | [], _, _ => not_refused_nil
  | p :: ps, n, h => by
    cases hr : p.readable n with
    | false =>
      rw [wholeCount_torn hr] at h
      exact absurd h (Nat.succ_ne_zero _).symm
    | true =>
      rw [wholeCount_cons hr, List.length_cons] at h
      rw [refused_cons hr]
      exact not_refused_whole (Nat.succ.inj h)

theorem wholeCount_lt : ∀ {ps : List Piece} {n : Nat}, tornPiece ps n ≠ none →
    wholeCount ps n < ps.length
  | [], _, h => absurd rfl h
  | p :: ps, n, h => by
    cases hr : p.readable n with
    | false =>
      rw [wholeCount_torn hr]
      exact Nat.zero_lt_succ _
    | true =>
      rw [tornPiece_cons hr] at h
      rw [wholeCount_cons hr, List.length_cons]
      exact Nat.succ_lt_succ (wholeCount_lt h)

@[simp] theorem cut_zero (ps : List Piece) : cut ps 0 = [] := by
  simp [cut]

@[simp] theorem cut_nil (n : Nat) : cut [] n = [] := by
  simp [cut]

theorem cut_cons_le (h : p.bytes.length ≤ n) :
    cut (p :: ps) n = p.bytes ++ cut ps (n - p.bytes.length) := by
  unfold cut
  rw [List.flatMap_cons, List.take_append, List.take_of_length_le h]

theorem cut_cons_lt (h : n < p.bytes.length) : cut (p :: ps) n = p.bytes.take n := by
  unfold cut
  rw [List.flatMap_cons, List.take_append_of_le_length (by omega)]

theorem readable_of_le (h : p.bytes.length ≤ n) : p.readable n = true := by
  have hpos := bytes_pos p
  cases p with
  | line text =>
    simp only [Piece.bytes, List.length_append, List.length_singleton] at h
    simp only [Piece.readable, Bool.and_eq_true, decide_eq_true_eq]
    omega
  | blob b =>
    simp only [Piece.readable, Bool.or_eq_true, decide_eq_true_eq]
    exact .inr (by omega)

/-- A cut after some pieces is a cut of the pieces after them. -/
theorem refused_append_le : ∀ {qs : List Piece} {n : Nat}, (qs.flatMap Piece.bytes).length ≤ n →
    (Refused (qs ++ ps) n ↔ Refused ps (n - (qs.flatMap Piece.bytes).length))
  | [], _, _ => Iff.rfl
  | q :: qs, n, h => by
    rw [List.flatMap_cons, List.length_append] at h ⊢
    rw [List.cons_append, refused_cons (readable_of_le (by omega)), refused_append_le (by omega),
      Nat.sub_sub]

/-- A cut before the end of some pieces does not see the pieces after them. -/
theorem refused_append_lt : ∀ {qs : List Piece} {n : Nat}, n < (qs.flatMap Piece.bytes).length →
    (Refused (qs ++ ps) n ↔ Refused qs n)
  | [], _, h => absurd h (Nat.not_lt_zero _)
  | q :: qs, n, h => by
    rw [List.flatMap_cons, List.length_append] at h
    rw [List.cons_append]
    cases hr : q.readable n with
    | true =>
      rw [refused_cons hr, refused_cons hr]
      by_cases hle : q.bytes.length ≤ n
      · exact refused_append_lt (by omega)
      · rw [Nat.sub_eq_zero_of_le (Nat.le_of_not_le hle)]
        exact iff_of_false (not_refused_zero _) (not_refused_zero _)
    | false =>
      cases q with
      | line text => exact iff_of_false (refused_line hr) (refused_line hr)
      | blob b => rw [refused_blob hr, refused_blob hr]

theorem cut_append_le {qs : List Piece} (h : (qs.flatMap Piece.bytes).length ≤ n) :
    cut (qs ++ ps) n = qs.flatMap Piece.bytes ++ cut ps (n - (qs.flatMap Piece.bytes).length) := by
  unfold cut
  rw [List.flatMap_append, List.take_append, List.take_of_length_le h]

theorem cut_append_lt {qs : List Piece} (h : n < (qs.flatMap Piece.bytes).length) :
    cut (qs ++ ps) n = cut qs n := by
  unfold cut
  rw [List.flatMap_append, List.take_append_of_le_length (by omega)]

end counting

/-! ## One piece -/

variable {e : Env} {w : World} {R : Panic → Prop} {E : IoError → Bytes → World → Prop}
variable {ps : List Piece} {n : Nat}

/-- A blob of which `n` bytes, and what follows it, are left. -/
theorem sat_blobCut {b : Bytes} {Q : Option Bytes → Bytes → World → Prop} (hfit : BlobFits b)
    (hnone : n = 0 → Q none [] w)
    (hsome : (Piece.blob b).readable n = true →
      Q (some b) (cut ps (n - (Piece.blob b).bytes.length)) w)
    (herr : (Piece.blob b).readable n = false → 0 < n → ∀ s, E .unexpectedEof s w) :
    Act.SatE blob e (cut (.blob b :: ps) n) w Q E R := by
  by_cases h0 : n = 0
  · subst h0
    rw [cut_zero]
    exact sat_blobEnd (hnone rfl)
  have hpos : 0 < n := Nat.pos_of_ne_zero h0
  by_cases hle : (Piece.blob b).bytes.length ≤ n
  · rw [cut_cons_le hle]
    refine sat_blob hfit (hsome ?_)
    simp only [Piece.readable, Bool.or_eq_true, decide_eq_true_eq]
    exact .inr (by omega)
  · have hlt : n < (Piece.blob b).bytes.length := Nat.lt_of_not_le hle
    have hlen : ((Piece.blob b).bytes.take n).length = n := by
      rw [List.length_take]
      omega
    rw [cut_cons_lt hlt]
    refine sat_blobTorn hfit (List.take_prefix n _) ?_ (by omega) ?_ ?_
    · intro hnil
      rw [hnil] at hlen
      simp at hlen
      omega
    · intro hb
      have hread : (Piece.blob b).readable n = true := by
        rw [hlen] at hb
        simp only [Piece.readable, Bool.or_eq_true, Bool.and_eq_true, List.isEmpty_iff,
          decide_eq_true_eq]
        rcases hb with rfl | hb
        · exact .inl ⟨rfl, hpos⟩
        · exact .inr (by omega)
      have hcut : cut ps (n - (Piece.blob b).bytes.length) = [] := by
        rw [Nat.sub_eq_zero_of_le (by omega), cut_zero]
      have := hsome hread
      rwa [hcut] at this
    · intro hb hl s
      refine herr ?_ hpos s
      rw [hlen] at hl
      simp only [Piece.readable, Bool.or_eq_false_iff, Bool.and_eq_false_iff, decide_eq_false_iff_not]
      refine ⟨.inl ?_, by omega⟩
      rw [Bool.eq_false_iff]
      simpa using hb

/-- A line of which `n` bytes, and what follows it, are left. -/
theorem sat_lineCut {text : List Char} {Q : Option (List Char) → Bytes → World → Prop}
    (h : LineText text) (hnone : n = 0 → Q none [] w)
    (hsome : (Piece.line (Text.utf8 text)).readable n = true →
      Q (some text) (cut ps (n - (Piece.line (Text.utf8 text)).bytes.length)) w)
    (hpart : (Piece.line (Text.utf8 text)).readable n = false → 0 < n →
      Q (some (text.take n)) [] w) :
    Act.SatE line e (cut (.line (Text.utf8 text) :: ps) n) w Q E R := by
  have hbytes : (Piece.line (Text.utf8 text)).bytes = Text.utf8 text ++ [10] := rfl
  have hlength : (Text.utf8 text).length = text.length := by
    rw [Text.utf8_ascii h.ascii, List.length_map]
  by_cases h0 : n = 0
  · subst h0
    rw [cut_zero]
    exact sat_lineEnd (hnone rfl)
  have hpos : 0 < n := Nat.pos_of_ne_zero h0
  by_cases hle : (Piece.line (Text.utf8 text)).bytes.length ≤ n
  · rw [cut_cons_le hle, hbytes, List.append_assoc]
    refine sat_line h (hsome ?_)
    rw [hbytes, List.length_append, List.length_singleton] at hle
    simp [Piece.readable]
    omega
  · have hlt : n < (Piece.line (Text.utf8 text)).bytes.length := Nat.lt_of_not_le hle
    rw [cut_cons_lt hlt, hbytes]
    rw [hbytes, List.length_append, List.length_singleton, hlength] at hlt
    rw [List.take_append_of_le_length (by omega)]
    have htake : (Text.utf8 text).take n = Text.utf8 (text.take n) := by
      rw [Text.utf8_ascii h.ascii, Text.utf8_ascii (h.mono (List.take_prefix n text)).ascii,
        List.map_take]
    rw [htake]
    by_cases hne : text.take n = []
    · -- an empty line can only be cut before its newline when nothing is left of it
      rw [hne]
      have : text.length = 0 := by
        have := congrArg List.length hne
        rw [List.length_take, List.length_nil] at this
        omega
      omega
    · refine sat_lineLast (h.mono (List.take_prefix n text)) hne ?_
      cases hr : (Piece.line (Text.utf8 text)).readable n with
      | false => exact hpart hr hpos
      | true =>
        have := hsome hr
        simp only [Piece.readable, Bool.and_eq_true, decide_eq_true_eq] at hr
        rw [hlength] at hr
        rw [List.take_of_length_le hr.1]
        rwa [Nat.sub_eq_zero_of_le, cut_zero] at this
        rw [hbytes, List.length_append, List.length_singleton, hlength]
        omega

/-! ## Collections -/

/-- Nothing is read at the end of the input. -/
theorem sat_collectEnd {α : Type} {read : Io Bytes (Option α)} {Q : List α → Bytes → World → Prop}
    (hread : ∀ {Q : Option α → Bytes → World → Prop}, Q none [] w → Act.SatE read e [] w Q E R)
    (hQ : Q [] [] w) : ∀ k, Act.SatE (collect read k) e [] w Q E R
  | 0 => hQ
  | k + 1 => by
    rw [collect, Act.satE_bind]
    exact hread hQ

/-- The blobs of a list or a set: those before the cut. -/
theorem sat_blobsCut : ∀ {items : List Bytes} {n : Nat} {Q : List Bytes → Bytes → World → Prop},
    (∀ b ∈ items, BlobFits b) →
    (¬ Refused (items.map .blob) n → Q (items.take (wholeCount (items.map .blob) n)) [] w) →
    (Refused (items.map .blob) n → ∀ s, E .unexpectedEof s w) →
    Act.SatE (collect blob items.length) e (cut (items.map .blob) n) w Q E R
  | [], n, Q, _, hQ, _ => by
    rw [List.map_nil, cut_nil, List.length_nil, collect, Act.satE_pure]
    simpa using hQ not_refused_nil
  | b :: items, n, Q, hfit, hQ, hE => by
    rw [List.length_cons, collect, Act.satE_bind]
    rw [List.map_cons] at hQ hE ⊢
    refine sat_blobCut (hfit b (by simp)) ?_ ?_ ?_
    · rintro rfl
      simpa [wholeCount_zero] using hQ (not_refused_zero _)
    · intro hr
      simp only [Act.satE_bind, Act.satE_pure]
      rw [refused_cons hr] at hQ hE
      rw [wholeCount_cons hr] at hQ
      exact sat_blobsCut (fun c hc => hfit c (List.mem_cons_of_mem _ hc)) hQ hE
    · intro hr hpos
      exact hE ((refused_blob hr).mpr hpos)

/-- The pieces of the fields of a hash. -/
def pairPieces (pairs : List (Bytes × Bytes)) : List Piece :=
  pairs.flatMap fun p => [.blob p.1, .blob p.2]

/-- A field and its value, cut. -/
theorem sat_pairCut {p : Bytes × Bytes} {Q : Option (Bytes × Bytes) → Bytes → World → Prop}
    (hfit : BlobFits p.1 ∧ BlobFits p.2)
    (hnone : wholeCount (.blob p.1 :: .blob p.2 :: ps) n < 2 →
      ¬ Refused (.blob p.1 :: .blob p.2 :: ps) n → Q none [] w)
    (hsome : (Piece.blob p.1).readable n = true →
      (Piece.blob p.2).readable (n - (Piece.blob p.1).bytes.length) = true →
      Q (some p) (cut ps (n - (Piece.blob p.1).bytes.length - (Piece.blob p.2).bytes.length)) w)
    (herr : Refused (.blob p.1 :: .blob p.2 :: ps) n → ∀ s, E .unexpectedEof s w) :
    Act.SatE pair e (cut (.blob p.1 :: .blob p.2 :: ps) n) w Q E R := by
  unfold pair
  simp only [Act.satE_bind, Act.satE_pure]
  refine sat_blobCut hfit.1 ?_ ?_ ?_
  · rintro rfl
    exact sat_blobEnd (hnone (by rw [wholeCount_zero]; omega) (not_refused_zero _))
  · intro hr
    rw [refused_cons hr] at hnone herr
    rw [wholeCount_cons hr] at hnone
    refine sat_blobCut hfit.2 ?_ ?_ ?_
    · intro h0
      refine hnone ?_ ?_
      · rw [h0, wholeCount_zero]
        omega
      · rw [h0]
        exact not_refused_zero _
    · exact hsome hr
    · intro hr' hpos
      exact herr ((refused_blob hr').mpr hpos)
  · intro hr hpos
    exact herr ((refused_blob hr).mpr hpos)

/-- The fields of a hash: those wholly before the cut. -/
theorem sat_pairsCut : ∀ {pairs : List (Bytes × Bytes)} {n : Nat}
    {Q : List (Bytes × Bytes) → Bytes → World → Prop}, (∀ p ∈ pairs, BlobFits p.1 ∧ BlobFits p.2) →
    (¬ Refused (pairPieces pairs) n → Q (pairs.take (wholeCount (pairPieces pairs) n / 2)) [] w) →
    (Refused (pairPieces pairs) n → ∀ s, E .unexpectedEof s w) →
    Act.SatE (collect pair pairs.length) e (cut (pairPieces pairs) n) w Q E R
  | [], n, Q, _, hQ, _ => by
    show Act.SatE (collect pair 0) e (cut [] n) w Q E R
    rw [cut_nil, collect, Act.satE_pure]
    simpa using hQ not_refused_nil
  | p :: pairs, n, Q, hfit, hQ, hE => by
    have hpieces : pairPieces (p :: pairs) = .blob p.1 :: .blob p.2 :: pairPieces pairs := rfl
    rw [hpieces] at hQ hE ⊢
    rw [List.length_cons, collect, Act.satE_bind]
    refine sat_pairCut (hfit p (by simp)) ?_ ?_ hE
    · intro hlt hnot
      have := hQ hnot
      rwa [Nat.div_eq_of_lt hlt, List.take_zero] at this
    · intro hr hr'
      simp only [Act.satE_bind, Act.satE_pure]
      rw [refused_cons hr, refused_cons hr'] at hQ hE
      rw [wholeCount_cons hr, wholeCount_cons hr', Nat.add_assoc, Nat.add_div_right _ (by decide)] at hQ
      exact sat_pairsCut (fun q hq => hfit q (List.mem_cons_of_mem _ hq)) hQ hE

/-- The pieces of the members of a sorted set. -/
def scoredPieces (pairs : List (Bytes × F64)) : List Piece :=
  pairs.flatMap fun p => [.blob p.1, .line (formatF64 p.2)]

/-- The score a shortened line is read as. -/
def shortScore (ps : List Piece) (n : Nat) : Option F64 :=
  match tornPiece ps n with
  | some (.line text, m) => parseF64 (text.take m)
  | _ => none

/-- The members that are read when `n` bytes are left: those before the cut, and one with a
shortened score when that is still a number. -/
def scoredLeft (pairs : List (Bytes × F64)) (n : Nat) : List (Bytes × F64) :=
  let k := wholeCount (scoredPieces pairs) n / 2
  pairs.take k ++ ((pairs[k]?).bind fun p =>
    (shortScore (scoredPieces pairs) n).map fun x => (p.1, x)).toList

theorem scoredLeft_none {pairs : List (Bytes × F64)} (hlt : wholeCount (scoredPieces pairs) n < 2)
    (hs : shortScore (scoredPieces pairs) n = none) : scoredLeft pairs n = [] := by
  unfold scoredLeft
  rw [Nat.div_eq_of_lt hlt, hs]
  simp

theorem scoredLeft_cons {p : Bytes × F64} {pairs : List (Bytes × F64)}
    (hr : (Piece.blob p.1).readable n = true)
    (hr' : (Piece.line (formatF64 p.2)).readable (n - (Piece.blob p.1).bytes.length) = true) :
    scoredLeft (p :: pairs) n = p :: scoredLeft pairs
      (n - (Piece.blob p.1).bytes.length - (Piece.line (formatF64 p.2)).bytes.length) := by
  have hpieces : scoredPieces (p :: pairs) =
      .blob p.1 :: .line (formatF64 p.2) :: scoredPieces pairs := rfl
  unfold scoredLeft shortScore
  rw [hpieces, tornPiece_cons hr, tornPiece_cons hr', wholeCount_cons hr, wholeCount_cons hr',
    Nat.add_assoc, Nat.add_div_right _ (by decide)]
  simp

theorem length_scoredPieces (pairs : List (Bytes × F64)) :
    (scoredPieces pairs).length = 2 * pairs.length := by
  induction pairs with
  | nil => rfl
  | cons p pairs ih =>
    show (scoredPieces pairs).length + 1 + 1 = 2 * (pairs.length + 1)
    omega

/-- A score is shortened only when its member is before the cut. -/
theorem shortScore_lt {pairs : List (Bytes × F64)} {x : F64}
    (h : shortScore (scoredPieces pairs) n = some x) :
    wholeCount (scoredPieces pairs) n / 2 < pairs.length := by
  have hlt : wholeCount (scoredPieces pairs) n < (scoredPieces pairs).length := by
    refine wholeCount_lt fun hnone => ?_
    unfold shortScore at h
    rw [hnone] at h
    cases h
  rw [length_scoredPieces] at hlt
  omega

theorem scoredLeft_whole {pairs : List (Bytes × F64)} (h : shortScore (scoredPieces pairs) n = none) :
    scoredLeft pairs n = pairs.take (wholeCount (scoredPieces pairs) n / 2) := by
  unfold scoredLeft
  rw [h]
  simp

theorem scoredLeft_short {pairs : List (Bytes × F64)} {x : F64}
    (h : shortScore (scoredPieces pairs) n = some x) :
    ∃ p rest, pairs.drop (wholeCount (scoredPieces pairs) n / 2) = p :: rest ∧
      scoredLeft pairs n = pairs.take (wholeCount (scoredPieces pairs) n / 2) ++ [(p.1, x)] := by
  have hk := shortScore_lt h
  refine ⟨_, _, List.drop_eq_getElem_cons hk, ?_⟩
  unfold scoredLeft
  dsimp only
  rw [h, List.getElem?_eq_getElem hk]
  rfl

/-- The members of a sorted set. -/
theorem sat_scoredCut : ∀ {pairs : List (Bytes × F64)} {n : Nat}
    {Q : List (Bytes × F64) → Bytes → World → Prop},
    (∀ p ∈ pairs, BlobFits p.1 ∧ p.2.isNan = false) →
    (¬ Refused (scoredPieces pairs) n → Q (scoredLeft pairs n) [] w) →
    (Refused (scoredPieces pairs) n → ∀ s, E .unexpectedEof s w) →
    Act.SatE (collect scored pairs.length) e (cut (scoredPieces pairs) n) w Q E R
  | [], n, Q, _, hQ, _ => by
    show Act.SatE (collect scored 0) e (cut [] n) w Q E R
    rw [cut_nil, collect, Act.satE_pure]
    simpa [scoredLeft] using hQ not_refused_nil
  | p :: pairs, n, Q, hfit, hQ, hE => by
    have hpieces : scoredPieces (p :: pairs) =
        .blob p.1 :: .line (formatF64 p.2) :: scoredPieces pairs := rfl
    have hend : ∀ {Q : Option (Bytes × F64) → Bytes → World → Prop}, Q none [] w →
        Act.SatE scored e [] w Q E R := by
      intro Q hQ
      unfold scored score
      simp only [Act.satE_bind, Act.satE_pure]
      exact sat_blobEnd (sat_lineEnd hQ)
    obtain ⟨hfit₁, hnan⟩ := hfit p (by simp)
    have htext := formatF64_eq p.2 hnan
    rw [List.length_cons, collect, Act.satE_bind, hpieces]
    unfold scored score
    simp only [Act.satE_bind, Act.satE_pure]
    refine sat_blobCut hfit₁ ?_ ?_ ?_
    · rintro rfl
      refine sat_lineEnd ?_
      have hleft : scoredLeft (p :: pairs) 0 = [] := by
        refine scoredLeft_none (by rw [wholeCount_zero]; omega) ?_
        unfold shortScore
        rw [hpieces, tornPiece_torn (readable_zero _)]
      have := hQ (by rw [hpieces]; exact not_refused_zero _)
      rwa [hleft] at this
    · intro hr
      rw [htext]
      refine sat_lineCut (lineText_score p.2) ?_ ?_ ?_
      · intro h0
        have hleft : scoredLeft (p :: pairs) n = [] := by
          refine scoredLeft_none ?_ ?_
          · rw [hpieces, wholeCount_cons hr, h0, wholeCount_zero]
            omega
          · unfold shortScore
            rw [hpieces, tornPiece_cons hr, h0, tornPiece_torn (readable_zero _)]
            rfl
        have := hQ (by rw [hpieces, refused_cons hr, h0]; exact not_refused_zero _)
        rwa [hleft] at this
      · intro hr'
        rw [← htext] at hr'
        rw [Option.bind_some, ← htext, parseF64_formatF64 p.2 hnan]
        simp only [both, Act.satE_bind, Act.satE_pure]
        rw [hpieces, refused_cons hr, refused_cons hr', scoredLeft_cons hr hr'] at hQ
        rw [hpieces, refused_cons hr, refused_cons hr'] at hE
        exact sat_scoredCut (fun q hq => hfit q (List.mem_cons_of_mem _ hq)) hQ hE
      · intro hr' hpos
        rw [← htext] at hr'
        have hnot : ¬ Refused (scoredPieces (p :: pairs)) n := by
          rw [hpieces, refused_cons hr]
          exact refused_line hr'
        have hwhole : wholeCount (scoredPieces (p :: pairs)) n / 2 = 0 := by
          rw [hpieces, wholeCount_cons hr, wholeCount_torn hr']
        have hshort : shortScore (scoredPieces (p :: pairs)) n =
            parseF64 (Text.utf8 (p.2.display.take (n - (Piece.blob p.1).bytes.length))) := by
          unfold shortScore
          rw [hpieces, tornPiece_cons hr, tornPiece_torn hr', htext,
            Text.utf8_ascii p.2.display_ascii,
            Text.utf8_ascii ((lineText_score p.2).mono (List.take_prefix _ _)).ascii, List.map_take]
        have hleft := hQ hnot
        unfold scoredLeft at hleft
        rw [hwhole, hshort] at hleft
        simp only [List.take_zero, List.nil_append, List.getElem?_cons_zero, Option.bind_some] at hleft
        rw [Option.bind_some]
        cases hparse : parseF64 (Text.utf8 (p.2.display.take (n - (Piece.blob p.1).bytes.length))) with
        | none =>
          rw [hparse] at hleft
          exact hleft
        | some x =>
          rw [hparse] at hleft
          simp only [both, Act.satE_bind, Act.satE_pure]
          exact sat_collectEnd hend hleft pairs.length
    · intro hr hpos
      exact hE (by rw [hpieces]; exact (refused_blob hr).mpr hpos)

end Klyro
