import Klyro.Types.Memory.Filtered
import Klyro.Types.Memory.Relevance

/-!
# Indexes of the same documents

* `TextIndex.Alike` — the same postings in whatever order, and the same counts.
* `Alike.search` — such indexes give the same hits with the same scores.
* `alike_of_counted` — indexes of the same documents are alike, where both caps let the same terms
  through.
-/

set_option autoImplicit false

namespace Klyro

namespace TextIndex

/-! ## Scores as functions -/

/-- One posting's part in the scores. -/
def scorePosting (t : TextIndex) (avg idf : F32) (keep : Bytes → Bool) (scores : Bytes → Option F32)
    (p : Bytes × Nat) : Bytes → Option F32 :=
  if keep p.1 then
    Function.update scores p.1 (some (SoftFloat.add ((scores p.1).getD (SoftFloat.zero false))
      (contribution t avg idf p)))
  else scores

section alike

variable {ln : F32 → F32} {t t' : TextIndex} {avg weight : F32} {keep : Bytes → Bool}

theorem lookup_scorePostings : ∀ (list : List (Bytes × Nat)) (scores : Assoc Bytes F32),
    (list.foldl (fun (scores : Assoc Bytes F32) p =>
      if keep p.1 then
        scores.insert p.1 (SoftFloat.add ((scores.lookup p.1).getD (SoftFloat.zero false))
          (contribution t avg weight p))
      else scores) scores).lookup = list.foldl (scorePosting t avg weight keep) scores.lookup
  | [], _ => rfl
  | p :: list, scores => by
    rw [List.foldl_cons, List.foldl_cons, lookup_scorePostings list]
    congr 1
    funext id
    unfold scorePosting
    split
    · rw [Assoc.lookup_insert_eq, Function.update_apply]
    · rfl

/-- Postings of different documents may be scored in any order. -/
theorem scorePosting_comm {p q : Bytes × Nat} (h : p.1 ≠ q.1) (scores : Bytes → Option F32) :
    scorePosting t avg weight keep (scorePosting t avg weight keep scores p) q =
      scorePosting t avg weight keep (scorePosting t avg weight keep scores q) p := by
  unfold scorePosting
  by_cases hp : keep p.1 = true
  · by_cases hq : keep q.1 = true
    · simp only [hp, hq, if_true]
      rw [Function.update_of_ne h.symm, Function.update_of_ne h, Function.update_comm h]
    · simp [hp, hq]
  · simp [hp]

theorem scorePostings_perm {list list' : List (Bytes × Nat)} (hperm : list.Perm list')
    (honce : (list.map Prod.fst).Nodup) (scores : Bytes → Option F32) :
    list.foldl (scorePosting t avg weight keep) scores =
      list'.foldl (scorePosting t avg weight keep) scores := by
  refine hperm.foldl_eq' (fun p hp q hq scores => ?_) scores
  by_cases h : p = q
  · rw [h]
  · exact scorePosting_comm (fun hid => h (List.inj_on_of_nodup_map honce hp hq hid)) scores

theorem scorePostings_isSome {id : Bytes} (hkeep : keep id = true) : ∀ (list : List (Bytes × Nat))
    (scores : Bytes → Option F32), id ∈ list.map Prod.fst ∨ (scores id).isSome = true →
    (list.foldl (scorePosting t avg weight keep) scores id).isSome = true
  | [], _, h => h.resolve_left List.not_mem_nil
  | p :: list, scores, h => by
    refine scorePostings_isSome hkeep list _ ?_
    unfold scorePosting
    by_cases hp : id = p.1
    · rw [← hp, if_pos hkeep, Function.update_self]
      exact .inr rfl
    · rw [List.map_cons, List.mem_cons] at h
      refine h.imp (fun hin => hin.resolve_left hp) fun hsome => ?_
      split
      · rwa [Function.update_of_ne hp]
      · exact hsome

/-- A list has the id exactly when it has an entry with it. -/
theorem posted_iff {term id : Bytes} : t.Posted term id ↔ ∃ tf, (id, tf) ∈ entries t.postings term := by
  unfold Posted Listed entries
  cases t.postings.lookup term <;> simp

/-- **A document listed under a term is found by it.** -/
theorem mem_ranking_of_posted {term id : Bytes} (hposted : t.Posted term id) (hkeep : keep id = true)
    (havg : t.avgDocLen.feq (SoftFloat.zero false) = false) :
    ∃ score, (id, score) ∈ t.ranking ln [term] keep := by
  obtain ⟨list, hlist, hmem⟩ := hposted
  have hsome : ((scoreTerm ln t t.avgDocLen keep ∅ term).lookup id).isSome = true := by
    unfold scoreTerm
    rw [hlist]
    rw [congrFun (lookup_scorePostings list ∅) id]
    exact scorePostings_isSome hkeep list _ (.inl hmem)
  obtain ⟨score, hscore⟩ := Option.isSome_iff_exists.mp hsome
  refine ⟨score, ?_⟩
  unfold ranking
  rw [if_neg (by rw [havg]; decide)]
  exact mem_sortBy.mpr (Assoc.mem_pairs.mpr hscore)

/-- **Two indexes of the same documents**, whose lists may be in different orders. -/
structure Alike (t t' : TextIndex) : Prop where
  entries : ∀ term, (entries t.postings term).Perm (entries t'.postings term)
  once : ∀ term, ((TextIndex.entries t.postings term).map Prod.fst).Nodup
  listed : ∀ term, (t.postings.lookup term).isSome = (t'.postings.lookup term).isSome
  docLen : ∀ id, t.docLen.lookup id = t'.docLen.lookup id
  totalLen : t.totalLen = t'.totalLen

namespace Alike

theorem docCount (h : Alike t t') : t.docCount = t'.docCount :=
  Assoc.size_of_keys fun id => by rw [h.docLen]

theorem termCount (h : Alike t t') : t.termCount = t'.termCount := Assoc.size_of_keys h.listed

theorem avgDocLen (h : Alike t t') : t.avgDocLen = t'.avgDocLen := by
  have hsize : t.docLen.size = t'.docLen.size := h.docCount
  have hempty : t.docLen.isEmpty = t'.docLen.isEmpty := by
    rw [Bool.eq_iff_iff, Assoc.isEmpty_iff, Assoc.isEmpty_iff, ← List.length_eq_zero_iff,
      ← List.length_eq_zero_iff, Assoc.length_pairs, Assoc.length_pairs, hsize]
  unfold TextIndex.avgDocLen
  rw [hsize, hempty, h.totalLen]

theorem idf (h : Alike t t') (ln : F32 → F32) (term : Bytes) :
    TextIndex.idf ln t term = TextIndex.idf ln t' term := by
  unfold TextIndex.idf
  rw [h.docCount, listedCount, listedCount, (h.entries term).length_eq]

theorem scorePosting (h : Alike t t') : scorePosting t avg weight keep =
    TextIndex.scorePosting t' avg weight keep := by
  unfold TextIndex.scorePosting contribution
  simp only [h.docLen]

/-- One term gives both the same scores. -/
theorem scoreTerm (h : Alike t t') {scores scores' : Assoc Bytes F32}
    (hscores : scores.lookup = scores'.lookup) (term : Bytes) :
    (scoreTerm ln t avg keep scores term).lookup =
      (TextIndex.scoreTerm ln t' avg keep scores' term).lookup := by
  have hentries := h.entries term
  have honce := h.once term
  have hlisted := h.listed term
  unfold TextIndex.entries at hentries honce
  unfold TextIndex.scoreTerm
  cases hl : t.postings.lookup term with
  | none =>
    cases hl' : t'.postings.lookup term with
    | none => exact hscores
    | some list' =>
      rw [hl, hl'] at hlisted
      cases hlisted
  | some list =>
    cases hl' : t'.postings.lookup term with
    | none =>
      rw [hl, hl'] at hlisted
      cases hlisted
    | some list' =>
      rw [hl, hl'] at hentries
      rw [hl] at honce
      dsimp only
      rw [lookup_scorePostings, lookup_scorePostings, ← h.idf, ← h.scorePosting, hscores]
      exact scorePostings_perm hentries honce _

theorem scores (h : Alike t t') : ∀ (terms : List Bytes) {scores scores' : Assoc Bytes F32},
    scores.lookup = scores'.lookup →
    (terms.foldl (TextIndex.scoreTerm ln t avg keep) scores).lookup =
      (terms.foldl (TextIndex.scoreTerm ln t' avg keep) scores').lookup
  | [], _, _, hscores => hscores
  | term :: terms, _, _, hscores => h.scores terms (h.scoreTerm hscores term)

/-- **The same documents are found, with the same scores.** -/
theorem search (h : Alike t t') (hln : Grows ln) (hb : t.Bounded) (terms : List Bytes) (limit : Nat) :
    t.search ln terms limit keep = t'.search ln terms limit keep := by
  rw [search_eq, search_eq]
  unfold ranking
  rw [← h.avgDocLen]
  by_cases havg : t.avgDocLen.feq (SoftFloat.zero false) = true
  · rw [if_pos havg, if_pos havg]
  · rw [if_neg havg, if_neg havg]
    have hlookup : (terms.foldl (TextIndex.scoreTerm ln t t.avgDocLen keep) ∅).lookup =
        (terms.foldl (TextIndex.scoreTerm ln t' t.avgDocLen keep) ∅).lookup := h.scores terms rfl
    have hperm := Assoc.pairs_perm_of_lookup fun id => congrFun hlookup id
    have hranked : Ranked Prod.fst Prod.snd
        (terms.foldl (TextIndex.scoreTerm ln t t.avgDocLen keep) ∅).pairs := by
      refine ⟨Assoc.nodup_pairs_fst _, ?_⟩
      rintro ⟨id, x⟩ hp
      exact (nonneg_scores hln hb (Bool.eq_false_iff.mpr havg) keep terms (fun _ _ h => by cases h) id x
        (Assoc.mem_pairs.mp hp)).number
    exact congrArg (List.take limit) (hranked.sort_perm hperm)

end Alike

end alike

/-! ## Indexes of known documents -/

section counted

variable {t t' : TextIndex} {cap cap' : Nat} {docs docs' : Assoc Bytes Bytes}

/-- A list is kept for a term exactly when it has entries. -/
theorem Filled.listed_iff (h : t.Filled) (term : Bytes) :
    (t.postings.lookup term).isSome = true ↔ entries t.postings term ≠ [] := by
  unfold entries
  cases hl : t.postings.lookup term with
  | none => simp
  | some list =>
    have hne : list ≠ [] := fun heq => h term (heq ▸ hl)
    simpa using hne

/-- The counters of an index of so many documents. -/
theorem bounded_of_counted (h : Counted cap docs t) (hdocs : docs.size ≤ u64Max) : t.Bounded where
  documents := by
    have hsize : t.docLen.size = docs.size := Assoc.size_of_keys fun id => by
      rw [h.docLen, Option.isSome_map]
    exact hsize.le.trans hdocs
  listed term := by
    rw [← List.length_map (f := Prod.fst)]
    refine Assoc.length_le_size (h.once term) fun id hid => ?_
    obtain ⟨⟨_, tf⟩, hp, rfl⟩ := List.mem_map.mp hid
    obtain ⟨text, htext, -⟩ := (h.posted term _ tf).mp hp
    rw [h.docLen, htext]
    rfl
  counts term p hp := by
    obtain ⟨text, -, -, htf⟩ := (h.posted term p.1 p.2).mp hp
    rw [htf]
    exact Nat.le_of_lt_succ (Nat.mod_lt _ (Nat.succ_pos u32Max))
  lengths id length hl := by
    rw [h.docLen] at hl
    obtain ⟨text, -, rfl⟩ := Option.map_eq_some_iff.mp hl
    exact Nat.le_of_lt_succ (Nat.mod_lt _ (Nat.succ_pos u32Max))
  total := by
    rw [h.total]
    exact Nat.le_of_lt_succ (Nat.mod_lt _ (Nat.succ_pos u64Max))

/-- **Indexes of the same documents are alike**, where both caps let the same terms through. -/
theorem alike_of_counted (h : Counted cap docs t) (h' : Counted cap' docs' t')
    (hdocs : ∀ id, docs.lookup id = docs'.lookup id)
    (hterms : ∀ id text, docs.lookup id = some text → firstTerms text cap = firstTerms text cap') :
    Alike t t' := by
  have hposted : ∀ term p, p ∈ entries t.postings term ↔ p ∈ entries t'.postings term := by
    rintro term ⟨id, tf⟩
    rw [h.posted, h'.posted, ← hdocs]
    refine exists_congr fun text => and_congr_right fun htext => ?_
    rw [hterms id text htext]
  have hperm : ∀ term, (entries t.postings term).Perm (entries t'.postings term) := fun term =>
    (List.perm_ext_iff_of_nodup (.of_map _ (h.once term)) (.of_map _ (h'.once term))).mpr (hposted term)
  refine ⟨hperm, h.once, fun term => ?_, fun id => ?_, ?_⟩
  · rw [Bool.eq_iff_iff, h.filled.listed_iff, h'.filled.listed_iff, ne_eq, ne_eq,
      ← List.length_eq_zero_iff, ← List.length_eq_zero_iff, (hperm term).length_eq]
  · rw [h.docLen, h'.docLen, ← hdocs]
    cases htext : docs.lookup id with
    | none => rfl
    | some text => rw [Option.map_some, Option.map_some, hterms id text htext]
  · rw [h.total, h'.total]
    unfold termTotal
    rw [← Assoc.total_of_lookup hdocs]
    unfold Assoc.total
    refine congrArg (· % (u64Max + 1)) (congrArg List.sum (List.map_congr_left ?_))
    rintro ⟨id, text⟩ hp
    dsimp only
    rw [hterms id text (Assoc.mem_pairs.mp hp)]

end counted

end TextIndex

end Klyro
