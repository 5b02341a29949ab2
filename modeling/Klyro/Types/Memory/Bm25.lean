import Klyro.Types.Memory.Documented

/-!
# Keyword search is BM25 over the texts

* `Bm25.score`, `Bm25.answer` — the score of a document and the answer to a query, from nothing but the
  documents.
* `lookup_scoreTerm` — what one term of a query adds to the scores.
* `Rebuilds.idf_eq`, `Rebuilds.avgDocLen_eq` — the counters of the index are those of the documents.
* `Rebuilds.search_eq` — the inverted index answers as the documents do.
* `Memory.Documented.search_bm25` — and so does an index of records.
-/

set_option autoImplicit false

namespace Klyro

open TextIndex

/-! ## Scores from the documents -/

namespace Bm25

/-- A document is an id with its terms. -/
abbrev Doc := Bytes × List Bytes

/-- In how many documents the term is. -/
def docFrequency (docs : List Doc) (term : Bytes) : Nat := docs.countP fun d => decide (term ∈ d.2)

/-- How many terms all documents have. -/
def totalLength (docs : List Doc) : Nat := (docs.map fun d => d.2.length).sum

/-- How many terms a document has on average. -/
def averageLength (docs : List Doc) : F32 :=
  if docs.isEmpty then SoftFloat.zero false
  else SoftFloat.div (SoftFloat.ofInt (totalLength docs)) (SoftFloat.ofInt docs.length)

/-- How much a term tells about a document that has it. -/
def weight (ln : F32 → F32) (docs : List Doc) (term : Bytes) : F32 :=
  let n : F32 := SoftFloat.ofInt docs.length
  let df : F32 := SoftFloat.ofInt (docFrequency docs term)
  let half : F32 := lit "0.5"
  ln (SoftFloat.add (lit "1") (SoftFloat.div (SoftFloat.add (SoftFloat.sub n df) half)
    (SoftFloat.add df half)))

/-- What a term that a document has contributes to its score. -/
def part (ln : F32 → F32) (docs : List Doc) (terms : List Bytes) (term : Bytes) : F32 :=
  let length : F32 := SoftFloat.ofInt terms.length
  let tf : F32 := SoftFloat.ofInt (terms.count term)
  let one : F32 := lit "1"
  let norm := SoftFloat.add (SoftFloat.sub one b)
    (SoftFloat.div (SoftFloat.mul b length) (averageLength docs))
  SoftFloat.mul (weight ln docs term) (SoftFloat.div (SoftFloat.mul tf (SoftFloat.add k1 one))
    (SoftFloat.add tf (SoftFloat.mul k1 norm)))

/-- One more term of the query. -/
def addPart (ln : F32 → F32) (docs : List Doc) (terms : List Bytes) (sum : Option F32) (term : Bytes) :
    Option F32 :=
  if term ∈ terms then some (SoftFloat.add (sum.getD (SoftFloat.zero false)) (part ln docs terms term))
  else sum

/-- The score of a document that has a term of the query. -/
def score (ln : F32 → F32) (docs : List Doc) (query terms : List Bytes) : Option F32 :=
  query.foldl (addPart ln docs terms) none

/-- The documents that are kept and have a term of the query, with their scores. -/
def hits (ln : F32 → F32) (docs : List Doc) (query : List Bytes) (keep : Bytes → Bool) :
    List (Bytes × F32) :=
  docs.filterMap fun d =>
    if keep d.1 then (score ln docs query d.2).map fun s => (d.1, s) else none

/-- The answer to a query: best first, ties by id. -/
def answer (ln : F32 → F32) (docs : List Doc) (query : List Bytes) (limit : Nat) (keep : Bytes → Bool) :
    List (Bytes × F32) :=
  (sortBy cmpHits (hits ln docs query keep)).take limit

section perm

variable {ln : F32 → F32} {docs docs' : List Doc} {keep : Bytes → Bool}

theorem docFrequency_perm (h : docs.Perm docs') (term : Bytes) :
    docFrequency docs term = docFrequency docs' term := h.countP_eq _

theorem averageLength_perm (h : docs.Perm docs') : averageLength docs = averageLength docs' := by
  have htotal : totalLength docs = totalLength docs' := (h.map _).sum_eq
  unfold averageLength
  rw [h.isEmpty_eq, htotal, h.length_eq]

theorem weight_perm (h : docs.Perm docs') (term : Bytes) : weight ln docs term = weight ln docs' term := by
  unfold weight
  rw [h.length_eq, docFrequency_perm h]

theorem score_perm (h : docs.Perm docs') (query terms : List Bytes) :
    score ln docs query terms = score ln docs' query terms := by
  have hadd : addPart ln docs terms = addPart ln docs' terms := by
    funext sum term
    unfold addPart part
    rw [averageLength_perm h, weight_perm h]
  unfold score
  rw [hadd]

/-- The documents may come in any order. -/
theorem hits_perm (h : docs.Perm docs') (query : List Bytes) :
    (hits ln docs query keep).Perm (hits ln docs' query keep) := by
  unfold hits
  simp only [score_perm h]
  exact h.filterMap _

end perm

/-- A document without a term of the query has no score. -/
theorem score_eq_none {ln : F32 → F32} {docs : List Doc} {terms : List Bytes} :
    ∀ {query : List Bytes}, (∀ term ∈ query, term ∉ terms) → score ln docs query terms = none
  | [], _ => rfl
  | term :: query, h => by
    have hout := h term List.mem_cons_self
    unfold score
    rw [List.foldl_cons, addPart, if_neg hout]
    exact score_eq_none fun other hother => h other (List.mem_cons_of_mem _ hother)

theorem mem_hits {ln : F32 → F32} {docs : List Doc} {query : List Bytes} {keep : Bytes → Bool}
    {id : Bytes} {s : F32} : (id, s) ∈ hits ln docs query keep ↔
      keep id = true ∧ ∃ terms, (id, terms) ∈ docs ∧ score ln docs query terms = some s := by
  unfold hits
  rw [List.mem_filterMap]
  constructor
  · rintro ⟨⟨id', terms⟩, hin, hs⟩
    dsimp only at hs
    split at hs
    · rename_i hkeep
      obtain ⟨_, hscore, heq⟩ := Option.map_eq_some_iff.mp hs
      cases heq
      exact ⟨hkeep, terms, hin, hscore⟩
    · cases hs
  · rintro ⟨hkeep, terms, hin, hscore⟩
    refine ⟨(id, terms), hin, ?_⟩
    rw [if_pos hkeep, hscore]
    rfl

end Bm25

namespace TextIndex

variable {ln : F32 → F32} {t : TextIndex} {avg w : F32} {keep : Bytes → Bool} {id : Bytes} {cap : Nat}
  {docs : Assoc Bytes Bytes}

/-! ## Scores from the index -/

/-- Postings of other documents, and of those not kept, leave a score as it is. -/
theorem scorePostings_other : ∀ {list : List (Bytes × Nat)} {scores : Bytes → Option F32},
    id ∉ list.map Prod.fst ∨ keep id = false →
    list.foldl (scorePosting t avg w keep) scores id = scores id
  | [], _, _ => rfl
  | p :: list, scores, h => by
    have hrest : id ∉ list.map Prod.fst ∨ keep id = false :=
      h.imp_left fun hout hin => hout (List.mem_cons_of_mem _ hin)
    rw [List.foldl_cons, scorePostings_other hrest]
    unfold scorePosting
    split
    · rename_i hkeep
      apply Function.update_of_ne
      rintro rfl
      rcases h with hout | hnot
      · exact hout List.mem_cons_self
      · rw [hnot] at hkeep
        cases hkeep
    · rfl

/-- The one posting of a document that is kept counts. -/
theorem scorePostings_one (hkeep : keep id = true) {tf : Nat} : ∀ {list : List (Bytes × Nat)}
    {scores : Bytes → Option F32}, (list.map Prod.fst).Nodup → (id, tf) ∈ list →
    list.foldl (scorePosting t avg w keep) scores id =
      some (SoftFloat.add ((scores id).getD (SoftFloat.zero false)) (contribution t avg w (id, tf)))
  | [], _, _, hin => by cases hin
  | p :: list, scores, honce, hin => by
    rw [List.map_cons, List.nodup_cons] at honce
    rw [List.foldl_cons]
    rcases List.mem_cons.mp hin with rfl | hrest
    · rw [scorePostings_other (.inl honce.1)]
      unfold scorePosting
      rw [if_pos hkeep, Function.update_self]
    · have hne : id ≠ p.1 := fun h => honce.1 (h ▸ List.mem_map_of_mem hrest)
      have hsame : scorePosting t avg w keep scores p id = scores id := by
        unfold scorePosting
        split
        · exact Function.update_of_ne hne _ _
        · rfl
      rw [scorePostings_one hkeep honce.2 hrest, hsame]

/-- What a term does to the scores, whether or not it is listed. -/
theorem lookup_scoreTerm (scores : Assoc Bytes F32) (term : Bytes) :
    (scoreTerm ln t avg keep scores term).lookup =
      (entries t.postings term).foldl (scorePosting t avg (idf ln t term) keep) scores.lookup := by
  unfold scoreTerm entries
  cases t.postings.lookup term with
  | none => rfl
  | some list => exact lookup_scorePostings list scores

/-! ## The counters of the index -/

/-- The documents with their terms, up to the cap. -/
def corpus (cap : Nat) (docs : Assoc Bytes Bytes) : List Bm25.Doc :=
  docs.pairs.map fun p => (p.1, firstTerms p.2 cap)

theorem mem_corpus {terms : List Bytes} : (id, terms) ∈ corpus cap docs ↔
    ∃ text, docs.lookup id = some text ∧ firstTerms text cap = terms := by
  unfold corpus
  rw [List.mem_map]
  constructor
  · rintro ⟨⟨_, text⟩, hp, heq⟩
    cases heq
    exact ⟨text, Assoc.mem_pairs.mp hp, rfl⟩
  · rintro ⟨text, htext, rfl⟩
    exact ⟨(id, text), Assoc.mem_pairs.mpr htext, rfl⟩

theorem corpus_ids (cap : Nat) (docs : Assoc Bytes Bytes) : ((corpus cap docs).map Prod.fst).Nodup := by
  unfold corpus
  rw [List.map_map]
  exact docs.nodup_pairs_fst

/-- The index holds what the texts of the documents say, no counter having come round. -/
abbrev Exact (cap : Nat) (docs : Assoc Bytes Bytes) (t : TextIndex) : Prop :=
  Rebuilds (fun n => n) (fun n => n) cap docs t

namespace Rebuilds

theorem docCount_eq (h : Exact cap docs t) : t.docCount = (corpus cap docs).length := by
  have hsize : t.docLen.size = docs.size := Assoc.size_of_keys fun id => by
    rw [h.docLen, Option.isSome_map]
  unfold docCount corpus
  rw [hsize, List.length_map, Assoc.length_pairs]

/-- A posting list has as many entries as documents have the term. -/
theorem listed_eq (h : Exact cap docs t) (term : Bytes) :
    (entries t.postings term).length = Bm25.docFrequency (corpus cap docs) term := by
  have hids : ((entries t.postings term).map Prod.fst).Perm
      (((corpus cap docs).filter fun d => decide (term ∈ d.2)).map Prod.fst) := by
    have hnodup : (((corpus cap docs).filter fun d => decide (term ∈ d.2)).map Prod.fst).Nodup :=
      (corpus_ids cap docs).sublist (List.filter_sublist.map Prod.fst)
    refine (List.perm_ext_iff_of_nodup (h.once term) hnodup).mpr fun id => ?_
    rw [List.mem_map, List.mem_map]
    constructor
    · rintro ⟨⟨_, tf⟩, hin, rfl⟩
      obtain ⟨text, htext, hterm, -⟩ := (h.posted term _ tf).mp hin
      refine ⟨(_, firstTerms text cap), List.mem_filter.mpr ⟨?_, decide_eq_true hterm⟩, rfl⟩
      exact mem_corpus.mpr ⟨text, htext, rfl⟩
    · rintro ⟨⟨_, terms⟩, hin, rfl⟩
      obtain ⟨hdoc, hterm⟩ := List.mem_filter.mp hin
      obtain ⟨text, htext, rfl⟩ := mem_corpus.mp hdoc
      exact ⟨(_, _), (h.posted term _ _).mpr ⟨text, htext, of_decide_eq_true hterm, rfl⟩, rfl⟩
  have hlength := hids.length_eq
  rw [List.length_map, List.length_map] at hlength
  rw [hlength, Bm25.docFrequency, List.countP_eq_length_filter]

/-- **The weight of a term** is that of the documents. -/
theorem idf_eq (h : Exact cap docs t) (term : Bytes) :
    idf ln t term = Bm25.weight ln (corpus cap docs) term := by
  unfold idf Bm25.weight
  rw [listedCount, h.listed_eq, h.docCount_eq]

/-- **The average length** is that of the documents. -/
theorem avgDocLen_eq (h : Exact cap docs t) :
    t.avgDocLen = Bm25.averageLength (corpus cap docs) := by
  have hsize : t.docLen.size = (corpus cap docs).length := h.docCount_eq
  have hempty : t.docLen.isEmpty = (corpus cap docs).isEmpty := by
    rw [Bool.eq_iff_iff, Assoc.isEmpty_iff, ← List.length_eq_zero_iff, Assoc.length_pairs, hsize,
      List.length_eq_zero_iff, List.isEmpty_iff]
  have htotal : t.totalLen = Bm25.totalLength (corpus cap docs) := by
    rw [h.total]
    unfold termTotal Assoc.total Bm25.totalLength corpus
    rw [List.map_map]
    rfl
  unfold avgDocLen Bm25.averageLength
  rw [hsize, hempty, htotal]

/-- A posting contributes what the term does to the score of the document. -/
theorem contribution_eq (h : Exact cap docs t) {text : Bytes} (htext : docs.lookup id = some text)
    (term : Bytes) :
    contribution t t.avgDocLen (idf ln t term) (id, (firstTerms text cap).count term) =
      Bm25.part ln (corpus cap docs) (firstTerms text cap) term := by
  have hlength : (t.docLen.lookup id).getD 0 = (firstTerms text cap).length := by
    rw [h.docLen, htext]
    rfl
  unfold contribution Bm25.part
  rw [hlength, h.idf_eq, h.avgDocLen_eq]

/-! ## Searches -/

/-- **One term** of the query. -/
theorem lookup_scoreTerm_eq (h : Exact cap docs t) {text : Bytes} (htext : docs.lookup id = some text)
    (hkeep : keep id = true) (scores : Assoc Bytes F32) (term : Bytes) :
    (scoreTerm ln t t.avgDocLen keep scores term).lookup id =
      Bm25.addPart ln (corpus cap docs) (firstTerms text cap) (scores.lookup id) term := by
  rw [congrFun (lookup_scoreTerm scores term) id, Bm25.addPart]
  by_cases hterm : term ∈ firstTerms text cap
  · have hin := (h.posted term id _).mpr ⟨text, htext, hterm, rfl⟩
    rw [if_pos hterm, scorePostings_one hkeep (h.once term) hin, h.contribution_eq htext]
  · rw [if_neg hterm]
    apply scorePostings_other
    refine .inl fun hin => ?_
    obtain ⟨⟨_, tf⟩, hp, rfl⟩ := List.mem_map.mp hin
    obtain ⟨text', htext', hterm', -⟩ := (h.posted term _ tf).mp hp
    rw [htext] at htext'
    cases htext'
    exact hterm hterm'

/-- What is no document, or is not kept, gets no score. -/
theorem lookup_scoreTerm_none (h : Exact cap docs t) (hout : docs.lookup id = none ∨ keep id = false)
    (scores : Assoc Bytes F32) (term : Bytes) :
    (scoreTerm ln t t.avgDocLen keep scores term).lookup id = scores.lookup id := by
  rw [congrFun (lookup_scoreTerm scores term) id]
  apply scorePostings_other
  refine hout.imp_left fun hnone hin => ?_
  obtain ⟨⟨_, tf⟩, hp, rfl⟩ := List.mem_map.mp hin
  obtain ⟨text, htext, -⟩ := (h.posted term _ tf).mp hp
  rw [hnone] at htext
  cases htext

/-- **All terms** of the query. -/
theorem lookup_scores_eq (h : Exact cap docs t) {text : Bytes} (htext : docs.lookup id = some text)
    (hkeep : keep id = true) : ∀ (query : List Bytes) (scores : Assoc Bytes F32),
    (query.foldl (scoreTerm ln t t.avgDocLen keep) scores).lookup id =
      query.foldl (Bm25.addPart ln (corpus cap docs) (firstTerms text cap)) (scores.lookup id)
  | [], _ => rfl
  | term :: query, scores => by
    rw [List.foldl_cons, List.foldl_cons, h.lookup_scores_eq htext hkeep query,
      h.lookup_scoreTerm_eq htext hkeep]

theorem lookup_scores_none (h : Exact cap docs t) (hout : docs.lookup id = none ∨ keep id = false) :
    ∀ (query : List Bytes) (scores : Assoc Bytes F32),
    (query.foldl (scoreTerm ln t t.avgDocLen keep) scores).lookup id = scores.lookup id
  | [], _ => rfl
  | term :: query, scores => by
    rw [List.foldl_cons, h.lookup_scores_none hout query, h.lookup_scoreTerm_none hout]

/-- The scores are the hits, in whatever order. -/
theorem scores_perm (h : Exact cap docs t) (query : List Bytes) (keep : Bytes → Bool) :
    (query.foldl (scoreTerm ln t t.avgDocLen keep) ∅).pairs.Perm
      (Bm25.hits ln (corpus cap docs) query keep) := by
  have hids : ((Bm25.hits ln (corpus cap docs) query keep).map Prod.fst).Nodup := by
    have hsub : ∀ list : List Bm25.Doc, (((list.filterMap fun d => if keep d.1 then
        (Bm25.score ln (corpus cap docs) query d.2).map fun s => (d.1, s) else none)).map
          Prod.fst).Sublist (list.map Prod.fst) := by
      intro list
      induction list with
      | nil => exact .slnil
      | cons d list ih =>
        rw [List.filterMap_cons, List.map_cons]
        split
        · exact ih.cons d.1
        · rename_i found hfound
          have hid : found.1 = d.1 := by
            split at hfound
            · obtain ⟨_, -, rfl⟩ := Option.map_eq_some_iff.mp hfound
              rfl
            · cases hfound
          rw [List.map_cons, hid]
          exact ih.cons_cons d.1
    exact (corpus_ids cap docs).sublist (hsub _)
  refine (List.perm_ext_iff_of_nodup (Assoc.nodup_pairs _) (.of_map _ hids)).mpr ?_
  rintro ⟨id, s⟩
  rw [Assoc.mem_pairs, Bm25.mem_hits]
  by_cases hkeep : keep id = true
  · cases htext : docs.lookup id with
    | none =>
      rw [h.lookup_scores_none (.inl htext)]
      refine ⟨fun hs => (by cases hs), fun hs => ?_⟩
      obtain ⟨-, terms, hin, -⟩ := hs
      obtain ⟨text, hsome, -⟩ := mem_corpus.mp hin
      rw [htext] at hsome
      cases hsome
    | some text =>
      rw [h.lookup_scores_eq htext hkeep]
      constructor
      · intro hs
        exact ⟨hkeep, _, mem_corpus.mpr ⟨text, htext, rfl⟩, hs⟩
      · rintro ⟨-, terms, hin, hs⟩
        obtain ⟨text', hsome, rfl⟩ := mem_corpus.mp hin
        rw [htext] at hsome
        cases hsome
        exact hs
  · rw [h.lookup_scores_none (.inr (Bool.eq_false_iff.mpr hkeep))]
    exact ⟨fun hs => (by cases hs), fun hs => absurd hs.1 hkeep⟩

/-- Documents without terms are found by no query. -/
theorem hits_of_total (h : Exact cap docs t) (htotal : t.totalLen = 0) (query : List Bytes)
    (keep : Bytes → Bool) : Bm25.hits ln (corpus cap docs) query keep = [] := by
  apply List.eq_nil_iff_forall_not_mem.mpr
  rintro ⟨id, s⟩ hin
  obtain ⟨-, terms, hdoc, hs⟩ := Bm25.mem_hits.mp hin
  obtain ⟨text, htext, rfl⟩ := mem_corpus.mp hdoc
  have hlength : t.docLen.lookup id = some (firstTerms text cap).length := by
    rw [h.docLen, htext]
    rfl
  have hzero : (firstTerms text cap).length = 0 := by
    have hle := h.length_le hlength
    omega
  rw [List.length_eq_zero_iff.mp hzero, Bm25.score_eq_none fun _ _ => List.not_mem_nil] at hs
  cases hs

/-- **The inverted index answers as the documents do.** -/
theorem search_eq (h : Exact cap docs t) (hln : Grows ln) (hb : t.Bounded) {list : List Bm25.Doc}
    (hlist : list.Perm (corpus cap docs)) (query : List Bytes) (limit : Nat) (keep : Bytes → Bool) :
    t.search ln query limit keep = Bm25.answer ln list query limit keep := by
  rw [TextIndex.search_eq, Bm25.answer]
  congr 1
  unfold ranking
  by_cases havg : t.avgDocLen.feq (SoftFloat.zero false) = true
  · have htotal : t.totalLen = 0 := by
      by_contra hne
      by_cases hdocs : t.docLen.size = 0
      · have hsize : t.docLen.size = docs.size := Assoc.size_of_keys fun id => by
          rw [h.docLen, Option.isSome_map]
        rw [hsize] at hdocs
        apply hne
        rw [h.total]
        unfold termTotal Assoc.total
        rw [List.length_eq_zero_iff.mp ((Assoc.length_pairs docs).trans hdocs)]
        rfl
      · rw [feq_zero (nonneg_avgDocLen hb), avgDocLen_pos hb hne hdocs] at havg
        cases havg
    have hnone : Bm25.hits ln list query keep = [] := by
      have hperm : (Bm25.hits ln list query keep).Perm (Bm25.hits ln (corpus cap docs) query keep) :=
        Bm25.hits_perm hlist query
      rw [h.hits_of_total htotal] at hperm
      exact hperm.eq_nil
    rw [if_pos havg, hnone]
    rfl
  · have hperm : (query.foldl (scoreTerm ln t t.avgDocLen keep) ∅).pairs.Perm
        (Bm25.hits ln list query keep) :=
      (h.scores_perm query keep).trans (Bm25.hits_perm hlist query).symm
    have hranked : Ranked Prod.fst Prod.snd
        (query.foldl (scoreTerm ln t t.avgDocLen keep) ∅).pairs := by
      refine ⟨Assoc.nodup_pairs_fst _, ?_⟩
      rintro ⟨id, x⟩ hp
      exact (nonneg_scores hln hb (Bool.eq_false_iff.mpr havg) keep query (fun _ _ h => by cases h) id x
        (Assoc.mem_pairs.mp hp)).number
    rw [if_neg havg]
    exact hranked.sort_perm hperm

end Rebuilds

end TextIndex

/-! ## An index of records -/

namespace Memory

variable {m : Memory} {cap : Nat}

/-- The records as documents. -/
def corpus (m : Memory) (cap : Nat) : List Bm25.Doc :=
  m.records.pairs.map fun p => (p.1, firstTerms p.2.text cap)

/-- The counters of the keyword index hold what there is to count. -/
structure Countable (cap : Nat) (m : Memory) : Prop where
  terms : ∀ d ∈ m.corpus cap, d.2.length ≤ u32Max
  total : Bm25.totalLength (m.corpus cap) ≤ u64Max
  records : m.records.size ≤ u64Max

/-- The documents of the texts are those of the records. -/
theorem TextsOf.corpus_perm {docs : Assoc Bytes Bytes} (h : m.TextsOf docs) :
    (m.corpus cap).Perm (TextIndex.corpus cap docs) := by
  have hids : ((m.corpus cap).map Prod.fst).Nodup := by
    unfold corpus
    rw [List.map_map]
    exact m.records.nodup_pairs_fst
  refine (List.perm_ext_iff_of_nodup (.of_map _ hids) (.of_map _ (corpus_ids cap docs))).mpr ?_
  rintro ⟨id, terms⟩
  rw [mem_corpus, h id, corpus, List.mem_map]
  constructor
  · rintro ⟨⟨_, r⟩, hp, heq⟩
    cases heq
    exact ⟨r.text, by rw [Assoc.mem_pairs.mp hp, Option.map_some], rfl⟩
  · rintro ⟨text, htext, rfl⟩
    obtain ⟨r, hr, rfl⟩ := Option.map_eq_some_iff.mp htext
    exact ⟨(id, r), Assoc.mem_pairs.mpr hr, rfl⟩

/-- The keyword index is exact while its counters last. -/
theorem Countable.exact (h : m.Countable cap) {docs : Assoc Bytes Bytes} (hdocs : m.TextsOf docs)
    (hcounted : TextIndex.Counted cap docs m.text) : TextIndex.Exact cap docs m.text := by
  have hperm : (m.corpus cap).Perm (TextIndex.corpus cap docs) := hdocs.corpus_perm
  refine hcounted.exact (fun id text htext => ?_) ?_
  · exact h.terms (id, _) (hperm.mem_iff.mpr (mem_corpus.mpr ⟨text, htext, rfl⟩))
  · have htotal : termTotal (fun n => n) cap docs = Bm25.totalLength (m.corpus cap) := by
      unfold termTotal Assoc.total Bm25.totalLength
      rw [(hperm.map _).sum_eq, TextIndex.corpus, List.map_map]
      rfl
    exact htotal.trans_le h.total

/-- **A keyword search is BM25 over the texts of the records.** -/
theorem Documented.search_bm25 (hdoc : m.Documented cap) (h : m.Countable cap) {ln : F32 → F32}
    (hln : Grows ln) (hmode : m.config.mode.indexesText = true) (query : List Bytes) (limit : Nat)
    (keep : Bytes → Bool) :
    m.text.search ln query limit keep = Bm25.answer ln (m.corpus cap) query limit keep := by
  obtain ⟨docs, hcounted, hdocs⟩ := hdoc.indexed hmode
  have hsize : docs.size = m.records.size := Assoc.size_of_keys fun id => by
    rw [hdocs id, Option.isSome_map]
  have hbounded : m.text.Bounded := bounded_of_counted hcounted (hsize.trans_le h.records)
  exact (h.exact hdocs hcounted).search_eq hln hbounded hdocs.corpus_perm query limit keep

end Memory

end Klyro
