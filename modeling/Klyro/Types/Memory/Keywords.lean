import Klyro.Types.Memory.Index

/-!
# Keyword hits

Which ids a keyword query can return.  An index posts a record under the terms of its text, and
takes it out again by tokenizing the old text once more, under the cap in force at that moment.

* `allTerms` — the terms of a text without a cap; `tokenize` keeps a beginning of them.
* `TextIndex.Posted` — a record is listed under a term; `posted_index` and `posted_remove` say
  what index maintenance does to that relation.
* `search_posted` — every hit is listed under a term of the query.
-/

set_option autoImplicit false

namespace Klyro

/-! ## Terms -/

/-- The loop of `tokenize` without its cap. -/
def allTermsLoop : Bytes → List Bytes → Bytes → List Bytes
  | [], terms, current => (pushTerm terms current 0).1
  | b :: text, terms, current =>
    if isWordByte b then allTermsLoop text terms (current ++ [toAsciiLowercase b])
    else allTermsLoop text (pushTerm terms current 0).1 []

/-- The terms of a text, without a cap. -/
def allTerms (text : Bytes) : List Bytes := allTermsLoop text [] []

theorem pushTerm_fst (terms : List Bytes) (current : Bytes) (c c' : Nat) :
    (pushTerm terms current c).1 = (pushTerm terms current c').1 := rfl

theorem allTermsLoop_mono : ∀ (text : Bytes) (terms : List Bytes) (current : Bytes),
    terms <+: allTermsLoop text terms current
  | [], terms, current => by
    unfold allTermsLoop pushTerm
    dsimp only
    split
    · exact List.prefix_append _ _
    · exact List.prefix_rfl
  | b :: text, terms, current => by
    unfold allTermsLoop
    split
    · exact allTermsLoop_mono text terms _
    · refine List.IsPrefix.trans ?_ (allTermsLoop_mono text _ [])
      unfold pushTerm
      dsimp only
      split
      · exact List.prefix_append _ _
      · exact List.prefix_rfl

theorem tokenizeLoop_allTerms (cap : Nat) : ∀ (text : Bytes) (terms : List Bytes) (current : Bytes),
    tokenizeLoop cap text terms current <+: allTermsLoop text terms current
  | [], terms, current => List.prefix_rfl
  | b :: text, terms, current => by
    unfold tokenizeLoop allTermsLoop
    split
    · exact tokenizeLoop_allTerms cap text terms _
    · dsimp only
      split
      · exact allTermsLoop_mono text _ []
      · exact tokenizeLoop_allTerms cap text _ []

/-- A cap keeps a beginning of the terms. -/
theorem tokenize_allTerms (text : Bytes) (cap : Nat) : tokenize text cap <+: allTerms text :=
  tokenizeLoop_allTerms cap text [] []

/-- The terms that are counted are the terms there are. -/
theorem mem_termFrequencies {terms : List Bytes} {term : Bytes} :
    (∃ n, (term, n) ∈ (termFrequencies terms).pairs) ↔ term ∈ terms := by
  have hfold : ∀ (terms : List Bytes) (counts : Assoc Bytes Nat),
      (∃ n, (terms.foldl (fun counts term =>
        counts.insert term (((counts.lookup term).getD 0 + 1) % (u32Max + 1))) counts).lookup term =
          some n) ↔
        term ∈ terms ∨ ∃ n, counts.lookup term = some n := by
    intro terms
    induction terms with
    | nil => simp
    | cons head terms ih =>
      intro counts
      rw [List.foldl_cons, ih, List.mem_cons, Assoc.lookup_insert_eq]
      by_cases h : term = head
      · simp [h]
      · simp [h]
  simp only [Assoc.mem_pairs]
  unfold termFrequencies
  rw [hfold]
  simp

/-! ## Postings -/

namespace TextIndex

/-- `id` is listed under `term`. -/
def Listed (postings : Assoc Bytes (List (Bytes × Nat))) (term id : Bytes) : Prop :=
  ∃ list, postings.lookup term = some list ∧ id ∈ list.map Prod.fst

/-- The index lists `id` under `term`. -/
def Posted (t : TextIndex) (term id : Bytes) : Prop := Listed t.postings term id

/-- No term is kept without a record. -/
def Filled (t : TextIndex) : Prop := ∀ term, t.postings.lookup term ≠ some []

variable {postings : Assoc Bytes (List (Bytes × Nat))} {id id' term term' : Bytes}

theorem listed_post {p : Bytes × Nat} :
    Listed (post id postings p) term' id' ↔ Listed postings term' id' ∨ (term' = p.1 ∧ id' = id) := by
  unfold Listed post
  rw [Assoc.lookup_insert_eq]
  by_cases h : term' = p.1
  · rw [if_pos h, h]
    cases postings.lookup p.1 with
    | none => simp
    | some list => simp [exists_or]
  · simp [h]

theorem filled_post {p : Bytes × Nat} (h : ∀ term, postings.lookup term ≠ some []) :
    ∀ term, (post id postings p).lookup term ≠ some [] := by
  intro term
  unfold post
  rw [Assoc.lookup_insert_eq]
  split
  · simp
  · exact h term

theorem filled_unpost (h : ∀ term, postings.lookup term ≠ some []) :
    ∀ term', (unpost id postings term).lookup term' ≠ some [] := by
  intro term'
  unfold unpost
  split
  · exact h term'
  · dsimp only
    split
    · rw [Assoc.lookup_erase_eq]
      split
      · simp
      · exact h term'
    · rename_i hne
      rw [Assoc.lookup_insert_eq]
      split
      · rw [List.isEmpty_iff] at hne
        simpa using hne
      · exact h term'

theorem listed_postAll : ∀ {ps : List (Bytes × Nat)} {postings : Assoc Bytes (List (Bytes × Nat))},
    Listed (ps.foldl (post id) postings) term' id' ↔
      Listed postings term' id' ∨ ((∃ n, (term', n) ∈ ps) ∧ id' = id)
  | [], postings => by simp
  | p :: ps, postings => by
    rw [List.foldl_cons, listed_postAll, listed_post]
    constructor
    · rintro ((h | ⟨rfl, rfl⟩) | ⟨⟨n, hn⟩, rfl⟩)
      · exact .inl h
      · exact .inr ⟨⟨p.2, by simp⟩, rfl⟩
      · exact .inr ⟨⟨n, List.mem_cons_of_mem _ hn⟩, rfl⟩
    · rintro (h | ⟨⟨n, hn⟩, rfl⟩)
      · exact .inl (.inl h)
      · rcases List.mem_cons.mp hn with rfl | hn
        · exact .inl (.inr ⟨rfl, rfl⟩)
        · exact .inr ⟨⟨n, hn⟩, rfl⟩

variable {t : TextIndex} {text : Bytes} {cap : Nat}

theorem filled_remove (h : t.Filled) : (t.remove id text cap).Filled := by
  unfold remove
  split
  · exact h
  · show ∀ term, (List.foldl _ t.postings _).lookup term ≠ some []
    generalize (termFrequencies (tokenize text cap)).pairs = ps
    have hkeep : ∀ (ps : List (Bytes × Nat)) (postings : Assoc Bytes (List (Bytes × Nat))),
        (∀ term, postings.lookup term ≠ some []) →
        ∀ term, (ps.foldl (fun postings p => unpost id postings p.1) postings).lookup term ≠ some [] := by
      intro ps
      induction ps with
      | nil => exact fun _ h => h
      | cons p ps ih => exact fun postings h => ih _ (filled_unpost h)
    exact hkeep ps t.postings h

theorem docLen_remove (h : (t.docLen.lookup id).isSome = true) :
    (t.remove id text cap).docLen = t.docLen.erase id := by
  unfold remove
  obtain ⟨length, hl⟩ := Option.isSome_iff_exists.mp h
  rw [hl]

/-- **`index`** of a document that is listed nowhere. -/
theorem posted_index :
    (t.index id none text cap).Posted term' id' ↔
      t.Posted term' id' ∨ (term' ∈ tokenize text cap ∧ id' = id) := by
  unfold Posted index
  dsimp only
  rw [listed_postAll, mem_termFrequencies]

theorem filled_index (h : t.Filled) : (t.index id none text cap).Filled := by
  have hkeep : ∀ (ps : List (Bytes × Nat)) (postings : Assoc Bytes (List (Bytes × Nat))),
      (∀ term, postings.lookup term ≠ some []) →
      ∀ term, (ps.foldl (post id) postings).lookup term ≠ some [] := by
    intro ps
    induction ps with
    | nil => exact fun _ h => h
    | cons p ps ih => exact fun postings h => ih _ (filled_post h)
  exact hkeep _ t.postings h

theorem index_some (previous : Bytes) :
    t.index id (some previous) text cap = (t.remove id previous cap).index id none text cap := rfl

theorem docLen_index : (t.index id none text cap).docLen =
    t.docLen.insert id
      (((termFrequencies (tokenize text cap)).pairs.map Prod.snd).sum % (u32Max + 1)) := rfl

/-! ## Hits -/

section hits

variable {ln : F32 → F32} {avg : F32} {keep : Bytes → Bool} {hit : Bytes}

/-- A term adds only ids it lists and the filter keeps. -/
theorem scoreTerm_lookup {scores : Assoc Bytes F32}
    (h : ((scoreTerm ln t avg keep scores term).lookup hit).isSome = true) :
    (scores.lookup hit).isSome = true ∨ (t.Posted term hit ∧ keep hit = true) := by
  unfold scoreTerm at h
  cases hl : t.postings.lookup term with
  | none =>
    rw [hl] at h
    exact .inl h
  | some list =>
    rw [hl] at h
    have hloop : ∀ (f : Bytes × Nat → Assoc Bytes F32 → F32) (ps : List (Bytes × Nat))
        (scores : Assoc Bytes F32),
        ((ps.foldl (fun scores p => if keep p.1 then scores.insert p.1 (f p scores) else scores)
          scores).lookup hit).isSome = true →
        (scores.lookup hit).isSome = true ∨ (hit ∈ ps.map Prod.fst ∧ keep hit = true) := by
      intro f ps
      induction ps with
      | nil => exact fun _ h => .inl h
      | cons p ps ih =>
        intro scores h
        rw [List.foldl_cons] at h
        rcases ih _ h with h | ⟨hm, hk⟩
        · split at h
          · rename_i hkeep
            rw [Assoc.lookup_insert_eq] at h
            split at h
            · rename_i heq
              rw [heq]
              exact .inr ⟨by simp, hkeep⟩
            · exact .inl h
          · exact .inl h
        · exact .inr ⟨List.mem_cons_of_mem _ hm, hk⟩
    rcases hloop _ _ _ h with h | ⟨hm, hk⟩
    · exact .inl h
    · exact .inr ⟨⟨list, hl, hm⟩, hk⟩

/-- **Every hit is listed under a term of the query.** -/
theorem search_posted {terms : List Bytes} {limit : Nat} {score : F32}
    (h : (hit, score) ∈ search ln t terms limit keep) :
    (∃ term ∈ terms, t.Posted term hit) ∧ keep hit = true := by
  have hterms : ∀ (terms : List Bytes) (scores : Assoc Bytes F32),
      ((terms.foldl (scoreTerm ln t t.avgDocLen keep) scores).lookup hit).isSome = true →
      (scores.lookup hit).isSome = true ∨ ((∃ term ∈ terms, t.Posted term hit) ∧ keep hit = true) := by
    intro terms
    induction terms with
    | nil => exact fun _ h => .inl h
    | cons term terms ih =>
      intro scores h
      rw [List.foldl_cons] at h
      rcases ih _ h with h | ⟨⟨term', ht, hp⟩, hk⟩
      · rcases scoreTerm_lookup h with h | ⟨hp, hk⟩
        · exact .inl h
        · exact .inr ⟨⟨term, by simp, hp⟩, hk⟩
      · exact .inr ⟨⟨term', List.mem_cons_of_mem _ ht, hp⟩, hk⟩
  unfold search at h
  dsimp only at h
  split at h
  · cases h
  · have hmem := List.mem_of_mem_take h
    unfold sortBy at hmem
    rw [List.mem_insertionSort, Assoc.mem_pairs] at hmem
    rcases hterms terms ∅ (by rw [hmem]; rfl) with h | h
    · cases h
    · exact h

end hits

end TextIndex

end Klyro
