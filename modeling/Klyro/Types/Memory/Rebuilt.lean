import Klyro.Lib.Totals
import Klyro.Types.Memory.Keywords

/-!
# The inverted index equals a rebuild

An index is edited document by document; what it holds afterwards depends only on the texts that
are left in it.

* `firstTerms` — the first terms of a text; `tokenize_eq_firstTerms` says that `tokenize` finds them.
* `lookup_termFrequencies`, `sum_termFrequencies` — what the counts of a text are.
* `entries_index`, `entries_remove` — what one edit does to a posting list.
* `Rebuilds` — the index of a set of documents, up to what its counters can hold.
* `TextOp`, `Edited` — edits, with the text every id was indexed under.
-/

set_option autoImplicit false

namespace Klyro

/-! ## The terms of a text -/

/-- The first `cap` terms of a text. -/
def firstTerms (text : Bytes) (cap : Nat) : List Bytes := (allTerms text).take cap

theorem tokenizeLoop_eq_take {cap : Nat} : ∀ (text : Bytes) (terms : List Bytes) (current : Bytes),
    terms.length < cap → tokenizeLoop cap text terms current =
      (allTermsLoop text terms current).take cap
  | [], terms, current, h => by
    unfold tokenizeLoop allTermsLoop
    rw [pushTerm_fst terms current cap 0, List.take_of_length_le]
    unfold pushTerm
    dsimp only
    split
    · rw [List.length_append, List.length_singleton]
      omega
    · omega
  | b :: text, terms, current, h => by
    unfold tokenizeLoop allTermsLoop
    split
    · exact tokenizeLoop_eq_take text terms _ h
    · dsimp only
      rw [pushTerm_fst terms current cap 0]
      have hle : (pushTerm terms current 0).1.length ≤ cap := by
        unfold pushTerm
        dsimp only
        split
        · rw [List.length_append, List.length_singleton]
          omega
        · omega
      split
      · rename_i hfull
        have hfull' : cap ≤ (pushTerm terms current 0).1.length := of_decide_eq_true hfull
        obtain ⟨more, hmore⟩ := allTermsLoop_mono text (pushTerm terms current 0).1 []
        rw [← hmore, List.take_append_of_le_length hfull', List.take_of_length_le hle]
      · rename_i hroom
        have hroom' : ¬ cap ≤ (pushTerm terms current 0).1.length := of_decide_eq_false
          (Bool.not_eq_true _ ▸ hroom)
        exact tokenizeLoop_eq_take text _ [] (by omega)

/-- **A positive cap** keeps that many terms. -/
theorem tokenize_eq_firstTerms {cap : Nat} (h : 0 < cap) (text : Bytes) :
    tokenize text cap = firstTerms text cap := tokenizeLoop_eq_take text [] [] h

/-! ## The counts of a text -/

/-- One more occurrence. -/
def countOne (counts : Assoc Bytes Nat) (term : Bytes) : Assoc Bytes Nat :=
  counts.insert term (((counts.lookup term).getD 0 + 1) % (u32Max + 1))

theorem termFrequencies_eq (terms : List Bytes) : termFrequencies terms = terms.foldl countOne ∅ := rfl

theorem lookup_countAll : ∀ (terms : List Bytes) (counts : Assoc Bytes Nat) (term : Bytes),
    (terms.foldl countOne counts).lookup term =
      if term ∈ terms then
        some (((counts.lookup term).getD 0 + terms.count term) % (u32Max + 1))
      else counts.lookup term
  | [], counts, term => by simp
  | head :: terms, counts, term => by
    rw [List.foldl_cons, lookup_countAll terms, countOne, Assoc.lookup_insert_eq]
    by_cases h : term = head
    · subst h
      rw [if_pos rfl, if_pos List.mem_cons_self, List.count_cons_self]
      by_cases hin : term ∈ terms
      · rw [if_pos hin, Option.getD_some, Nat.mod_add_mod, Nat.add_assoc, Nat.add_comm 1]
      · rw [if_neg hin, List.count_eq_zero_of_not_mem hin]
    · rw [if_neg h, List.count_cons_of_ne (Ne.symm h)]
      simp only [List.mem_cons, h, false_or]

/-- Each term of a text is counted. -/
theorem lookup_termFrequencies (terms : List Bytes) (term : Bytes) :
    (termFrequencies terms).lookup term =
      if term ∈ terms then some (terms.count term % (u32Max + 1)) else none := by
  rw [termFrequencies_eq, lookup_countAll]
  simp

theorem total_countOne (counts : Assoc Bytes Nat) (term : Bytes) :
    Assoc.total Prod.snd (countOne counts term) % (u32Max + 1) =
      (Assoc.total Prod.snd counts + 1) % (u32Max + 1) := by
  unfold countOne
  rw [Assoc.total_insert]
  cases h : counts.lookup term with
  | none =>
    rw [Assoc.total_erase_none h, Option.getD_none, Nat.mod_add_mod]
    congr 1
    omega
  | some n =>
    have hsum := Assoc.total_erase_add (f := Prod.snd) h
    rw [Option.getD_some, Nat.mod_add_mod, ← hsum]
    congr 1
    dsimp only
    omega

/-- The counts of a text sum up to the number of its terms. -/
theorem sum_termFrequencies (terms : List Bytes) :
    ((termFrequencies terms).pairs.map Prod.snd).sum % (u32Max + 1) = terms.length % (u32Max + 1) := by
  have hfold : ∀ (terms : List Bytes) (counts : Assoc Bytes Nat),
      Assoc.total Prod.snd (terms.foldl countOne counts) % (u32Max + 1) =
        (Assoc.total Prod.snd counts + terms.length) % (u32Max + 1) := by
    intro terms
    induction terms with
    | nil => exact fun _ => rfl
    | cons head terms ih =>
      intro counts
      rw [List.foldl_cons, ih, ← Nat.mod_add_mod, total_countOne, Nat.mod_add_mod, List.length_cons]
      congr 1
      omega
  have h := hfold terms ∅
  rw [show Assoc.total Prod.snd (∅ : Assoc Bytes Nat) = 0 from rfl, Nat.zero_add] at h
  exact h

/-! ## Posting lists -/

namespace TextIndex

/-- The posting list of a term. -/
def entries (postings : Assoc Bytes (List (Bytes × Nat))) (term : Bytes) : List (Bytes × Nat) :=
  (postings.lookup term).getD []

variable {postings : Assoc Bytes (List (Bytes × Nat))} {id term : Bytes}

theorem entries_post (p : Bytes × Nat) :
    entries (post id postings p) term =
      entries postings term ++ if term = p.1 then [(id, p.2)] else [] := by
  unfold entries post
  rw [Assoc.lookup_insert_eq]
  by_cases h : term = p.1
  · rw [if_pos h, if_pos h, h, Option.getD_some]
  · rw [if_neg h, if_neg h, List.append_nil]

theorem entries_unpost (other : Bytes) :
    entries (unpost id postings other) term =
      if term = other then (entries postings term).filter fun p => p.1 ≠ id
      else entries postings term := by
  unfold entries unpost
  cases hl : postings.lookup other with
  | none =>
    by_cases h : term = other
    · subst h
      rw [if_pos rfl, hl]
      rfl
    · rw [if_neg h]
  | some list =>
    dsimp only
    by_cases hempty : (list.filter fun p => p.1 ≠ id).isEmpty = true
    · rw [if_pos hempty, Assoc.lookup_erase_eq]
      by_cases h : term = other
      · subst h
        rw [if_pos rfl, if_pos rfl, hl, Option.getD_some, List.isEmpty_iff.mp hempty]
        rfl
      · rw [if_neg h, if_neg h]
    · rw [if_neg hempty, Assoc.lookup_insert_eq]
      by_cases h : term = other
      · subst h
        rw [if_pos rfl, if_pos rfl, hl]
        rfl
      · rw [if_neg h, if_neg h]

theorem entries_postAll : ∀ (ps : List (Bytes × Nat)) (postings : Assoc Bytes (List (Bytes × Nat))),
    entries (ps.foldl (post id) postings) term =
      entries postings term ++ (ps.filter fun p => p.1 = term).map fun p => (id, p.2)
  | [], postings => by simp
  | p :: ps, postings => by
    rw [List.foldl_cons, entries_postAll ps, entries_post, List.append_assoc, List.filter_cons]
    by_cases h : term = p.1
    · simp [h]
    · simp [h, Ne.symm h]

theorem entries_unpostAll : ∀ (ps : List (Bytes × Nat)) (postings : Assoc Bytes (List (Bytes × Nat))),
    entries (ps.foldl (fun postings p => unpost id postings p.1) postings) term =
      if term ∈ ps.map Prod.fst then (entries postings term).filter fun p => p.1 ≠ id
      else entries postings term
  | [], postings => by simp
  | p :: ps, postings => by
    rw [List.foldl_cons, entries_unpostAll ps, entries_unpost, List.map_cons]
    by_cases h : term = p.1
    · by_cases hin : term ∈ ps.map Prod.fst
      · simp [h, List.filter_filter]
      · simp [h]
    · simp only [List.mem_cons, h, false_or, if_false]

/-- **What indexing does to a posting list**, for a document that was taken out before. -/
theorem entries_index (t : TextIndex) (text : Bytes) (cap : Nat) :
    entries (t.index id none text cap).postings term = entries t.postings term ++
      if term ∈ tokenize text cap then
        [(id, (tokenize text cap).count term % (u32Max + 1))] else [] := by
  show entries ((termFrequencies (tokenize text cap)).pairs.foldl (post id) t.postings) term = _
  rw [entries_postAll]
  congr 1
  have hlookup := lookup_termFrequencies (tokenize text cap) term
  generalize (tokenize text cap).count term % (u32Max + 1) = n at *
  generalize termFrequencies (tokenize text cap) = counts at *
  rw [Assoc.filter_pairs_key]
  cases hc : counts.lookup term with
  | none =>
    rw [hc] at hlookup
    split at hlookup
    · cases hlookup
    · rename_i hout
      rw [if_neg hout]
      rfl
  | some m =>
    rw [hc] at hlookup
    split at hlookup
    · rename_i hin
      cases hlookup
      rw [if_pos hin]
      rfl
    · cases hlookup

/-- **What a removal does to a posting list**, for a document that is indexed. -/
theorem entries_remove (t : TextIndex) (text : Bytes) (cap : Nat)
    (h : (t.docLen.lookup id).isSome = true) :
    entries (t.remove id text cap).postings term =
      if term ∈ tokenize text cap then (entries t.postings term).filter fun p => p.1 ≠ id
      else entries t.postings term := by
  obtain ⟨length, hl⟩ := Option.isSome_iff_exists.mp h
  unfold remove
  rw [hl]
  dsimp only
  rw [entries_unpostAll]
  have hmem : term ∈ (termFrequencies (tokenize text cap)).pairs.map Prod.fst ↔
      term ∈ tokenize text cap := by
    rw [← @mem_termFrequencies (tokenize text cap), List.mem_map]
    constructor
    · rintro ⟨⟨_, n⟩, hp, rfl⟩
      exact ⟨n, hp⟩
    · rintro ⟨n, hn⟩
      exact ⟨(term, n), hn, rfl⟩
  simp only [hmem]

/-! ## The index of a set of documents -/

/-- How many terms the documents have, each counted as `narrow` does. -/
def termTotal (narrow : Nat → Nat) (cap : Nat) (docs : Assoc Bytes Bytes) : Nat :=
  Assoc.total (fun p => narrow (firstTerms p.2 cap).length) docs

/-- **The index of `docs`**, with counts that hold `narrow` and a total that holds `wide` of what is
counted. -/
structure Rebuilds (narrow wide : Nat → Nat) (cap : Nat) (docs : Assoc Bytes Bytes) (t : TextIndex) :
    Prop where
  posted : ∀ term id tf, (id, tf) ∈ entries t.postings term ↔
    ∃ text, docs.lookup id = some text ∧ term ∈ firstTerms text cap ∧
      tf = narrow ((firstTerms text cap).count term)
  once : ∀ term, ((entries t.postings term).map Prod.fst).Nodup
  filled : t.Filled
  docLen : ∀ id, t.docLen.lookup id =
    (docs.lookup id).map fun text => narrow (firstTerms text cap).length
  total : t.totalLen = wide (termTotal narrow cap docs)

/-- What the counters hold: 32 bits of a count, 64 of the total. -/
abbrev Counted (cap : Nat) (docs : Assoc Bytes Bytes) (t : TextIndex) : Prop :=
  Rebuilds (· % (u32Max + 1)) (· % (u64Max + 1)) cap docs t

section edits

variable {cap : Nat} {docs : Assoc Bytes Bytes} {t : TextIndex} {text old : Bytes}

theorem counted_empty (cap : Nat) : Counted cap ∅ {} where
  posted term id tf := ⟨fun h => (by cases h), fun ⟨_, h, _⟩ => (by cases h)⟩
  once _ := List.nodup_nil
  filled _ h := by cases h
  docLen _ := rfl
  total := rfl

/-- A document that is not there is indexed. -/
theorem Rebuilds.index (hcap : 0 < cap) (h : Counted cap docs t) (hnew : docs.lookup id = none) :
    Counted cap (docs.insert id text) (t.index id none text cap) := by
  have hout : ∀ term tf, (id, tf) ∉ entries t.postings term := by
    intro term tf hin
    obtain ⟨_, htext, -⟩ := (h.posted term id tf).mp hin
    rw [hnew] at htext
    cases htext
  refine ⟨fun term id' tf => ?_, fun term => ?_, filled_index h.filled, fun id' => ?_, ?_⟩
  · rw [entries_index, tokenize_eq_firstTerms hcap, List.mem_append, h.posted, Assoc.lookup_insert_eq]
    by_cases hid : id' = id
    · subst hid
      simp only [hnew, if_true]
      by_cases hin : term ∈ firstTerms text cap
      · simp [hin]
      · simp [hin]
    · by_cases hin : term ∈ firstTerms text cap
      · simp [hid, hin]
      · simp [hid, hin]
  · rw [entries_index, List.map_append, List.nodup_append]
    refine ⟨h.once term, ?_, ?_⟩
    · split <;> simp
    · rintro other hother id' hid' rfl
      obtain ⟨⟨found, tf⟩, hin, rfl⟩ := List.mem_map.mp hother
      split at hid'
      · rw [List.map_singleton, List.mem_singleton] at hid'
        have hfound : found = id := hid'
        rw [hfound] at hin
        exact hout term tf hin
      · cases hid'
  · rw [docLen_index, sum_termFrequencies, tokenize_eq_firstTerms hcap, Assoc.lookup_insert_eq,
      Assoc.lookup_insert_eq, h.docLen]
    split <;> rfl
  · show (t.totalLen + ((termFrequencies (tokenize text cap)).pairs.map Prod.snd).sum %
      (u32Max + 1)) % (u64Max + 1) = _
    unfold termTotal
    rw [sum_termFrequencies, tokenize_eq_firstTerms hcap, Assoc.total_insert, Assoc.total_erase_none hnew,
      h.total, Nat.mod_add_mod, Nat.add_comm]
    rfl

/-- A document that is there is taken out. -/
theorem Rebuilds.remove (hcap : 0 < cap) (h : Counted cap docs t) (hold : docs.lookup id = some old) :
    Counted cap (docs.erase id) (t.remove id old cap) := by
  have hlength : t.docLen.lookup id = some ((firstTerms old cap).length % (u32Max + 1)) := by
    rw [h.docLen, hold]
    rfl
  have hthere : (t.docLen.lookup id).isSome = true := by
    rw [hlength]
    rfl
  have hentries : ∀ term, entries (t.remove id old cap).postings term =
      (entries t.postings term).filter fun p => p.1 ≠ id := by
    intro term
    rw [entries_remove t old cap hthere, tokenize_eq_firstTerms hcap]
    split
    · rfl
    · rename_i hout
      refine (List.filter_eq_self.mpr ?_).symm
      rintro ⟨id', tf⟩ hin
      rw [decide_eq_true_eq]
      rintro rfl
      obtain ⟨text, htext, hterm, -⟩ := (h.posted term id' tf).mp hin
      rw [hold] at htext
      cases htext
      exact hout hterm
  refine ⟨fun term id' tf => ?_, fun term => ?_, filled_remove h.filled, fun id' => ?_, ?_⟩
  · rw [hentries, List.mem_filter, h.posted, Assoc.lookup_erase_eq]
    by_cases hid : id' = id
    · simp [hid]
    · simp [hid]
  · rw [hentries]
    exact (h.once term).sublist (List.filter_sublist.map Prod.fst)
  · rw [docLen_remove hthere, Assoc.lookup_erase_eq, Assoc.lookup_erase_eq, h.docLen]
    split <;> rfl
  · have hsum := Assoc.total_erase_add (f := fun p : Bytes × Bytes =>
      (firstTerms p.2 cap).length % (u32Max + 1)) hold
    have htotal := h.total
    have hremoved : (t.remove id old cap).totalLen =
        wrapSubU64 t.totalLen ((firstTerms old cap).length % (u32Max + 1)) := by
      unfold TextIndex.remove
      rw [hlength]
    unfold termTotal at htotal ⊢
    rw [hremoved, htotal]
    generalize Assoc.total _ (docs.erase id) = rest at *
    generalize Assoc.total _ docs = whole at *
    dsimp only at hsum ⊢
    unfold wrapSubU64 u64Max
    omega

/-- Nothing is lost in a counter that is large enough. -/
theorem Rebuilds.exact (h : Counted cap docs t)
    (hnarrow : ∀ id text, docs.lookup id = some text → (firstTerms text cap).length ≤ u32Max)
    (hwide : termTotal (fun n => n) cap docs ≤ u64Max) :
    Rebuilds (fun n => n) (fun n => n) cap docs t := by
  have hcount : ∀ id text term, docs.lookup id = some text →
      (firstTerms text cap).count term % (u32Max + 1) = (firstTerms text cap).count term := by
    intro id text term htext
    have := hnarrow id text htext
    have : (firstTerms text cap).count term ≤ (firstTerms text cap).length := List.count_le_length
    exact Nat.mod_eq_of_lt (by omega)
  have hlength : ∀ id text, docs.lookup id = some text →
      (firstTerms text cap).length % (u32Max + 1) = (firstTerms text cap).length :=
    fun id text htext => Nat.mod_eq_of_lt (Nat.lt_succ_of_le (hnarrow id text htext))
  refine ⟨fun term id tf => ?_, h.once, h.filled, fun id => ?_, ?_⟩
  · rw [h.posted]
    refine exists_congr fun text => and_congr_right fun htext => and_congr_right fun _ => ?_
    rw [hcount id text term htext]
  · rw [h.docLen]
    cases htext : docs.lookup id with
    | none => rfl
    | some text => exact congrArg some (hlength id text htext)
  · have hsame : termTotal (· % (u32Max + 1)) cap docs = termTotal (fun n => n) cap docs := by
      unfold termTotal Assoc.total
      refine congrArg List.sum (List.map_congr_left ?_)
      rintro ⟨id, text⟩ hp
      exact hlength id text (Assoc.mem_pairs.mp hp)
    rw [h.total, hsame]
    exact Nat.mod_eq_of_lt (Nat.lt_succ_of_le hwide)

/-- An exact index holds no document longer than all together. -/
theorem Rebuilds.length_le (h : Rebuilds (fun n => n) (fun n => n) cap docs t) {length : Nat}
    (hl : t.docLen.lookup id = some length) : length ≤ t.totalLen := by
  rw [h.docLen] at hl
  obtain ⟨text, htext, rfl⟩ := Option.map_eq_some_iff.mp hl
  rw [h.total]
  unfold termTotal
  rw [← Assoc.total_erase_add htext]
  exact Nat.le_add_right _ _

end edits

end TextIndex

/-! ## Edits -/

/-- An edit: a document is indexed, or taken out. -/
inductive TextOp where
  | index (id text : Bytes)
  | remove (id : Bytes)

/-- An index with the text every id is indexed under. -/
structure Edited where
  docs : Assoc Bytes Bytes := ∅
  index : TextIndex := {}

/-- One edit; both functions are given the text the id is indexed under. -/
def TextOp.apply (cap : Nat) (s : Edited) : TextOp → Edited
  | .index id text =>
    { docs := s.docs.insert id text, index := s.index.index id (s.docs.lookup id) text cap }
  | .remove id =>
    match s.docs.lookup id with
    | none => s
    | some text => { docs := s.docs.erase id, index := s.index.remove id text cap }

/-- Edits one after the other, from an empty index. -/
def Edited.run (cap : Nat) (ops : List TextOp) : Edited := ops.foldl (TextOp.apply cap) {}

open TextIndex

/-- A document that is indexed again is taken out first. -/
theorem apply_index_some {cap : Nat} {s : Edited} {id text old : Bytes}
    (hold : s.docs.lookup id = some old) :
    (TextOp.index id text).apply cap s =
      { docs := s.docs.insert id text, index := (s.index.remove id old cap).index id none text cap } := by
  simp only [TextOp.apply]
  rw [hold]
  rfl

theorem apply_counted {cap : Nat} (hcap : 0 < cap) {s : Edited} (h : Counted cap s.docs s.index)
    (op : TextOp) : Counted cap (op.apply cap s).docs (op.apply cap s).index := by
  cases op with
  | index id text =>
    cases hold : s.docs.lookup id with
    | none =>
      show Counted cap (s.docs.insert id text) (s.index.index id (s.docs.lookup id) text cap)
      rw [hold]
      exact h.index hcap hold
    | some old =>
      have hnew : (s.docs.erase id).lookup id = none := by rw [Assoc.lookup_erase_eq, if_pos rfl]
      have hout : Counted cap ((s.docs.erase id).insert id text)
          ((s.index.remove id old cap).index id none text cap) := (h.remove hcap hold).index hcap hnew
      rw [Assoc.insert_erase] at hout
      rw [apply_index_some hold]
      exact hout
  | remove id =>
    simp only [TextOp.apply]
    cases hold : s.docs.lookup id with
    | none => exact h
    | some text => exact h.remove hcap hold

theorem run_counted {cap : Nat} (hcap : 0 < cap) (ops : List TextOp) :
    Counted cap (Edited.run cap ops).docs (Edited.run cap ops).index := by
  have hfold : ∀ (ops : List TextOp) (s : Edited), Counted cap s.docs s.index →
      Counted cap (ops.foldl (TextOp.apply cap) s).docs (ops.foldl (TextOp.apply cap) s).index := by
    intro ops
    induction ops with
    | nil => exact fun _ h => h
    | cons op ops ih => exact fun s h => ih _ (apply_counted hcap h op)
  exact hfold ops {} (counted_empty cap)

/-- **The inverted index equals a rebuild.**  After any edits it is the index of the documents that
are left, with counts modulo 2^32 and a total modulo 2^64; where no document has 2^32 terms and all
together have fewer than 2^64, it is exact, and no removal takes more from the total than there
is. -/
theorem run_rebuilds {cap : Nat} (hcap : 0 < cap) (ops : List TextOp) :
    Counted cap (Edited.run cap ops).docs (Edited.run cap ops).index ∧
      ((∀ id text, (Edited.run cap ops).docs.lookup id = some text →
          (firstTerms text cap).length ≤ u32Max) →
        termTotal (fun n => n) cap (Edited.run cap ops).docs ≤ u64Max →
        Rebuilds (fun n => n) (fun n => n) cap (Edited.run cap ops).docs (Edited.run cap ops).index ∧
          ∀ id length, (Edited.run cap ops).index.docLen.lookup id = some length →
            length ≤ (Edited.run cap ops).index.totalLen) := by
  have hcounted := run_counted hcap ops
  refine ⟨hcounted, fun hnarrow hwide => ?_⟩
  have hexact := hcounted.exact hnarrow hwide
  exact ⟨hexact, fun _ _ => hexact.length_le⟩

/-- Two documents share a term, and one of them is indexed again. -/
theorem run_rebuilds_twoDocs :
    Rebuilds (fun n => n) (fun n => n) 2
      (Edited.run 2 [.index [1] (Text.bytes "red fox"), .index [2] (Text.bytes "red red red"),
        .index [1] (Text.bytes "blue fox"), .remove [2]]).docs
      (Edited.run 2 [.index [1] (Text.bytes "red fox"), .index [2] (Text.bytes "red red red"),
        .index [1] (Text.bytes "blue fox"), .remove [2]]).index :=
  ((run_rebuilds (by decide) _).2
    (fun _ text _ => Nat.le_trans (List.length_take_le 2 (allTerms text)) (by decide))
    (by decide +kernel)).1

/-- `aa` so many times. -/
def aaText (count : Nat) : Bytes := (List.replicate count [97, 97, 32]).flatten

theorem allTermsLoop_aaText : ∀ (count : Nat) (terms : List Bytes),
    allTermsLoop (aaText count) terms [] = terms ++ List.replicate count [97, 97]
  | 0, terms => (List.append_nil terms).symm
  | count + 1, terms => by
    have hstep : allTermsLoop (aaText (count + 1)) terms [] =
        allTermsLoop (aaText count) (terms ++ [[97, 97]]) [] := rfl
    rw [hstep, allTermsLoop_aaText count, List.append_assoc]
    rfl

/-- A text of 2^32 terms has length 0 in the index. -/
theorem not_run_rebuilds :
    ¬ ∀ (cap : Nat), 0 < cap → ∀ ops : List TextOp,
      Rebuilds (fun n => n) (fun n => n) cap (Edited.run cap ops).docs (Edited.run cap ops).index := by
  intro h
  have hcap : 0 < u32Max + 1 := Nat.succ_pos u32Max
  have hexact := (h (u32Max + 1) hcap [.index [] (aaText (u32Max + 1))]).docLen []
  have hwrapped := (run_counted hcap [.index [] (aaText (u32Max + 1))]).docLen []
  have hdoc : (Edited.run (u32Max + 1) [.index [] (aaText (u32Max + 1))]).docs.lookup [] =
      some (aaText (u32Max + 1)) := AList.lookup_insert _
  have hlength : (firstTerms (aaText (u32Max + 1)) (u32Max + 1)).length = u32Max + 1 := by
    unfold firstTerms allTerms
    rw [allTermsLoop_aaText, List.length_take, List.nil_append, List.length_replicate, Nat.min_self]
  rw [hexact, hdoc, Option.map_some, Option.map_some, hlength, Nat.mod_self] at hwrapped
  cases hwrapped

end Klyro
