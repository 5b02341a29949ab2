import Klyro.Types.Memory.Index
import Klyro.Types.Memory.Ranked

/-!
# Filters act before truncation

* `TextIndex.ranking` — everything a query finds, in order; `search` cuts it.
* `TextIndex.lookup_scores` — a record that is kept has the score it has in the unfiltered search.
* `FiltersBeforeCutting` — a search with a filter and a limit is the whole ranking, filtered and then
  cut.
* `searches_filterBeforeCutting` — both searches.
-/

set_option autoImplicit false

namespace Klyro

/-! ## The keyword index -/

namespace TextIndex

section scores

variable {ln : F32 → F32} {t : TextIndex} {avg : F32} {keep keepAll : Bytes → Bool}

/-- The scores of the records kept, and of no others. -/
def Restricts (keep : Bytes → Bool) (scores all : Assoc Bytes F32) : Prop :=
  ∀ id, scores.lookup id = if keep id then all.lookup id else none

/-- One posting. -/
theorem restricts_posting (hkeep : ∀ id, keep id = true → keepAll id = true) {idf : F32}
    {scores all : Assoc Bytes F32} (h : Restricts keep scores all) (p : Bytes × Nat) :
    Restricts keep
      (if keep p.1 then scores.insert p.1 (SoftFloat.add
        ((scores.lookup p.1).getD (SoftFloat.zero false)) (contribution t avg idf p)) else scores)
      (if keepAll p.1 then all.insert p.1 (SoftFloat.add
        ((all.lookup p.1).getD (SoftFloat.zero false)) (contribution t avg idf p)) else all) := by
  intro id
  by_cases hp : keep p.1 = true
  · rw [if_pos hp, if_pos (hkeep _ hp), Assoc.lookup_insert_eq, Assoc.lookup_insert_eq, h p.1,
      if_pos hp, h id]
    by_cases hid : id = p.1
    · rw [if_pos hid, if_pos hid, hid, if_pos hp]
    · rw [if_neg hid, if_neg hid]
  · rw [if_neg hp, h id]
    by_cases hid : id = p.1
    · rw [hid, if_neg hp, if_neg hp]
    · split
      · split
        · rw [Assoc.lookup_insert_eq, if_neg hid]
        · rfl
      · rfl

theorem restricts_scoreTerm (hkeep : ∀ id, keep id = true → keepAll id = true)
    {scores all : Assoc Bytes F32} (h : Restricts keep scores all) (term : Bytes) :
    Restricts keep (scoreTerm ln t avg keep scores term) (scoreTerm ln t avg keepAll all term) := by
  unfold scoreTerm
  split
  · exact h
  · rename_i list hlist
    clear hlist
    induction list generalizing scores all with
    | nil => exact h
    | cons p list ih => exact ih (restricts_posting hkeep h p)

/-- **A record that is kept has its unfiltered score.** -/
theorem restricts_scores (hkeep : ∀ id, keep id = true → keepAll id = true)
    {scores all : Assoc Bytes F32} (h : Restricts keep scores all) (terms : List Bytes) :
    Restricts keep (terms.foldl (scoreTerm ln t avg keep) scores)
      (terms.foldl (scoreTerm ln t avg keepAll) all) := by
  induction terms generalizing scores all with
  | nil => exact h
  | cons term terms ih => exact ih (restricts_scoreTerm hkeep h term)

/-- The pairs of a restriction, in whatever order. -/
theorem Restricts.perm {scores all : Assoc Bytes F32} (h : Restricts keep scores all) :
    scores.pairs.Perm (all.pairs.filter fun p => keep p.1) := by
  refine (List.perm_ext_iff_of_nodup scores.nodup_pairs (all.nodup_pairs.filter _)).mpr ?_
  rintro ⟨id, score⟩
  rw [List.mem_filter, Assoc.mem_pairs, Assoc.mem_pairs, h id]
  by_cases hid : keep id = true
  · rw [if_pos hid]
    exact ⟨fun hs => ⟨hs, hid⟩, And.left⟩
  · rw [if_neg hid]
    exact ⟨nofun, fun hs => absurd hs.2 hid⟩

end scores

/-- Everything a query finds, in order. -/
def ranking (ln : F32 → F32) (t : TextIndex) (terms : List Bytes) (keep : Bytes → Bool) :
    List (Bytes × F32) :=
  if t.avgDocLen.feq (SoftFloat.zero false) then []
  else sortBy cmpHits (terms.foldl (scoreTerm ln t t.avgDocLen keep) ∅).pairs

theorem search_eq (ln : F32 → F32) (t : TextIndex) (terms : List Bytes) (limit : Nat)
    (keep : Bytes → Bool) : t.search ln terms limit keep = (t.ranking ln terms keep).take limit := by
  unfold ranking
  by_cases h : t.avgDocLen.feq (SoftFloat.zero false) = true
  · rw [if_pos h, List.take_nil]
    exact if_pos h
  · rw [if_neg h]
    exact if_neg h

/-- A filter leaves what it keeps of the ranking. -/
theorem ranking_filter {ln : F32 → F32} {t : TextIndex} {terms : List Bytes}
    {keep keepAll : Bytes → Bool} (hkeep : ∀ id, keep id = true → keepAll id = true)
    (hnumbers : ∀ p ∈ t.ranking ln terms keepAll, p.2.isNan = false) :
    t.ranking ln terms keep = (t.ranking ln terms keepAll).filter fun p => keep p.1 := by
  unfold ranking at hnumbers ⊢
  split
  · rfl
  · rename_i havg
    rw [if_neg havg] at hnumbers
    have hempty : Restricts keep ∅ ∅ := fun id => by split <;> rfl
    have hscores : Restricts keep (terms.foldl (scoreTerm ln t t.avgDocLen keep) ∅)
        (terms.foldl (scoreTerm ln t t.avgDocLen keepAll) ∅) := restricts_scores hkeep hempty terms
    have hperm := hscores.perm
    have hranked : Ranked Prod.fst Prod.snd
        (terms.foldl (scoreTerm ln t t.avgDocLen keepAll) ∅).pairs :=
      ⟨Assoc.nodup_pairs_fst _, fun p hp => hnumbers p (mem_sortBy.mpr hp)⟩
    exact (((hranked.filter _).perm hperm.symm).sort_perm hperm).trans (hranked.sort_filter _)

end TextIndex

/-! ## Both searches -/

namespace Memory

variable {m : Memory} {e : Env} {w : World}

/-- Whether the record filed under an id passes a filter. -/
def admits (m : Memory) (filter : Filter) (t : SystemTime) (id : Bytes) : Bool :=
  (m.records.lookup id).any fun record => filter.accepts record t

theorem accepts_nil {filter : Filter} {r : MemoryRecord} {t : SystemTime}
    (h : filter.accepts r t = true) : Filter.accepts [] r t = true := by
  unfold Filter.accepts at h ⊢
  rw [Bool.and_eq_true] at h
  rw [h.1]
  rfl

theorem admits_nil {filter : Filter} {t : SystemTime} {id : Bytes}
    (h : m.admits filter t id = true) : m.admits [] t id = true := by
  unfold admits at h ⊢
  cases hr : m.records.lookup id with
  | none => simp [hr] at h
  | some record =>
    rw [hr] at h
    exact accepts_nil h

/-- A search with a limit and a filter is its whole ranking, filtered and then cut. -/
def FiltersBeforeCutting (m : Memory) (e : Env) (w : World)
    (search : Nat → Filter → Run Memory (Except MemoryError (List (Bytes × F32)))) : Prop :=
  ∃ whole : Except MemoryError (List (Bytes × F32)),
    (∀ n, (∀ hits, whole = .ok hits → hits.length ≤ n) →
      Act.Sat (search n []) e m w (fun found m' _ => found = whole ∧ m' = m) (fun _ => False)) ∧
    ((∀ hits, whole = .ok hits → ∀ p ∈ hits, p.2.isNan = false) → ∀ n filter,
      Act.Sat (search n filter) e m w (fun found m' _ => m' = m ∧ found = whole.map fun hits =>
        (hits.filter fun p => m.admits filter (e.clock w.ticks) p.1).take n) (fun _ => False))

variable {search : Nat → Filter → Run Memory (Except MemoryError (List (Bytes × F32)))}

theorem filters_refused (refusal : MemoryError) (h : ∀ n filter, Act.Sat (search n filter) e m w
      (fun found m' _ => found = .error refusal ∧ m' = m) (fun _ => False)) :
    FiltersBeforeCutting m e w search := by
  refine ⟨.error refusal, fun n _ => h n [], fun _ n filter => ?_⟩
  exact Act.sat_mono (h n filter) (fun _ _ _ h => ⟨h.2, h.1⟩) (fun _ h => h)

/-- What a search cuts is one ranking for each filter. -/
theorem filters_of_ranking (ranking : Filter → List (Bytes × F32))
    (hrun : ∀ n filter, Act.Sat (search n filter) e m w
      (fun found m' _ => found = .ok ((ranking filter).take n) ∧ m' = m) (fun _ => False))
    (hfilter : (∀ p ∈ ranking [], p.2.isNan = false) → ∀ filter, ranking filter =
      (ranking []).filter fun p => m.admits filter (e.clock w.ticks) p.1) :
    FiltersBeforeCutting m e w search := by
  refine ⟨.ok (ranking []), fun n hn => ?_, fun hnumbers n filter => ?_⟩
  · refine Act.sat_mono (hrun n []) ?_ (fun _ h => h)
    rintro _ _ _ ⟨rfl, rfl⟩
    rw [List.take_of_length_le (hn _ rfl)]
    exact ⟨rfl, rfl⟩
  · refine Act.sat_mono (hrun n filter) ?_ (fun _ h => h)
    rintro _ _ _ ⟨rfl, rfl⟩
    rw [hfilter (hnumbers _ rfl) filter]
    exact ⟨rfl, rfl⟩

theorem searchText_filters (query : Bytes) (maxTerms : Nat) :
    FiltersBeforeCutting m e w fun n filter => searchText query n filter maxTerms := by
  by_cases hmode : m.config.mode.indexesText = true
  · refine filters_of_ranking (fun filter => m.text.ranking e.ln (tokenize query maxTerms)
      (m.admits filter (e.clock w.ticks))) (fun n filter => ?_) fun hnumbers filter => ?_
    · simp only [searchText, Act.sat_bind, Act.sat_get, hmode, Bool.not_true, Bool.false_eq_true,
        if_false, sat_now, sat_env, Act.sat_pure, TextIndex.search_eq]
      exact ⟨rfl, trivial⟩
    · exact TextIndex.ranking_filter (fun _ h => admits_nil h) hnumbers
  · refine filters_refused .textNotSupported fun n filter => ?_
    simp [searchText, hmode]

/-- What a vector scores, of the records a filter accepts. -/
def scored (m : Memory) (query : List F32) (filter : Filter) (t : SystemTime) : List (Bytes × F32) :=
  (m.records.pairs.filter fun p => filter.accepts p.2 t).filterMap fun p =>
    (p.2.slot.bind fun slot => m.vectors.similarity slot query).map fun score => (p.2.id, score)

/-- Records are filed under their ids, so that the filter reads the record it was asked about. -/
theorem scored_filter (hm : m.Keyed) (query : List F32) (filter : Filter) (t : SystemTime) :
    m.scored query filter t = (m.scored query [] t).filter fun p => m.admits filter t p.1 := by
  unfold scored
  rw [List.filter_filterMap, List.filterMap_filter, List.filterMap_filter]
  refine List.filterMap_congr fun p hp => ?_
  have hr : m.records.lookup p.2.id = some p.2 := by
    rw [hm p.1 p.2 (Assoc.mem_pairs.mp hp)]
    exact Assoc.mem_pairs.mp hp
  have hadmits : m.admits filter t p.2.id = filter.accepts p.2 t := by
    unfold admits
    rw [hr]
    rfl
  cases hscore : (p.2.slot.bind fun slot => m.vectors.similarity slot query) with
  | none => simp
  | some score =>
    by_cases haccepts : filter.accepts p.2 t = true
    · simp [hadmits, haccepts, accepts_nil haccepts, Option.filter]
    · simp [hadmits, haccepts, Option.filter]

theorem map_filterMap_sublist {α β γ : Type} {f : α → Option β} {g : α → γ} {h : β → γ}
    (hf : ∀ a b, f a = some b → h b = g a) (as : List α) :
    ((as.filterMap f).map h).Sublist (as.map g) := by
  induction as with
  | nil => exact List.Sublist.refl _
  | cons a as ih =>
    cases ha : f a with
    | none =>
      rw [List.filterMap_cons_none ha]
      exact ih.cons _
    | some b =>
      rw [List.filterMap_cons_some ha, List.map_cons, List.map_cons, hf a b ha]
      exact ih.cons_cons _

theorem scored_ids (hm : m.Keyed) (query : List F32) (filter : Filter) (t : SystemTime) :
    ((m.scored query filter t).map Prod.fst).Nodup := by
  have hids : (m.records.pairs.map fun p => p.2.id).Nodup := by
    rw [List.map_congr_left fun p hp => hm p.1 p.2 (Assoc.mem_pairs.mp hp)]
    exact Assoc.nodup_pairs_fst _
  refine hids.sublist ?_
  refine (map_filterMap_sublist (fun p hit hhit => ?_) _).trans (List.filter_sublist.map _)
  obtain ⟨score, -, rfl⟩ := Option.map_eq_some_iff.mp hhit
  rfl

theorem searchVector_filters (hm : m.Keyed) (query : List F32) (maxScan : Nat) :
    FiltersBeforeCutting m e w fun n filter => searchVector query n filter maxScan := by
  by_cases hmode : m.config.mode.storesVectors = true
  · by_cases hdim : query.length = m.config.dim
    · by_cases hscan : maxScan < m.vectors.scanCost
      · refine filters_refused (.tooLargeToScan m.vectors.scanCost maxScan) fun n filter => ?_
        simp [searchVector, hmode, hdim, hscan]
      · refine filters_of_ranking (fun filter =>
          sortBy TextIndex.cmpHits (m.scored query filter (e.clock w.ticks))) (fun n filter => ?_)
          fun hnumbers filter => ?_
        · simp [searchVector, hmode, hdim, not_lt.mp hscan, scored]
        · have hranked : Ranked Prod.fst Prod.snd (m.scored query [] (e.clock w.ticks)) :=
            ⟨scored_ids hm query [] _, fun p hp => hnumbers p (mem_sortBy.mpr hp)⟩
          rw [scored_filter hm]
          exact hranked.sort_filter _
    · refine filters_refused (.vector (.wrongDimension m.config.dim query.length)) fun n filter => ?_
      simp [searchVector, hmode, hdim]
  · refine filters_refused .vectorsNotSupported fun n filter => ?_
    simp [searchVector, hmode]

/-- **Filters act before truncation and disturb no score**, in the keyword search and in the vector
search. -/
theorem searches_filterBeforeCutting (m : Memory) (hm : m.Keyed) (e : Env) (w : World) :
    (∀ query maxTerms, FiltersBeforeCutting m e w fun n filter =>
      searchText query n filter maxTerms) ∧
    (∀ query maxScan, FiltersBeforeCutting m e w fun n filter =>
      searchVector query n filter maxScan) :=
  ⟨searchText_filters, searchVector_filters hm⟩

/-- One record in a hybrid index. -/
def oneFox : Memory where
  config := MemoryConfig.new .hybrid 1 .l2
  records := (∅ : Assoc Bytes MemoryRecord).insert [1]
    { MemoryRecord.new [1] (Text.bytes "red fox") 0 with slot := some 0 }
  text := TextIndex.index {} [1] none (Text.bytes "red fox") 8
  vectors := { dim := 1, metric := .l2, data := [lit "1"], live := 1 }

theorem oneFox_keyed : oneFox.Keyed := by
  intro id r hr
  simp only [oneFox, Assoc.lookup_insert_eq] at hr
  split at hr
  · cases hr
    exact ‹id = [1]›.symm
  · cases hr

theorem searches_filterBeforeCutting_fox :
    (∀ query maxTerms, FiltersBeforeCutting oneFox (stillEnv 5) {} fun n filter =>
      searchText query n filter maxTerms) ∧
    (∀ query maxScan, FiltersBeforeCutting oneFox (stillEnv 5) {} fun n filter =>
      searchVector query n filter maxScan) :=
  searches_filterBeforeCutting oneFox oneFox_keyed (stillEnv 5) {}

end Memory

end Klyro
