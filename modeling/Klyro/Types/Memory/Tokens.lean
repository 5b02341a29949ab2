import Klyro.Types.Memory.Rebuilt

/-!
# What the tokenizer computes

* `wordRuns` — the maximal runs of word bytes of a text.
* `terms` — its terms: the runs in lower case, without the short ones and the stopwords.
* `tokenize_exact` — `tokenize` keeps the first of them, a larger cap keeps more, and a term is its own
  only term.
-/

set_option autoImplicit false

namespace Klyro

/-- The maximal runs of word bytes. -/
def wordRuns (text : Bytes) : List Bytes :=
  (text.splitOnP fun b => !isWordByte b).filter fun run => decide (run ≠ [])

/-- Whether a run carries a signal. -/
def significant (term : Bytes) : Bool := decide (1 < term.length) && !isStopword term

/-- The terms of a text. -/
def terms (text : Bytes) : List Bytes :=
  ((wordRuns text).map fun run => run.map toAsciiLowercase).filter significant

theorem pushTerm_eq (found : List Bytes) (current : Bytes) (cap : Nat) :
    (pushTerm found current cap).1 = found ++ [current].filter significant := by
  unfold pushTerm
  dsimp only
  by_cases h : 1 < current.length ∧ isStopword current = false
  · have hsignificant : significant current = true := by
      unfold significant
      rw [decide_eq_true h.1, h.2]
      rfl
    rw [if_pos h, List.filter_cons_of_pos hsignificant]
    rfl
  · have hnot : ¬ significant current = true := by
      unfold significant
      simpa using h
    rw [if_neg h, List.filter_cons_of_neg hnot, List.filter_nil, List.append_nil]

/-- The buffer of the loop is the run that is being read. -/
theorem allTermsLoop_eq : ∀ (text : Bytes) (found : List Bytes) (current : Bytes),
    allTermsLoop text found (current.map toAsciiLowercase) = found ++
      ((List.splitOnPPrepend (fun b => !isWordByte b) text current.reverse).map
        fun run => run.map toAsciiLowercase).filter significant
  | [], found, current => by
    rw [allTermsLoop, pushTerm_eq, List.splitOnPPrepend_nil, List.reverse_reverse]
    rfl
  | b :: text, found, current => by
    rw [allTermsLoop]
    by_cases hb : isWordByte b = true
    · have ih := allTermsLoop_eq text found (current ++ [b])
      rw [List.map_append, List.reverse_append] at ih
      rw [if_pos hb, List.splitOnPPrepend_cons_neg (by simp [hb])]
      exact ih
    · have ih := allTermsLoop_eq text (pushTerm found (current.map toAsciiLowercase) 0).1 []
      rw [List.map_nil, List.reverse_nil, List.splitOnPPrepend_nil_right] at ih
      rw [if_neg hb, ih, pushTerm_eq, List.splitOnPPrepend_cons_pos (by simpa using hb),
        List.reverse_reverse, List.map_cons, List.append_assoc, ← List.filter_append]
      rfl

/-- What is too short to be a run is too short to be a term. -/
theorem filter_runs {lower : Bytes → Bytes} (h : ¬ significant (lower []) = true) :
    ∀ pieces : List Bytes,
      ((pieces.filter fun run => decide (run ≠ [])).map lower).filter significant =
        (pieces.map lower).filter significant
  | [] => rfl
  | [] :: pieces => by
    rw [List.filter_cons_of_neg (by simp), filter_runs h pieces, List.map_cons,
      List.filter_cons_of_neg h]
  | (b :: run) :: pieces => by
    have ih := filter_runs h pieces
    rw [List.filter_cons_of_pos (by simp), List.map_cons, List.map_cons]
    by_cases hrun : significant (lower (b :: run)) = true
    · rw [List.filter_cons_of_pos hrun, List.filter_cons_of_pos hrun, ih]
    · rw [List.filter_cons_of_neg hrun, List.filter_cons_of_neg hrun, ih]

/-- **The loop finds the terms.** -/
theorem allTerms_eq (text : Bytes) : allTerms text = terms text := by
  have h := allTermsLoop_eq text [] []
  rw [List.map_nil, List.nil_append, List.reverse_nil, List.splitOnPPrepend_nil_right] at h
  unfold terms wordRuns
  rw [filter_runs (by decide)]
  exact h

/-! ## A term is a text of one term -/

theorem lower_word {b : UInt8} (h : isWordByte b = true) :
    isWordByte (toAsciiLowercase b) = true ∧
      toAsciiLowercase (toAsciiLowercase b) = toAsciiLowercase b := by
  have hall : ∀ n : Fin 256, isWordByte (UInt8.ofNat n) = true →
      isWordByte (toAsciiLowercase (UInt8.ofNat n)) = true ∧
        toAsciiLowercase (toAsciiLowercase (UInt8.ofNat n)) = toAsciiLowercase (UInt8.ofNat n) := by
    decide +kernel
  have hb : UInt8.ofNat b.toNat = b := UInt8.ofNat_toNat
  have := hall ⟨b.toNat, b.toNat_lt⟩
  rw [hb] at this
  exact this h

/-- A run has no separator in it. -/
theorem word_of_mem_pieces : ∀ (text acc : Bytes), (∀ b ∈ acc, isWordByte b = true) →
    ∀ piece ∈ List.splitOnPPrepend (fun b => !isWordByte b) text acc, ∀ b ∈ piece, isWordByte b = true
  | [], acc, hacc, piece, hpiece, b, hb => by
    rw [List.splitOnPPrepend_nil, List.mem_singleton] at hpiece
    rw [hpiece, List.mem_reverse] at hb
    exact hacc b hb
  | c :: text, acc, hacc, piece, hpiece, b, hb => by
    by_cases hc : isWordByte c = true
    · rw [List.splitOnPPrepend_cons_neg (by simp [hc])] at hpiece
      refine word_of_mem_pieces text (c :: acc) (fun x hx => ?_) piece hpiece b hb
      rcases List.mem_cons.mp hx with rfl | hx
      · exact hc
      · exact hacc x hx
    · rw [List.splitOnPPrepend_cons_pos (by simpa using hc), List.mem_cons] at hpiece
      rcases hpiece with rfl | hpiece
      · exact hacc b (List.mem_reverse.mp hb)
      · rw [← List.splitOnPPrepend_nil_right] at hpiece
        exact word_of_mem_pieces text [] (fun x hx => by cases hx) piece hpiece b hb

/-- The bytes of a term are word bytes in lower case. -/
theorem mem_terms {text term : Bytes} (h : term ∈ terms text) : significant term = true ∧
    ∀ b ∈ term, isWordByte b = true ∧ toAsciiLowercase b = b := by
  obtain ⟨hmem, hsignificant⟩ := List.mem_filter.mp h
  obtain ⟨run, hrun, rfl⟩ := List.mem_map.mp hmem
  refine ⟨hsignificant, fun b hb => ?_⟩
  obtain ⟨c, hc, rfl⟩ := List.mem_map.mp hb
  have hpiece := (List.mem_filter.mp hrun).1
  rw [← List.splitOnPPrepend_nil_right] at hpiece
  exact lower_word (word_of_mem_pieces text [] (fun x hx => by cases hx) run hpiece c hc)

/-- A term is its own only term. -/
theorem terms_term {term : Bytes} (hsignificant : significant term = true)
    (hbytes : ∀ b ∈ term, isWordByte b = true ∧ toAsciiLowercase b = b) : terms term = [term] := by
  have hne : term ≠ [] := by
    rintro rfl
    exact absurd hsignificant (by decide)
  have hruns : wordRuns term = [term] := by
    unfold wordRuns
    rw [List.splitOnP_eq_singleton fun b hb => by simp [(hbytes b hb).1],
      List.filter_cons_of_pos (by simpa using hne), List.filter_nil]
  have hlower : term.map toAsciiLowercase = term :=
    (List.map_congr_left fun b hb => (hbytes b hb).2).trans (List.map_id' term)
  unfold terms
  rw [hruns, List.map_cons, List.map_nil, hlower, List.filter_cons_of_pos hsignificant, List.filter_nil]

/-- **`tokenize` is its definition**: the first terms of the text, of which a larger cap keeps more,
and each of which tokenizes to itself. -/
theorem tokenize_exact (text : Bytes) (n : Nat) (hn : 1 ≤ n) :
    tokenize text n = (terms text).take n ∧
      (∀ m, n ≤ m → tokenize text n <+: tokenize text m) ∧
      ∀ term ∈ tokenize text n, ∀ k, 1 ≤ k → tokenize term k = [term] := by
  have htake : ∀ (text : Bytes) (n : Nat), 1 ≤ n → tokenize text n = (terms text).take n := by
    intro text n hn
    rw [tokenize_eq_firstTerms hn, firstTerms, allTerms_eq]
  refine ⟨htake text n hn, fun m hm => ?_, fun term hterm k hk => ?_⟩
  · rw [htake text n hn, htake text m (hn.trans hm)]
    exact List.take_prefix_take_left hm
  · rw [htake text n hn] at hterm
    obtain ⟨hsignificant, hbytes⟩ := mem_terms (List.mem_of_mem_take hterm)
    rw [htake term k hk, terms_term hsignificant hbytes, List.take_of_length_le (by simpa using hk)]

theorem tokenize_exact_fox : tokenize (Text.bytes "The red_fox, a B2!") 1 =
      (terms (Text.bytes "The red_fox, a B2!")).take 1 ∧
    (∀ m, 1 ≤ m → tokenize (Text.bytes "The red_fox, a B2!") 1 <+:
      tokenize (Text.bytes "The red_fox, a B2!") m) ∧
    ∀ term ∈ tokenize (Text.bytes "The red_fox, a B2!") 1, ∀ k, 1 ≤ k → tokenize term k = [term] :=
  tokenize_exact (Text.bytes "The red_fox, a B2!") 1 le_rfl

example : tokenize (Text.bytes "The red_fox, a B2!") 1 = [Text.bytes "red_fox"] := by decide +kernel

end Klyro
