import Klyro.Util.Bytes

/-!
# Keyword retrieval (`types/memory/text.rs`)

The tokenizer, the inverted index and BM25.

* `tokenize` — lower-cased runs of word bytes, capped.
* `TextIndex.index` / `TextIndex.remove` — index maintenance; removal tokenizes the old text
  again, under the cap it is given.
* `TextIndex.search` — BM25 over the union of the query's terms.
-/

set_option autoImplicit false

namespace Klyro

/-- `STOPWORDS`. -/
def stopwords : List String :=
  ["a", "an", "and", "are", "as", "at", "be", "but", "by", "for", "from", "had", "has", "have",
    "he", "her", "his", "in", "is", "it", "its", "of", "on", "or", "she", "that", "the", "their",
    "them", "then", "there", "these", "they", "this", "to", "was", "were", "with"]

/-- `is_stopword`. -/
def isStopword (term : Bytes) : Bool := stopwords.any fun w => Text.bytes w == term

/-- `is_word_byte`. -/
def isWordByte (b : UInt8) : Bool :=
  let n := b.toNat
  decide (48 ≤ n ∧ n ≤ 57) || decide (65 ≤ n ∧ n ≤ 90) || decide (97 ≤ n ∧ n ≤ 122) || n == 95 ||
    decide (128 ≤ n)

/-- `push_term`: the terms with `current` if it survives, and whether the cap is reached. -/
def pushTerm (terms : List Bytes) (current : Bytes) (maxTerms : Nat) : List Bytes × Bool :=
  let terms := if 1 < current.length ∧ isStopword current = false then terms ++ [current] else terms
  (terms, decide (maxTerms ≤ terms.length))

/-- The loop of `tokenize`. -/
def tokenizeLoop (maxTerms : Nat) : Bytes → List Bytes → Bytes → List Bytes
  | [], terms, current => (pushTerm terms current maxTerms).1
  | b :: text, terms, current =>
    if isWordByte b then tokenizeLoop maxTerms text terms (current ++ [toAsciiLowercase b])
    else
      let pushed := pushTerm terms current maxTerms
      if pushed.2 then pushed.1 else tokenizeLoop maxTerms text pushed.1 []

/-- `tokenize`. -/
def tokenize (text : Bytes) (maxTerms : Nat) : List Bytes := tokenizeLoop maxTerms text [] []

/-- `u32::MAX`. -/
def u32Max : Nat := 4294967295

/-- `term_frequencies`; a count is a `u32`. -/
def termFrequencies (terms : List Bytes) : Assoc Bytes Nat :=
  terms.foldl (fun counts term =>
    counts.insert term (((counts.lookup term).getD 0 + 1) % (u32Max + 1))) ∅

/-- The inverted index. -/
structure TextIndex where
  postings : Assoc Bytes (List (Bytes × Nat)) := ∅
  docLen : Assoc Bytes Nat := ∅
  totalLen : Nat := 0
deriving DecidableEq

namespace TextIndex

/-- `doc_count`. -/
def docCount (t : TextIndex) : Nat := t.docLen.size

/-- `term_count`. -/
def termCount (t : TextIndex) : Nat := t.postings.size

/-- `avg_doc_len`. -/
def avgDocLen (t : TextIndex) : F32 :=
  if t.docLen.isEmpty then SoftFloat.zero false
  else SoftFloat.div (SoftFloat.ofInt t.totalLen) (SoftFloat.ofInt t.docLen.size)

/-- Add one posting. -/
def post (id : Bytes) (postings : Assoc Bytes (List (Bytes × Nat))) (p : Bytes × Nat) :
    Assoc Bytes (List (Bytes × Nat)) :=
  postings.insert p.1 ((postings.lookup p.1).getD [] ++ [(id, p.2)])

/-- Drop the postings of `id` under one term, and the term when nothing is left. -/
def unpost (id : Bytes) (postings : Assoc Bytes (List (Bytes × Nat))) (term : Bytes) :
    Assoc Bytes (List (Bytes × Nat)) :=
  match postings.lookup term with
  | none => postings
  | some list =>
    let list := list.filter fun p => p.1 ≠ id
    if list.isEmpty then postings.erase term else postings.insert term list

/-- `TextIndex::remove`. -/
def remove (t : TextIndex) (id text : Bytes) (maxTerms : Nat) : TextIndex :=
  match t.docLen.lookup id with
  | none => t
  | some length =>
    { postings := (termFrequencies (tokenize text maxTerms)).pairs.foldl
        (fun postings p => unpost id postings p.1) t.postings
      docLen := t.docLen.erase id
      totalLen := wrapSubU64 t.totalLen length }

/-- `TextIndex::index`. -/
def index (t : TextIndex) (id : Bytes) (previous : Option Bytes) (text : Bytes) (maxTerms : Nat) :
    TextIndex :=
  let t := match previous with
    | some previous => t.remove id previous maxTerms
    | none => t
  let frequencies := (termFrequencies (tokenize text maxTerms)).pairs
  let length := (frequencies.map Prod.snd).sum % (u32Max + 1)
  { postings := frequencies.foldl (post id) t.postings
    docLen := t.docLen.insert id length
    totalLen := (t.totalLen + length) % (u64Max + 1) }

/-- `K1`. -/
def k1 : F32 := lit "1.2"

/-- `B`. -/
def b : F32 := lit "0.75"

/-- `idf`. -/
def idf (ln : F32 → F32) (t : TextIndex) (term : Bytes) : F32 :=
  let n : F32 := SoftFloat.ofInt t.docCount
  let df : F32 := SoftFloat.ofInt ((t.postings.lookup term).map List.length |>.getD 0)
  let half : F32 := lit "0.5"
  ln (SoftFloat.add (lit "1") (SoftFloat.div (SoftFloat.add (SoftFloat.sub n df) half)
    (SoftFloat.add df half)))

/-- What one posting contributes to its record's score. -/
def contribution (t : TextIndex) (avg idf : F32) (p : Bytes × Nat) : F32 :=
  let length : F32 := SoftFloat.ofInt ((t.docLen.lookup p.1).getD 0)
  let tf : F32 := SoftFloat.ofInt p.2
  let one : F32 := lit "1"
  let norm := SoftFloat.add (SoftFloat.sub one b) (SoftFloat.div (SoftFloat.mul b length) avg)
  let saturated := SoftFloat.div (SoftFloat.mul tf (SoftFloat.add k1 one))
    (SoftFloat.add tf (SoftFloat.mul k1 norm))
  SoftFloat.mul idf saturated

/-- Add one term's postings to the scores. -/
def scoreTerm (ln : F32 → F32) (t : TextIndex) (avg : F32) (keep : Bytes → Bool)
    (scores : Assoc Bytes F32) (term : Bytes) : Assoc Bytes F32 :=
  match t.postings.lookup term with
  | none => scores
  | some list =>
    let idf := idf ln t term
    list.foldl (fun scores p =>
      if keep p.1 then
        scores.insert p.1 (SoftFloat.add ((scores.lookup p.1).getD (SoftFloat.zero false))
          (contribution t avg idf p))
      else scores) scores

/-- Best first, ties by id. -/
def cmpHits (a b : Bytes × F32) : Ordering := (cmpFloat b.2 a.2).then (cmpBytes a.1 b.1)

/-- `TextIndex::search`. -/
def search (ln : F32 → F32) (t : TextIndex) (queryTerms : List Bytes) (limit : Nat)
    (keep : Bytes → Bool) : List (Bytes × F32) :=
  let avg := t.avgDocLen
  if avg.feq (SoftFloat.zero false) then []
  else
    let scores := queryTerms.foldl (scoreTerm ln t avg keep) ∅
    (sortBy cmpHits scores.pairs).take limit

end TextIndex

end Klyro
