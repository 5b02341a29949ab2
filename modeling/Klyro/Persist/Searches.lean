import Klyro.Persist.LooksLike
import Klyro.Types.Memory.Bm25

/-!
# Keyword searches over the life of an index

* `Memory.AnswersBm25` — what a keyword search and a fusion of its hits give.
* `Memory.Documented.answersBm25` — an index whose texts are indexed answers so.
* `answersAlong` — in every state of a run under one cap, reloads included.
-/

set_option autoImplicit false

namespace Klyro

namespace Memory

variable {m : Memory} {cap : Nat}

/-- What the texts of the records answer to a query. -/
def bm25Hits (m : Memory) (ln : F32 → F32) (query : Bytes) (limit : Nat) (filter : Filter) (cap : Nat)
    (t : SystemTime) : Except MemoryError (List (Bytes × F32)) :=
  if m.config.mode.indexesText then
    .ok (Bm25.answer ln (m.corpus cap) (firstTerms query cap) limit (m.admits filter t))
  else .error .textNotSupported

/-- **A keyword search answers as the texts do**, and so does a fusion of what it finds; neither changes
the index, and neither panics. -/
structure AnswersBm25 (cap : Nat) (m : Memory) : Prop where
  hits : ∀ (e : Env) (w : World) (query : Bytes) (limit : Nat) (filter : Filter), Grows e.ln →
    Act.Sat (searchText query limit filter cap) e m w (fun r m' _ =>
      m' = m ∧ r = m.bm25Hits e.ln query limit filter cap (e.clock w.ticks)) (fun _ => False)
  fused : ∀ (e : Env) (w : World) (query : Bytes) (limit : Nat) (filter : Filter) (weights : Weights)
    (fusion : Fusion) (maxScan : Nat), Grows e.ln →
    Act.Sat (Memory.query (some query) none limit filter weights fusion cap maxScan) e m w
      (fun r m' _ => m' = m ∧ r = (m.bm25Hits e.ln query limit filter cap (e.clock w.ticks)).map
        fun hits => fuse e.powf hits [] (fun id => m.records.lookup id) weights fusion m.config.halfLife
          (e.clock (w.ticks + 1))) (fun _ => False)

theorem Documented.textHits_eq (hdoc : m.Documented cap) (hcap : 0 < cap) (h : m.Countable cap)
    {ln : F32 → F32} (hln : Grows ln) (query : Bytes) (limit : Nat) (filter : Filter) (t : SystemTime) :
    m.textHits ln query limit filter cap t = m.bm25Hits ln query limit filter cap t := by
  unfold textHits bm25Hits
  by_cases hmode : m.config.mode.indexesText = true
  · rw [if_pos hmode, if_pos hmode, tokenize_eq_firstTerms hcap, hdoc.search_bm25 h hln hmode]
  · rw [if_neg hmode, if_neg hmode]

/-- **An index whose texts are indexed** answers so while its counters last. -/
theorem Documented.answersBm25 (hdoc : m.Documented cap) (hcap : 0 < cap) (h : m.Countable cap) :
    m.AnswersBm25 cap where
  hits e w query limit filter hln := by
    refine Act.sat_mono (searchText_spec query limit filter cap) ?_ (fun _ h => h)
    rintro found m' _ ⟨rfl, rfl, -⟩
    exact ⟨rfl, hdoc.textHits_eq hcap h hln query limit filter _⟩
  fused e w query limit filter weights fusion maxScan hln := by
    refine Act.sat_mono (query_spec query limit filter weights fusion cap maxScan) ?_ (fun _ h => h)
    rintro found m' _ ⟨rfl, rfl⟩
    exact ⟨rfl, by rw [hdoc.textHits_eq hcap h hln]⟩

end Memory

/-! ## Runs under one cap -/

variable {e : Env}

/-- Keyword searches answer as the texts do, while the counters last. -/
def AnswersAt (s : IndexState) : Prop := s.memory.Countable s.cap → s.memory.AnswersBm25 s.cap

/-- They do in every state of a run. -/
def AnswersAlong (e : Env) : List LifeOp → IndexState → World → Prop
  | [], s, _ => AnswersAt s
  | op :: ops, s, w => AnswersAt s ∧ ((op = .reload → s.memory.Sized) →
    Act.Sat op.exec e s w (fun _ s' w' => s'.cap = s.cap ∧ AnswersAlong e ops s' w') (fun _ => True))

/-- A run keeps the texts indexed. -/
theorem run_answers : ∀ {ops : List LifeOp} {s : IndexState} {w : World}, 0 < s.cap →
    s.memory.Documented s.cap → s.memory.Placed → (∀ op ∈ ops, op.OneCap ∧ op.Parsed) →
    AnswersAlong e ops s w
  | [], _, _, hcap, hdoc, _, _ => hdoc.answersBm25 hcap
  | op :: ops, s, w, hcap, hdoc, hplaced, hops => by
    refine ⟨hdoc.answersBm25 hcap, fun hsized => ?_⟩
    obtain ⟨hop, hparsed⟩ := hops op List.mem_cons_self
    refine Act.sat_mono (exec_placed op hcap hdoc hplaced hop hparsed hsized) ?_ (fun _ h => h)
    rintro _ s' w' ⟨hsame, hdoc', hplaced'⟩
    rw [← hsame] at hcap hdoc'
    exact ⟨hsame, run_answers hcap hdoc' hplaced' fun op' hop' => hops op' (List.mem_cons_of_mem _ hop')⟩

/-- **Keyword searches are BM25 over the texts** in every state of a run under one cap, whatever has been
added, replaced, removed, swept or reloaded before. -/
theorem answersAlong (e : Env) (w : World) (mode : Mode) (dim : Nat) (metric : Metric)
    (weights : Weights) (halfLife : Duration) (hdim : mode.storesVectors = true → 1 ≤ dim) (cap : Nat)
    (hcap : 1 ≤ cap) (ops : List LifeOp) (hops : ∀ op ∈ ops, op.OneCap ∧ op.Parsed) :
    AnswersAlong e ops ⟨Memory.new
      { MemoryConfig.new mode dim metric with weights := weights, halfLife := halfLife }, cap⟩ w := by
  refine run_answers hcap (Memory.documented_new _ cap) (Memory.placed_new ?_) hops
  intro hstores
  have hstores : mode.storesVectors = true := hstores
  unfold MemoryConfig.new
  rw [if_pos hstores]
  exact hdim hstores

/-- A text is indexed, replaced and saved. -/
theorem answersAlong_replaced : AnswersAlong thirdsEnv
    [.index (addText "aa bb"), .index (addText "bb cc"), .reload] ⟨Memory.new
      { MemoryConfig.new .search 0 .cosine with weights := Weights.default, halfLife := 0 }, 2⟩ {} := by
  refine answersAlong thirdsEnv {} .search 0 .cosine Weights.default 0 (by decide) 2 (by decide) _ ?_
  intro op hop
  simp only [List.mem_cons, List.not_mem_nil, or_false] at hop
  rcases hop with rfl | rfl | rfl
  · exact ⟨trivial, fun values hv => by cases hv⟩
  · exact ⟨trivial, fun values hv => by cases hv⟩
  · exact ⟨trivial, trivial⟩

end Klyro
