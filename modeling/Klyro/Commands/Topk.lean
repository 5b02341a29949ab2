import Klyro.Commands.Memories
import Klyro.Types.Memory.Filtered
import Klyro.Types.Memory.Fusing

/-!
# TOPK caps the answer

* `Yields` — what a computation on an index answers at one instant, whatever the outside world has
  answered before.
* `hitsReply_yields` — the replies to the first hits are the first replies.
* `CapsAt` — an answer with a smaller TOPK is the front of the one with a larger.
* `topk_caps` — the keyword and the vector search always, the hybrid query where TOPK does not widen
  the candidate lists.
-/

set_option autoImplicit false

namespace Klyro

/-! ## Answers at one instant -/

section yields

variable {α β : Type} {e : Env} {m : Memory} {t : SystemTime} {a : α} {b : β}

/-- From wherever the outside world is, a computation answers `a` and leaves the index as it is. -/
def Yields (e : Env) (m : Memory) (run : Run Memory α) (a : α) : Prop :=
  ∀ w, Act.Sat run e m w (fun a' m' _ => a' = a ∧ m' = m) (fun _ => False)

theorem yields_pure (a : α) : Yields e m (pure a) a := fun _ => ⟨rfl, rfl⟩

theorem yields_bind {run : Run Memory α} {f : α → Run Memory β} (hrun : Yields e m run a)
    (hf : Yields e m (f a) b) : Yields e m (run >>= f) b := by
  intro w
  rw [Act.sat_bind]
  refine Act.sat_mono (hrun w) ?_ (fun _ h => h)
  rintro _ _ w' ⟨rfl, rfl⟩
  exact hf w'

theorem yields_get : Yields e m Act.get m := fun _ => ⟨rfl, rfl⟩

theorem yields_env : Yields e m env e := fun _ => ⟨rfl, rfl⟩

theorem yields_now (ht : e.StandsAt t) : Yields e m now t := fun w => ⟨ht w.ticks, rfl⟩

theorem yields_mapList {f : α → Run Memory β} {g : α → β} : ∀ {as : List α},
    (∀ a ∈ as, Yields e m (f a) (g a)) → Yields e m (Act.mapList f as) (as.map g)
  | [], _ => yields_pure []
  | a :: _, h => yields_bind (h a List.mem_cons_self)
      (yields_bind (yields_mapList fun a ha => h a (List.mem_cons_of_mem _ ha)) (yields_pure _))

end yields

namespace Memories

variable {e : Env} {m : Memory} {t : SystemTime} {config : Config}

/-! ## Replies -/

theorem recordReply_yields (ht : e.StandsAt t) (record : MemoryRecord) (returns : Returns) :
    ∃ fields, Yields e m (recordReply record returns) fields :=
  ⟨_, yields_bind (yields_bind (yields_now ht) (yields_bind yields_get (yields_pure _)))
    (yields_bind yields_get (yields_pure _))⟩

/-- A live hit has a reply. -/
theorem hitReply_yields (ht : e.StandsAt t) (returns : Returns) {hit : Hit}
    (hlive : (m.liveRecord hit.id t).isSome = true) :
    ∃ reply, Yields e m (hitReply returns hit) (some reply) := by
  obtain ⟨record, hrecord⟩ := Option.isSome_iff_exists.mp hlive
  obtain ⟨fields, hfields⟩ := recordReply_yields (m := m) ht record returns
  have hget : Yields e m (Memory.get hit.id) (some record) := by
    rw [← hrecord]
    exact yields_bind (yields_now ht) (yields_bind yields_get (yields_pure _))
  exact ⟨_, yields_bind hget (yields_bind hfields (yields_pure _))⟩

/-- **The replies to the first hits are the first replies.** -/
theorem hitsReply_yields (ht : e.StandsAt t) (returns : Returns) {hits : List Hit}
    (hlive : ∀ hit ∈ hits, (m.liveRecord hit.id t).isSome = true) :
    ∃ replies : List Reply, ∀ k, Yields e m (hitsReply hits k returns) (.array (replies.take k)) := by
  have hreply : ∀ hit, ∃ reply, hit ∈ hits → Yields e m (hitReply returns hit) (some reply) := by
    intro hit
    by_cases hmem : hit ∈ hits
    · obtain ⟨reply, h⟩ := hitReply_yields ht returns (hlive hit hmem)
      exact ⟨reply, fun _ => h⟩
    · exact ⟨.nil, fun h => absurd h hmem⟩
  choose reply hreply using hreply
  refine ⟨hits.map reply, fun k => ?_⟩
  have hfirst : ((hits.take k).map fun hit => some (reply hit)).filterMap id =
      (hits.map reply).take k := by
    rw [← List.map_take, List.filterMap_map, ← List.filterMap_eq_map]
    rfl
  rw [← hfirst]
  exact yields_bind (yields_mapList fun hit hmem => hreply hit (List.mem_of_mem_take hmem))
    (yields_pure _)

/-- The options with another TOPK, as `Retrieval::read` leaves them. -/
def Retrieval.capped (config : Config) (r : Retrieval) (k : Nat) : Retrieval :=
  { r with topk := k, candidates := Nat.max config.memMaxCandidates k }

/-- With TOPK `k` a retrieval answers the first `k` of what it answers with TOPK `k'`. -/
def CapsAt (e : Env) (m : Memory) (run : Nat → Run Memory (Except MemoryError Reply)) (k k' : Nat) :
    Prop :=
  ∃ whole : Except MemoryError (List Reply),
    Yields e m (run k') (whole.map fun replies => .array replies) ∧
      Yields e m (run k) (whole.map fun replies => .array (replies.take k))

/-- Where the hits are found once and for all, and those that count are handed on, TOPK cuts. -/
theorem answerHits_yields (ht : e.StandsAt t) (returns : Returns)
    {found : Except MemoryError (List Hit)}
    (hlive : ∀ hits, found = .ok hits → ∀ hit ∈ hits, (m.liveRecord hit.id t).isSome = true) :
    ∃ whole : Except MemoryError (List Reply),
      ∀ (o : Retrieval) (handed : Except MemoryError (List Hit)),
      o.returns = returns → handed.map (List.take o.topk) = found.map (List.take o.topk) →
      Yields e m (answerHits o handed) (whole.map fun replies => .array (replies.take o.topk)) := by
  cases found with
  | error refusal =>
    refine ⟨.error refusal, fun o handed _ hfirst => ?_⟩
    cases handed with
    | error refusal' =>
      cases hfirst
      exact yields_pure _
    | ok hits => cases hfirst
  | ok hits =>
    obtain ⟨replies, hreplies⟩ := hitsReply_yields ht returns (hlive hits rfl)
    refine ⟨.ok replies, fun o handed hreturns hfirst => ?_⟩
    cases handed with
    | error refusal => cases hfirst
    | ok hits' =>
      have hcut : hitsReply hits' o.topk o.returns = hitsReply hits o.topk returns := by
        unfold hitsReply
        rw [hreturns, Except.ok.inj hfirst]
      refine yields_bind ?_ (yields_pure _)
      rw [hcut]
      exact hreplies o.topk

/-- A command that answers the hits found, with one TOPK and with the other, caps its answer. -/
theorem capsAt_of_found (ht : e.StandsAt t) {k k' : Nat} (hkk : k ≤ k') (config : Config)
    (o : Retrieval) (found : Except MemoryError (List Hit))
    (hlive : ∀ hits, found = .ok hits → ∀ hit ∈ hits, (m.liveRecord hit.id t).isSome = true)
    {run : Nat → Run Memory (Except MemoryError Reply)}
    (hrun : ∀ j, j = k ∨ j = k' → ∃ handed : Except MemoryError (List Hit),
      handed.map (List.take j) = found.map (List.take j) ∧
        ∀ a, Yields e m (answerHits (o.capped config j) handed) a → Yields e m (run j) a) :
    CapsAt e m run k k' := by
  obtain ⟨whole, hwhole⟩ := answerHits_yields ht o.returns hlive
  refine ⟨whole.map (List.take k'), ?_, ?_⟩
  · obtain ⟨handed, hhanded, hj⟩ := hrun k' (.inr rfl)
    have hyields := hj _ (hwhole (o.capped config k') handed rfl hhanded)
    cases whole <;> exact hyields
  · obtain ⟨handed, hhanded, hj⟩ := hrun k (.inl rfl)
    have hyields := hj _ (hwhole (o.capped config k) handed rfl hhanded)
    cases whole with
    | error refusal => exact hyields
    | ok replies =>
      show Yields e m (run k) (.ok (.array ((replies.take k').take k)))
      rw [List.take_take, Nat.min_eq_left hkk]
      exact hyields

end Memories

/-! ## Every hit is live -/

theorem TextIndex.mem_ranking {ln : F32 → F32} {t : TextIndex} {terms : List Bytes}
    {keep : Bytes → Bool} {p : Bytes × F32} (h : p ∈ t.ranking ln terms keep) : keep p.1 = true := by
  unfold TextIndex.ranking at h
  split at h
  · cases h
  · have hempty : TextIndex.Restricts keep ∅ ∅ := fun id => by split <;> rfl
    have hscores : TextIndex.Restricts keep
        (terms.foldl (TextIndex.scoreTerm ln t t.avgDocLen keep) ∅)
        (terms.foldl (TextIndex.scoreTerm ln t t.avgDocLen fun _ => true) ∅) :=
      TextIndex.restricts_scores (fun _ _ => rfl) hempty terms
    have hp := Assoc.mem_pairs.mp (mem_sortBy.mp h)
    rw [hscores p.1] at hp
    by_contra hkeep
    rw [if_neg hkeep] at hp
    cases hp

/-- **A fused hit is a candidate of one of the lists.** -/
theorem fuse_ids {powf : F64 → F64 → F64} {keyword vector : List (Bytes × F32)}
    {lookup : Bytes → Option MemoryRecord} {weights : Weights} {fusion : Fusion}
    {halfLife : Duration} {t : SystemTime} {hit : Hit}
    (h : hit ∈ fuse powf keyword vector lookup weights fusion halfLife t) :
    hit.id ∈ keyword.map Prod.fst ∨ hit.id ∈ vector.map Prod.fst := by
  unfold fuse at h
  obtain ⟨⟨row, scores⟩, hrow, hhit⟩ := List.mem_filterMap.mp (mem_sortBy.mp h)
  obtain ⟨record, -, rfl⟩ := Option.map_eq_some_iff.mp hhit
  exact (fuseRows_ids keyword vector).2 _ (List.mem_map_of_mem (List.of_mem_zip hrow).1)

namespace Memory

variable {m : Memory} {filter : Filter} {t : SystemTime}

theorem admits_live {id : Bytes} (h : m.admits filter t id = true) :
    (m.liveRecord id t).isSome = true := by
  unfold admits at h
  unfold liveRecord
  cases hr : m.records.lookup id with
  | none => simp [hr] at h
  | some record =>
    rw [hr] at h
    unfold Filter.accepts at h
    rw [Option.any_some, Bool.and_eq_true] at h
    simp [Option.filter, h.1]

theorem mem_scored (hm : m.Keyed) {query : List F32} {p : Bytes × F32}
    (h : p ∈ m.scored query filter t) : m.admits filter t p.1 = true := by
  rw [scored_filter hm] at h
  exact (List.mem_filter.mp h).2

end Memory

/-! ## What the indexes hand on -/

namespace Memory

variable {e : Env} {m : Memory} {t : SystemTime} {filter : Filter}

/-- Everything a keyword search finds, or its refusal. -/
def textFound (m : Memory) (e : Env) (t : SystemTime) (query : Bytes) (filter : Filter)
    (maxTerms : Nat) : Except MemoryError (List (Bytes × F32)) :=
  if m.config.mode.indexesText then
    .ok (m.text.ranking e.ln (tokenize query maxTerms) (m.admits filter t))
  else .error .textNotSupported

/-- Everything a vector search finds, or its refusal. -/
def vectorFound (m : Memory) (t : SystemTime) (query : List F32) (filter : Filter) (maxScan : Nat) :
    Except MemoryError (List (Bytes × F32)) :=
  if !m.config.mode.storesVectors then .error .vectorsNotSupported
  else if query.length ≠ m.config.dim then
    .error (.vector (.wrongDimension m.config.dim query.length))
  else if maxScan < m.vectors.scanCost then .error (.tooLargeToScan m.vectors.scanCost maxScan)
  else .ok (sortBy TextIndex.cmpHits (m.scored query filter t))

theorem searchText_yields (ht : e.StandsAt t) (query : Bytes) (limit : Nat) (maxTerms : Nat) :
    Yields e m (searchText query limit filter maxTerms)
      ((m.textFound e t query filter maxTerms).map (List.take limit)) := by
  unfold searchText textFound
  refine yields_bind yields_get ?_
  by_cases hmode : m.config.mode.indexesText = true
  · rw [if_pos hmode, if_neg (by simp [hmode])]
    refine yields_bind (yields_now ht) (yields_bind yields_env ?_)
    have hsearch := TextIndex.search_eq e.ln m.text (tokenize query maxTerms) limit
      (m.admits filter t)
    exact (congrArg (Yields e m _) (congrArg Except.ok hsearch)).mp (yields_pure _)
  · rw [if_neg hmode, if_pos (by simp [hmode])]
    exact yields_pure _

theorem searchVector_yields (ht : e.StandsAt t) (query : List F32) (limit : Nat) (maxScan : Nat) :
    Yields e m (searchVector query limit filter maxScan)
      ((m.vectorFound t query filter maxScan).map (List.take limit)) := by
  unfold searchVector vectorFound
  refine yields_bind yields_get ?_
  split
  · exact yields_pure _
  · split
    · exact yields_pure _
    · split
      · exact yields_pure _
      · exact yields_bind (yields_now ht) (yields_pure _)

theorem textFound_admits {query : Bytes} {maxTerms : Nat} {found : List (Bytes × F32)}
    (h : m.textFound e t query filter maxTerms = .ok found) :
    ∀ p ∈ found, m.admits filter t p.1 = true := by
  unfold textFound at h
  split at h
  · cases h
    exact fun p hp => TextIndex.mem_ranking hp
  · cases h

theorem vectorFound_admits (hm : m.Keyed) {query : List F32} {maxScan : Nat}
    {found : List (Bytes × F32)} (h : m.vectorFound t query filter maxScan = .ok found) :
    ∀ p ∈ found, m.admits filter t p.1 = true := by
  unfold vectorFound at h
  split at h
  · cases h
  · split at h
    · cases h
    · split at h
      · cases h
      · cases h
        exact fun p hp => mem_scored hm (mem_sortBy.mp hp)

/-- The fusion of the candidates, or the first refusal. -/
def fusedFound (m : Memory) (e : Env) (t : SystemTime) (weights : Weights) (fusion : Fusion)
    (keyword vector : Except MemoryError (List (Bytes × F32))) : Except MemoryError (List Hit) :=
  keyword.bind fun keyword => vector.bind fun vector =>
    Except.ok (fuse e.powf keyword vector (fun id => m.records.lookup id) weights fusion
      m.config.halfLife t)

theorem queryRest_yields (ht : e.StandsAt t) (keyword : List (Bytes × F32))
    (vector : Option (List F32)) (limit : Nat) (weights : Weights) (fusion : Fusion)
    (maxScan : Nat) :
    Yields e m (queryRest keyword vector limit filter weights fusion maxScan)
      (m.fusedFound e t weights fusion (.ok keyword)
        ((vector.elim (.ok []) fun query => m.vectorFound t query filter maxScan).map
          (List.take limit))) := by
  have hfuse : ∀ found, Yields e m (now >>= fun t => env >>= fun e => Act.get >>= fun m =>
      pure (.ok (fuse e.powf keyword found (fun id => m.records.lookup id) weights fusion
        m.config.halfLife t))) (m.fusedFound e t weights fusion (.ok keyword) (.ok found)) :=
    fun found => yields_bind (yields_now ht) (yields_bind yields_env (yields_bind yields_get
      (yields_pure _)))
  unfold queryRest
  cases vector with
  | none =>
    show Yields e m _ (m.fusedFound e t weights fusion (.ok keyword) (.ok (List.take limit [])))
    rw [List.take_nil]
    exact yields_bind (a := Except.ok []) (yields_pure _) (hfuse [])
  | some query =>
    refine yields_bind (searchVector_yields ht query limit maxScan) ?_
    dsimp only [Option.elim_some]
    cases m.vectorFound t query filter maxScan with
    | error refusal => exact yields_pure _
    | ok found => exact hfuse _

/-- **A query fuses the first candidates of each index.** -/
theorem query_yields (ht : e.StandsAt t) (text : Option Bytes) (vector : Option (List F32))
    (limit : Nat) (weights : Weights) (fusion : Fusion) (maxTerms maxScan : Nat) :
    Yields e m (query text vector limit filter weights fusion maxTerms maxScan)
      (m.fusedFound e t weights fusion
        ((text.elim (.ok []) fun query => m.textFound e t query filter maxTerms).map
          (List.take limit))
        ((vector.elim (.ok []) fun query => m.vectorFound t query filter maxScan).map
          (List.take limit))) := by
  unfold query
  cases text with
  | none =>
    refine yields_bind (a := Except.ok []) (yields_pure _) ?_
    dsimp only [Option.elim_none, Except.map]
    rw [List.take_nil]
    exact queryRest_yields ht _ vector limit weights fusion maxScan
  | some query =>
    refine yields_bind (searchText_yields ht query limit maxTerms) ?_
    dsimp only [Option.elim_some]
    cases m.textFound e t query filter maxTerms with
    | error refusal => exact yields_pure _
    | ok found => exact queryRest_yields ht _ vector limit weights fusion maxScan

variable {keyword vector : Except MemoryError (List (Bytes × F32))} {weights : Weights}
  {fusion : Fusion}

theorem mem_take_found {α ε : Type} {found : Except ε (List α)} {n : Nat} {as : List α}
    (h : found.map (List.take n) = .ok as) {a : α} (ha : a ∈ as) :
    ∃ all, found = .ok all ∧ a ∈ all := by
  cases found with
  | error refusal => cases h
  | ok all =>
    cases h
    exact ⟨all, rfl, List.mem_of_mem_take ha⟩

theorem map_take_enough {α ε : Type} {found : Except ε (List α)} {n n' : Nat}
    (h : ∀ as, found = .ok as → as.length ≤ n) (hn : n ≤ n') :
    found.map (List.take n') = found.map (List.take n) := by
  cases found with
  | error refusal => rfl
  | ok as =>
    show Except.ok (as.take n') = Except.ok (as.take n)
    rw [List.take_of_length_le (h as rfl), List.take_of_length_le ((h as rfl).trans hn)]

/-- Every fused hit is live where every candidate is admitted. -/
theorem fusedFound_live (hkeyword : ∀ found, keyword = .ok found →
      ∀ p ∈ found, m.admits filter t p.1 = true)
    (hvector : ∀ found, vector = .ok found → ∀ p ∈ found, m.admits filter t p.1 = true)
    {hits : List Hit} (h : m.fusedFound e t weights fusion keyword vector = .ok hits) :
    ∀ hit ∈ hits, (m.liveRecord hit.id t).isSome = true := by
  intro hit hhit
  cases keyword with
  | error refusal => cases h
  | ok keyword =>
    cases vector with
    | error refusal => cases h
    | ok vector =>
      cases h
      rcases fuse_ids hhit with hid | hid
      · obtain ⟨p, hp, hpid⟩ := List.mem_map.mp hid
        rw [← hpid]
        exact admits_live (hkeyword _ rfl p hp)
      · obtain ⟨p, hp, hpid⟩ := List.mem_map.mp hid
        rw [← hpid]
        exact admits_live (hvector _ rfl p hp)

end Memory

/-! ## The commands -/

namespace Memories

variable {e : Env} {m : Memory} {t : SystemTime} {k k' : Nat}

/-- One index: what it finds is cut to the candidates, and TOPK cuts again. -/
theorem capsAt_of_search (ht : e.StandsAt t) (hkk : k ≤ k') (config : Config) (o : Retrieval)
    {found : Except MemoryError (List (Bytes × F32))}
    (hadmits : ∀ list, found = .ok list → ∀ p ∈ list, m.admits o.filter t p.1 = true)
    {hitOf : Bytes × F32 → Hit} (hid : ∀ p, (hitOf p).id = p.1)
    {run : Nat → Run Memory (Except MemoryError Reply)}
    (hrun : ∀ j a, Yields e m (answerHits (o.capped config j)
      ((found.map (List.take (Nat.max config.memMaxCandidates j))).map (List.map hitOf))) a →
        Yields e m (run j) a) :
    CapsAt e m run k k' := by
  refine capsAt_of_found ht hkk config o (found.map (List.map hitOf)) ?_ fun j _ => ?_
  · intro hits hhits hit hmem
    cases found with
    | error refusal => cases hhits
    | ok list =>
      cases hhits
      obtain ⟨p, hp, rfl⟩ := List.mem_map.mp hmem
      rw [hid]
      exact Memory.admits_live (hadmits list rfl p hp)
  · refine ⟨_, ?_, hrun j⟩
    cases found with
    | error refusal => rfl
    | ok list =>
      refine congrArg Except.ok ?_
      show ((list.take _).map hitOf).take j = (list.map hitOf).take j
      rw [← List.map_take, ← List.map_take, List.take_take, Nat.min_eq_left (Nat.le_max_right _ j)]

theorem searchIndex_caps (ht : e.StandsAt t) (hkk : k ≤ k') (config : Config) (query : Bytes)
    (o : Retrieval) :
    CapsAt e m (fun j => searchIndex config query (o.capped config j)) k k' :=
  capsAt_of_search ht hkk config o (fun _ hfound => Memory.textFound_admits hfound)
    (fun _ => rfl) fun _ _ ha => yields_bind (Memory.searchText_yields ht query _ _) ha

theorem vsearchIndex_caps (hm : m.Keyed) (ht : e.StandsAt t) (hkk : k ≤ k') (config : Config)
    (vector : List F32) (o : Retrieval) :
    CapsAt e m (fun j => vsearchIndex config vector (o.capped config j)) k k' :=
  capsAt_of_search ht hkk config o (fun _ hfound => Memory.vectorFound_admits hm hfound)
    (fun _ => rfl) fun _ _ ha =>
      yields_bind yields_get (yields_bind (Memory.searchVector_yields ht _ _ _) ha)

/-- The options of a hybrid query with another TOPK. -/
def QueryOptions.capped (config : Config) (o : QueryOptions) (k : Nat) : QueryOptions :=
  { o with retrieval := o.retrieval.capped config k }

/-- Everything the keyword index finds for a query; without a text, nothing. -/
def QueryOptions.keywordFound (config : Config) (o : QueryOptions) (m : Memory) (e : Env)
    (t : SystemTime) : Except MemoryError (List (Bytes × F32)) :=
  o.text.elim (.ok []) fun query =>
    m.textFound e t query o.retrieval.filter config.memMaxTermsPerDoc

/-- Everything the vector index finds for a query; without a vector, nothing. -/
def QueryOptions.vectorFound (config : Config) (o : QueryOptions) (m : Memory) (t : SystemTime) :
    Except MemoryError (List (Bytes × F32)) :=
  (o.vector.map m.vectors.prepare).elim (.ok []) fun query =>
    m.vectorFound t query o.retrieval.filter config.memMaxScan

/-- With TOPK `k'` a query fuses no more candidates than with TOPK `k`: the limit of the configuration
is no smaller, or neither index finds more. -/
def SameCandidates (config : Config) (o : QueryOptions) (m : Memory) (e : Env) (t : SystemTime)
    (k k' : Nat) : Prop :=
  k' ≤ Nat.max config.memMaxCandidates k ∨
    ((∀ list, o.keywordFound config m e t = .ok list →
        list.length ≤ Nat.max config.memMaxCandidates k) ∧
      ∀ list, o.vectorFound config m t = .ok list → list.length ≤ Nat.max config.memMaxCandidates k)

/-- What a query finds with TOPK `k`. -/
def QueryOptions.found (config : Config) (o : QueryOptions) (m : Memory) (e : Env) (t : SystemTime)
    (k : Nat) : Except MemoryError (List Hit) :=
  m.fusedFound e t (o.weights.getD m.config.weights) o.fusion
    ((o.keywordFound config m e t).map (List.take (Nat.max config.memMaxCandidates k)))
    ((o.vectorFound config m t).map (List.take (Nat.max config.memMaxCandidates k)))

theorem SameCandidates.found_eq {config : Config} {o : QueryOptions}
    (h : SameCandidates config o m e t k k') (hkk : k ≤ k') :
    o.found config m e t k' = o.found config m e t k := by
  unfold QueryOptions.found
  rcases h with hlimit | ⟨hkeyword, hvector⟩
  · have hsame : Nat.max config.memMaxCandidates k' = Nat.max config.memMaxCandidates k :=
      Nat.le_antisymm (Nat.max_le.mpr ⟨Nat.le_max_left _ _, hlimit⟩)
        (Nat.max_le.mpr ⟨Nat.le_max_left _ _, hkk.trans (Nat.le_max_right _ _)⟩)
    rw [hsame]
  · have hwide : Nat.max config.memMaxCandidates k ≤ Nat.max config.memMaxCandidates k' :=
      Nat.max_le.mpr ⟨Nat.le_max_left _ _, hkk.trans (Nat.le_max_right _ _)⟩
    rw [Memory.map_take_enough hkeyword hwide, Memory.map_take_enough hvector hwide]

theorem queryIndex_caps (hm : m.Keyed) (ht : e.StandsAt t) (hkk : k ≤ k') (config : Config)
    (o : QueryOptions) (hsame : SameCandidates config o m e t k k') :
    CapsAt e m (fun j => queryIndex config (o.capped config j)) k k' := by
  have hkeyword : ∀ list, o.keywordFound config m e t = .ok list →
      ∀ p ∈ list, m.admits o.retrieval.filter t p.1 = true := by
    unfold QueryOptions.keywordFound
    cases o.text with
    | none => exact fun list hlist p hp => by cases hlist; cases hp
    | some query => exact fun list => Memory.textFound_admits
  have hvector : ∀ list, o.vectorFound config m t = .ok list →
      ∀ p ∈ list, m.admits o.retrieval.filter t p.1 = true := by
    unfold QueryOptions.vectorFound
    cases o.vector with
    | none => exact fun list hlist p hp => by cases hlist; cases hp
    | some query => exact fun list => Memory.vectorFound_admits hm
  refine capsAt_of_found ht hkk config o.retrieval (o.found config m e t k) ?_ ?_
  · intro hits hhits
    have hkept : ∀ {list : Except MemoryError (List (Bytes × F32))} {n : Nat},
        (∀ all, list = .ok all → ∀ p ∈ all, m.admits o.retrieval.filter t p.1 = true) →
        ∀ some, list.map (List.take n) = .ok some →
          ∀ p ∈ some, m.admits o.retrieval.filter t p.1 = true := by
      intro list n hlist some hsome p hp
      obtain ⟨all, hall, hmem⟩ := Memory.mem_take_found hsome hp
      exact hlist all hall p hmem
    exact Memory.fusedFound_live (hkept hkeyword) (hkept hvector) hhits
  · intro j hj
    refine ⟨o.found config m e t j, ?_, fun a ha => ?_⟩
    · rcases hj with rfl | rfl
      · rfl
      · rw [hsame.found_eq hkk]
    · exact yields_bind yields_get (yields_bind (Memory.query_yields ht _ _ _ _ _ _ _) ha)

/-- **TOPK caps the answer without changing the ranking.**  Reading TOPK sets the cap and widens the
candidates to it.  At one instant the keyword and the vector search answer with TOPK `k` the front of
what they answer with a larger TOPK; so does the hybrid query where the larger TOPK brings no further
candidates into the fusion. -/
theorem topk_caps (m : Memory) (hm : m.Keyed) (e : Env) (t : SystemTime) (ht : e.StandsAt t)
    (config : Config) (k k' : Nat) (hkk : k ≤ k') :
    (∀ (o : Retrieval) (word : Bytes) (n : Nat) (rest : List Bytes),
      intArg word = pure (n : Int) → 1 ≤ n → n ≤ config.memMaxTopk →
        o.read config (Text.bytes "TOPK" :: word :: rest) = pure (o.capped config n, rest)) ∧
    (∀ (query : Bytes) (o : Retrieval),
      CapsAt e m (fun j => searchIndex config query (o.capped config j)) k k') ∧
    (∀ (vector : List F32) (o : Retrieval),
      CapsAt e m (fun j => vsearchIndex config vector (o.capped config j)) k k') ∧
    (∀ o : QueryOptions, SameCandidates config o m e t k k' →
      CapsAt e m (fun j => queryIndex config (o.capped config j)) k k') := by
  refine ⟨fun o word n rest hword hn hcap => ?_, searchIndex_caps ht hkk config,
    vsearchIndex_caps hm ht hkk config, queryIndex_caps hm ht hkk config⟩
  have hrefused : ¬ ((n : Int) < 1 ∨ config.memMaxTopk < (n : Int).toNat) := by
    rw [Int.toNat_natCast]
    omega
  rw [Retrieval.read, if_pos (by decide)]
  simp only [value, pure_bind, hword, if_neg hrefused]
  rfl

theorem topk_caps_fox :
    (∀ (o : Retrieval) (word : Bytes) (n : Nat) (rest : List Bytes),
      intArg word = pure (n : Int) → 1 ≤ n → n ≤ Config.memMaxTopk {} →
        o.read {} (Text.bytes "TOPK" :: word :: rest) = pure (o.capped {} n, rest)) ∧
    (∀ (query : Bytes) (o : Retrieval),
      CapsAt (stillEnv 5) Memory.oneFox (fun j => searchIndex {} query (o.capped {} j)) 1 2) ∧
    (∀ (vector : List F32) (o : Retrieval),
      CapsAt (stillEnv 5) Memory.oneFox (fun j => vsearchIndex {} vector (o.capped {} j)) 1 2) ∧
    (∀ o : QueryOptions, SameCandidates {} o Memory.oneFox (stillEnv 5) 5 1 2 →
      CapsAt (stillEnv 5) Memory.oneFox (fun j => queryIndex {} (o.capped {} j)) 1 2) :=
  topk_caps Memory.oneFox Memory.oneFox_keyed (stillEnv 5) 5 (fun _ => rfl) {} 1 2 (by decide)

/-! ## A larger TOPK brings in a better record -/

/-- Two records: the nearer one does not matter, the farther one does. -/
def nearAndDear : Memory where
  config := MemoryConfig.new .vector 1 .l2
  records := ((∅ : Assoc Bytes MemoryRecord).insert [97]
      { MemoryRecord.new [97] [] 0 with slot := some 0, importance := lit "0" }).insert [98]
      { MemoryRecord.new [98] [] 0 with slot := some 1, importance := lit "1" }
  vectors := { dim := 1, metric := .l2, data := [lit "0", lit "1"], live := 2 }

theorem nearAndDear_keyed : nearAndDear.Keyed := by
  intro id r hr
  simp only [nearAndDear, Assoc.lookup_insert_eq] at hr
  split at hr
  · cases hr
    exact ‹id = [98]›.symm
  · split at hr
    · cases hr
      exact ‹id = [97]›.symm
    · cases hr

/-- One candidate, or as many as TOPK asks for. -/
def oneCandidate : Config := { memMaxCandidates := 1, memMaxTopk := 2 }

/-- Rank by importance. -/
def byImportance : QueryOptions where
  retrieval := .new oneCandidate
  vector := some [lit "0"]
  weights := some ⟨lit "0", lit "0", lit "0", lit "1"⟩

/-- The first reply. -/
def leader : Except MemoryError Reply → Option Reply
  | .ok (.array replies) => replies.head?
  | _ => none

/-- The id in a reply. -/
def idOf : Reply → Option Bytes
  | .map ((_, .bulk id) :: _) => some id
  | _ => none

/-- The id in the first reply of a run. -/
def leads (e : Env) (m : Memory) (run : Run Memory (Except MemoryError Reply)) : Option Bytes :=
  match run e m {} with
  | .done answer _ _ => (leader answer).bind idOf
  | .panicked _ => none

theorem leads_eq {run : Run Memory (Except MemoryError Reply)} {answer : Except MemoryError Reply}
    (h : Yields e m run answer) : leads e m run = (leader answer).bind idOf := by
  have hrun := h {}
  unfold Act.Sat at hrun
  unfold leads
  cases hend : run e m {} with
  | done answer' m' w' =>
    rw [hend] at hrun
    rw [hrun.1]
  | panicked p =>
    rw [hend] at hrun
    exact hrun.elim

section reorders

-- a concrete run is not to be evaluated while a statement about it is elaborated
attribute [local irreducible] Yields

/-- A larger TOPK may change the ranking of a hybrid query. -/
theorem query_topk_reorders : ¬ ∀ (m : Memory), m.Keyed → ∀ (e : Env) (t : SystemTime), e.StandsAt t →
    ∀ (config : Config) (o : QueryOptions) (k k' : Nat), 1 ≤ k → k ≤ k' → k' ≤ config.memMaxTopk →
      CapsAt e m (fun j => queryIndex config (o.capped config j)) k k' := by
  intro h
  obtain ⟨whole, hwide, hnarrow⟩ := h nearAndDear nearAndDear_keyed (stillEnv 5) 5 (fun _ => rfl)
    oneCandidate byImportance 1 2 (by decide) (by decide) (by decide)
  have hlead : leader (whole.map fun replies => .array (replies.take 1)) =
      leader (whole.map fun replies => .array replies) := by
    cases whole with
    | error refusal => rfl
    | ok replies => exact List.head?_take.trans (if_neg Nat.one_ne_zero)
  have hfirst : leads (stillEnv 5) nearAndDear
        (queryIndex oneCandidate (byImportance.capped oneCandidate 1)) =
      leads (stillEnv 5) nearAndDear
        (queryIndex oneCandidate (byImportance.capped oneCandidate 2)) := by
    rw [leads_eq hnarrow, leads_eq hwide, hlead]
  exact absurd hfirst (by decide +kernel)

end reorders

end Memories

end Klyro
