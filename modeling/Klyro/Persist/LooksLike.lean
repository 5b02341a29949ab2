import Klyro.Persist.Copied
import Klyro.Types.Memory.Sortable
import Klyro.Types.Memory.Tokens

/-!
# Copies that look like the index

* `Memory.LooksLike` — a keyword search under the cap and the counts do not tell two indexes apart.
* `copied_looksLike` — a copy of an index none of whose texts has been cut short looks like it.
* `looksLike_terms` — and it does not where a term beyond the cap is in no other place of its text.
* `clone_looksLike` — over every run under one cap.
-/

set_option autoImplicit false

namespace Klyro

open TextIndex

namespace Memory

variable {m m' : Memory} {e : Env} {w : World} {cap : Nat} {id : Bytes}

/-! ## Searches that agree -/

/-- Both indexes give the same answer, and neither is changed. -/
def Agree {α : Type} (e : Env) (w : World) (m m' : Memory) (search : Run Memory α) : Prop :=
  ∃ found, Act.Sat search e m w (fun r s _ => r = found ∧ s = m) (fun _ => False) ∧
    Act.Sat search e m' w (fun r s _ => r = found ∧ s = m') (fun _ => False)

/-- What `search_text` finds. -/
def textHits (m : Memory) (ln : F32 → F32) (query : Bytes) (limit : Nat) (filter : Filter) (cap : Nat)
    (t : SystemTime) : Except MemoryError (List (Bytes × F32)) :=
  if m.config.mode.indexesText then
    .ok (m.text.search ln (tokenize query cap) limit (m.admits filter t))
  else .error .textNotSupported

theorem searchText_spec (query : Bytes) (limit : Nat) (filter : Filter) (cap : Nat) :
    Act.Sat (searchText query limit filter cap) e m w (fun r m' w' =>
      r = m.textHits e.ln query limit filter cap (e.clock w.ticks) ∧ m' = m ∧
        w' = if m.config.mode.indexesText then { w with ticks := w.ticks + 1 } else w)
      (fun _ => False) := by
  unfold searchText textHits
  by_cases hmode : m.config.mode.indexesText = true
  · simp only [Act.sat_bind, Act.sat_get, hmode, Bool.not_true, Bool.false_eq_true, if_false, sat_now,
      sat_env, Act.sat_pure, if_true]
    exact ⟨rfl, trivial, trivial⟩
  · rw [Bool.not_eq_true] at hmode
    simp only [Act.sat_bind, Act.sat_get, hmode, Bool.not_false, if_true, Act.sat_pure,
      Bool.false_eq_true, if_false]
    exact ⟨trivial, trivial, trivial⟩

variable {query : Bytes} {limit : Nat} {filter : Filter} {t : SystemTime}

theorem Agree.hits (h : Agree e w m m' (searchText query limit filter cap)) :
    m.textHits e.ln query limit filter cap (e.clock w.ticks) =
      m'.textHits e.ln query limit filter cap (e.clock w.ticks) := by
  obtain ⟨found, hm, hm'⟩ := h
  have hspec := Act.sat_and hm (searchText_spec query limit filter cap)
  have hspec' := Act.sat_and hm' (searchText_spec query limit filter cap)
  obtain ⟨_, _, _, -, ⟨rfl, -⟩, hr, -⟩ :=
    Act.exists_of_sat (Act.sat_mono hspec (fun _ _ _ h => h) fun _ h => h.1)
  obtain ⟨_, _, _, -, ⟨rfl, -⟩, hr', -⟩ :=
    Act.exists_of_sat (Act.sat_mono hspec' (fun _ _ _ h => h) fun _ h => h.1)
  exact hr.symm.trans hr'

/-- **Alike indexes find the same**, where the filter admits the same ids. -/
theorem textHits_eq (hmode : m'.config.mode = m.config.mode) (halike : m.text.Alike m'.text)
    (hb : m.text.Bounded) (hln : Grows e.ln)
    (hadmits : ∀ id, m'.admits filter t id = m.admits filter t id) (cap : Nat) :
    m'.textHits e.ln query limit filter cap t = m.textHits e.ln query limit filter cap t := by
  have hkeep : m'.admits filter t = m.admits filter t := funext hadmits
  unfold textHits
  rw [hmode, hkeep, halike.search hln hb]

/-- A fusion reads of a record when it was updated and how important it is. -/
theorem fuse_congr {powf : F64 → F64 → F64} {keyword vector : List (Bytes × F32)}
    {lookup lookup' : Bytes → Option MemoryRecord} (h : ∀ id,
      (lookup' id).map (fun r => (r.updatedAt, r.importance)) =
        (lookup id).map fun r => (r.updatedAt, r.importance)) (weights : Weights) (fusion : Fusion)
    (halfLife : Duration) (now : SystemTime) :
    fuse powf keyword vector lookup' weights fusion halfLife now =
      fuse powf keyword vector lookup weights fusion halfLife now := by
  rw [fuse_sorts, fuse_sorts]
  unfold fuseHits
  refine congrArg _ (List.filterMap_congr fun p _ => ?_)
  have hread := h p.1.id
  cases hl : lookup p.1.id with
  | none =>
    rw [hl, Option.map_none, Option.map_eq_none_iff] at hread
    rw [hread]
  | some r =>
    rw [hl, Option.map_some] at hread
    obtain ⟨r', hr', heq⟩ := Option.map_eq_some_iff.mp hread
    obtain ⟨hupdated, himportance⟩ := Prod.mk.inj heq
    rw [hr', Option.map_some, Option.map_some, hupdated, himportance]

/-- **A keyword search under the cap does not tell the indexes apart**, fused or not, and neither do
their counts. -/
structure LooksLike (cap : Nat) (m copy : Memory) : Prop where
  hits : ∀ (e : Env) (w : World) (query : Bytes) (limit : Nat) (filter : Filter), Grows e.ln →
    Agree e w m copy (searchText query limit filter cap)
  fused : ∀ (e : Env) (w : World) (text : Bytes) (limit : Nat) (filter : Filter) (weights : Weights)
    (fusion : Fusion) (maxScan : Nat), Grows e.ln →
    Agree e w m copy (Memory.query (some text) none limit filter weights fusion cap maxScan)
  len : copy.len = m.len
  vectorCount : copy.vectors.live = m.vectors.live
  termCount : copy.text.termCount = m.text.termCount
  avgDocLen : copy.text.avgDocLen = m.text.avgDocLen
  nextId : copy.nextId = m.nextId

/-- No text has been cut short by the cap. -/
def Uncut (m : Memory) (cap : Nat) : Prop := m.config.mode.indexesText = true →
  ∀ id r, m.records.lookup id = some r → (allTerms r.text).length ≤ cap

/-- What a text search of a query makes of the world. -/
theorem query_spec (text : Bytes) (limit : Nat) (filter : Filter) (weights : Weights) (fusion : Fusion)
    (cap maxScan : Nat) :
    Act.Sat (Memory.query (some text) none limit filter weights fusion cap maxScan) e m w
      (fun r m' _ => m' = m ∧ r = (m.textHits e.ln text limit filter cap (e.clock w.ticks)).map
        fun hits => fuse e.powf hits [] (fun id => m.records.lookup id) weights fusion m.config.halfLife
          (e.clock (w.ticks + 1))) (fun _ => False) := by
  unfold Memory.query
  rw [Act.sat_bind]
  refine Act.sat_mono (searchText_spec text limit filter cap) ?_ (fun _ h => h)
  rintro found m' w' ⟨rfl, rfl, rfl⟩
  unfold textHits
  by_cases hmode : m'.config.mode.indexesText = true
  · rw [if_pos hmode, if_pos hmode]
    unfold queryRest
    simp only [Act.sat_bind, Act.sat_pure, sat_now, sat_env, Act.sat_get]
    exact ⟨trivial, rfl⟩
  · rw [if_neg hmode, if_neg hmode]
    exact ⟨rfl, rfl⟩

section looksLike

variable {t' : SystemTime}

/-- The keyword index of a copy is alike where no text has been cut short. -/
theorem copied_alike (hdoc : m.Documented cap) (hcap : cap ≤ u64Max) (h : m.Unexpired t)
    (h' : m.Unexpired t') (huncut : m.Uncut cap) : m.text.Alike (m.copied t t').text := by
  have hcopy : (m.copied t t').Documented u64Max := copied_documented hdoc.keyed
  have hconfig := copied_config m t t'
  by_cases hmode : m.config.mode.indexesText = true
  · obtain ⟨docs, hcounted, hdocs⟩ := hdoc.indexed hmode
    obtain ⟨docs', hcounted', hdocs'⟩ := hcopy.indexed (by rw [hconfig]; exact hmode)
    refine alike_of_counted hcounted hcounted' (fun id => ?_) fun id text htext => ?_
    · have hsame := congrArg (Option.map MemoryRecord.text) (lookup_copied hdoc.keyed h h' id)
      rw [Option.map_map, Option.map_map] at hsame
      exact (hdocs id).trans (hsame.symm.trans (hdocs' id).symm)
    · rw [hdocs id] at htext
      obtain ⟨r, hr, rfl⟩ := Option.map_eq_some_iff.mp htext
      have hlen := huncut hmode id r hr
      unfold firstTerms
      rw [List.take_of_length_le hlen, List.take_of_length_le (hlen.trans hcap)]
  · rw [Bool.not_eq_true] at hmode
    rw [hdoc.textless hmode, hcopy.textless (by rw [hconfig]; exact hmode)]
    exact alike_of_counted (counted_empty cap) (counted_empty cap) (fun _ => rfl) fun _ _ _ => rfl

/-- The counters of the keyword index are bounded. -/
theorem Documented.bounded (h : m.Documented cap) (hsize : m.records.size ≤ u64Max) :
    m.text.Bounded := by
  by_cases hmode : m.config.mode.indexesText = true
  · obtain ⟨docs, hcounted, hdocs⟩ := h.indexed hmode
    refine bounded_of_counted hcounted ?_
    have hkeys : docs.size = m.records.size := Assoc.size_of_keys fun id => by
      rw [hdocs id, Option.isSome_map]
    rw [hkeys]
    exact hsize
  · rw [Bool.not_eq_true] at hmode
    rw [h.textless hmode]
    exact bounded_of_counted (counted_empty cap) (Nat.zero_le _)

/-- **A copy looks like the index**, where no text has been cut short. -/
theorem copied_looksLike (hdoc : m.Documented cap) (hplaced : m.Placed) (hcap : cap ≤ u64Max)
    (hsize : m.records.size ≤ u64Max) (h : m.Unexpired t) (h' : m.Unexpired t') (huncut : m.Uncut cap)
    (hnext : m.nextId ≠ 0) : LooksLike cap m (m.copied t t') := by
  have halike := copied_alike hdoc hcap h h' huncut
  have hbounded := hdoc.bounded hsize
  have hconfig := copied_config m t t'
  have hmode : (m.copied t t').config.mode = m.config.mode := by rw [hconfig]
  have hrecords := lookup_copied hdoc.keyed h h'
  have hadmits : ∀ (filter : Filter) (t₀ : SystemTime) (id : Bytes),
      (m.copied t t').admits filter t₀ id = m.admits filter t₀ id := by
    intro filter t₀ id
    have hsame := congrArg (fun r => r.any fun r => filter.accepts r t₀) (hrecords id)
    simp only [Option.any_map, accepts_unslotted] at hsame
    exact hsame
  have hread : ∀ id, ((m.copied t t').records.lookup id).map (fun r => (r.updatedAt, r.importance)) =
      (m.records.lookup id).map fun r => (r.updatedAt, r.importance) := by
    intro id
    have hsame := congrArg (Option.map fun r => (r.updatedAt, r.importance)) (hrecords id)
    rw [Option.map_map, Option.map_map] at hsame
    exact hsame
  refine ⟨?_, ?_, ?_, copied_live hplaced h h', halike.termCount.symm, halike.avgDocLen.symm, ?_⟩
  · intro e w query limit filter hln
    have hsame : (m.copied t t').textHits e.ln query limit filter cap (e.clock w.ticks) =
        m.textHits e.ln query limit filter cap (e.clock w.ticks) :=
      textHits_eq hmode halike hbounded hln (hadmits filter _) cap
    refine ⟨m.textHits e.ln query limit filter cap (e.clock w.ticks), ?_, ?_⟩
    · exact Act.sat_mono (searchText_spec query limit filter cap) (fun _ _ _ h => ⟨h.1, h.2.1⟩)
        (fun _ h => h)
    · refine Act.sat_mono (searchText_spec query limit filter cap) ?_ (fun _ h => h)
      rintro _ _ _ ⟨rfl, rfl, -⟩
      exact ⟨hsame, rfl⟩
  · intro e w text limit filter weights fusion maxScan hln
    have hsame : (m.copied t t').textHits e.ln text limit filter cap (e.clock w.ticks) =
        m.textHits e.ln text limit filter cap (e.clock w.ticks) :=
      textHits_eq hmode halike hbounded hln (hadmits filter _) cap
    refine ⟨_, Act.sat_mono (query_spec text limit filter weights fusion cap maxScan)
      (fun _ _ _ h => ⟨h.2, h.1⟩) (fun _ h => h), ?_⟩
    refine Act.sat_mono (query_spec text limit filter weights fusion cap maxScan) ?_ (fun _ h => h)
    rintro _ _ _ ⟨rfl, rfl⟩
    rw [hsame, hconfig]
    exact ⟨congrArg (fun f => (m.textHits e.ln text limit filter cap (e.clock w.ticks)).map f)
      (funext fun hits => fuse_congr hread weights fusion m.config.halfLife _), rfl⟩
  · refine Assoc.size_of_keys fun id => ?_
    have hsame := congrArg Option.isSome (hrecords id)
    rwa [Option.isSome_map, Option.isSome_map] at hsame
  · show Nat.max m.nextId 1 = m.nextId
    exact Nat.max_eq_left (Nat.pos_of_ne_zero hnext)

/-- **A copy that looks like the index** shows that every term of a text is among those that the cap let
through. -/
theorem looksLike_terms (hdoc : m.Documented cap) (hcap : 0 < cap) (hsize : m.records.size ≤ u64Max)
    (h : m.Unexpired t) (h' : m.Unexpired t') (hepoch : 0 ≤ t)
    (hlooks : LooksLike cap m (m.copied t t')) (hmode : m.config.mode.indexesText = true)
    (htotal : (m.copied t t').text.totalLen ≠ 0) {r : MemoryRecord}
    (hr : m.records.lookup id = some r) {term : Bytes} (hterm : term ∈ firstTerms r.text u64Max) :
    term ∈ firstTerms r.text cap := by
  have hcopy : (m.copied t t').Documented u64Max := copied_documented hdoc.keyed
  have hconfig := copied_config m t t'
  obtain ⟨docs, hcounted, hdocs⟩ := hdoc.indexed hmode
  obtain ⟨docs', hcounted', hdocs'⟩ := hcopy.indexed (by rw [hconfig]; exact hmode)
  -- the copy lists the document under the term
  have hsame := lookup_copied hdoc.keyed h h' id
  rw [hr, Option.map_some] at hsame
  obtain ⟨r', hr', heq⟩ := Option.map_eq_some_iff.mp hsame
  have htext : r'.text = r.text := (congrArg MemoryRecord.text heq :)
  have hlook : docs'.lookup id = some r.text := by rw [hdocs' id, hr', Option.map_some, htext]
  have hposted : (m.copied t t').text.Posted term id :=
    posted_iff.mpr ⟨_, (hcounted'.posted term id _).mpr ⟨r.text, hlook, hterm, rfl⟩⟩
  have hbounded : (m.copied t t').text.Bounded := hcopy.bounded (hlooks.len.trans_le hsize)
  have hdocLen : (m.copied t t').text.docLen.size ≠ 0 := by
    have hone := Assoc.length_le_size (m := (m.copied t t').text.docLen) (List.nodup_singleton id)
      fun k hk => by
        rw [List.mem_singleton.mp hk, hcounted'.docLen, hlook]
        rfl
    rw [List.length_singleton] at hone
    omega
  have havg := avgDocLen_pos hbounded htotal hdocLen
  rw [← feq_zero (nonneg_avgDocLen hbounded)] at havg
  have hadmits : (m.copied t t').admits [] t id = true := by
    unfold admits
    rw [hr']
    exact (accepts_unslotted [] r' t).symm.trans
      (heq ▸ (accepts_unslotted [] r t).trans (by simp [Filter.accepts, h id r hr]))
  obtain ⟨e, hclock, hln⟩ : ∃ e : Env, (∀ i, e.clock i = t) ∧ Grows e.ln :=
    ⟨Env.ofClock (fun _ => t) fun _ => hepoch, fun _ => rfl, grows_id⟩
  obtain ⟨score, hscore⟩ : ∃ score, (id, score) ∈ (m.copied t t').text.ranking e.ln [term]
      ((m.copied t t').admits [] t) := mem_ranking_of_posted hposted hadmits havg
  -- so a search of the term finds it in the copy, and in the index
  have hquery : tokenize term cap = [term] := by
    unfold firstTerms at hterm
    rw [allTerms_eq] at hterm
    obtain ⟨hsignificant, hbytes⟩ := mem_terms (List.mem_of_mem_take hterm)
    rw [tokenize_eq_firstTerms hcap, firstTerms, allTerms_eq, terms_term hsignificant hbytes,
      List.take_of_length_le hcap]
  have hhits := (hlooks.hits e {} term ((m.copied t t').text.ranking e.ln [term]
    ((m.copied t t').admits [] t)).length [] hln).hits
  unfold textHits at hhits
  rw [hconfig, if_pos hmode, if_pos hmode, hquery, hclock] at hhits
  have hfound := Except.ok.inj hhits
  rw [search_eq e.ln (m.copied t t').text, List.take_length] at hfound
  obtain ⟨⟨found, hin, hlisted⟩, -⟩ := search_posted (hfound.symm ▸ hscore)
  rw [List.mem_singleton] at hin
  subst hin
  obtain ⟨tf, hentry⟩ := posted_iff.mp hlisted
  obtain ⟨text, hold, hfirst, -⟩ := (hcounted.posted found id tf).mp hentry
  rw [hdocs id, hr, Option.map_some, Option.some.injEq] at hold
  exact hold ▸ hfirst

end looksLike

/-- **What a copy is to the index.** -/
structure CopyLooks (cap : Nat) (m copy : Memory) : Prop where
  looks : m.Uncut cap → m.nextId ≠ 0 → LooksLike cap m copy
  numbered : LooksLike cap m copy → m.nextId ≠ 0
  terms : LooksLike cap m copy → m.config.mode.indexesText = true → copy.text.totalLen ≠ 0 →
    ∀ id r, m.records.lookup id = some r → ∀ term ∈ firstTerms r.text u64Max,
      term ∈ firstTerms r.text cap

/-- A copy of an index of which no record has expired. -/
theorem clone_looks (hdoc : m.Documented cap) (hplaced : m.Placed) (hcap : 0 < cap) (hmax : cap ≤ u64Max)
    (hsize : m.records.size ≤ u64Max) (h : m.Unexpired (e.clock w.ticks))
    (h' : m.Unexpired (e.clock (w.ticks + 1))) :
    Act.Sat clone e m w (fun copy m' _ => m' = m ∧ CopyLooks cap m copy) (fun _ => False) := by
  refine Act.sat_mono (clone_spec hplaced) ?_ (fun _ h => h)
  rintro copy m' _ ⟨rfl, rfl⟩
  refine ⟨rfl, copied_looksLike hdoc hplaced hmax hsize h h', fun hlooks hzero => ?_, ?_⟩
  · have hnext : Nat.max m'.nextId 1 = m'.nextId := hlooks.nextId
    rw [hzero] at hnext
    cases hnext
  · intro hlooks hmode htotal id r hr term hterm
    exact looksLike_terms hdoc hcap hsize h h' (e.epoch _) hlooks hmode htotal hr hterm

end Memory

/-! ## Runs under one cap -/

variable {e : Env} {s : IndexState} {w : World}

/-- The step indexes under the cap in force, a reload too. -/
def LifeOp.OneCap : LifeOp → Prop
  | .index op => op.OneCap
  | .reload => True

instance (op : LifeOp) : Decidable op.OneCap := by
  cases op <;> unfold LifeOp.OneCap <;> infer_instance

/-- A copy of the index looks like it, where no record has expired. -/
def CopyLooksAt (e : Env) (s : IndexState) (w : World) : Prop :=
  s.memory.records.size ≤ u64Max → s.memory.Unexpired (e.clock w.ticks) →
    s.memory.Unexpired (e.clock (w.ticks + 1)) →
    Act.Sat Memory.clone e s.memory w
      (fun copy m' _ => m' = s.memory ∧ Memory.CopyLooks s.cap s.memory copy) (fun _ => False)

/-- It does in every state of a run. -/
def CopyLooksAlong (e : Env) : List LifeOp → IndexState → World → Prop
  | [], s, w => CopyLooksAt e s w
  | op :: ops, s, w => CopyLooksAt e s w ∧ ((op = .reload → s.memory.Sized) →
    Act.Sat op.exec e s w (fun _ s' w' => s'.cap = s.cap ∧ CopyLooksAlong e ops s' w') (fun _ => True))

/-- **One step** under the cap keeps the texts indexed and the slots owned. -/
theorem exec_placed (op : LifeOp) (hcap : 0 < s.cap) (hdoc : s.memory.Documented s.cap)
    (hplaced : s.memory.Placed) (hop : op.OneCap) (hparsed : op.Parsed)
    (hsized : op = .reload → s.memory.Sized) :
    Act.Sat op.exec e s w (fun _ s' _ => s'.cap = s.cap ∧ s'.memory.Documented s.cap ∧ s'.memory.Placed)
      (fun _ => True) := by
  cases op with
  | reload =>
    unfold LifeOp.exec onIndex
    rw [Act.sat_bind, Act.sat_get, Act.sat_bind, Act.sat_zoom]
    refine Act.sat_mono (Memory.sat_reload (hplaced.written (hsized rfl)) s.cap) ?_ (fun _ _ => trivial)
    rintro _ m' w' ⟨rfl, rfl, -⟩
    exact ⟨rfl, Memory.rebuilt_documented hplaced.keyed hcap _ _,
      Memory.rebuilt_placed hplaced (hsized rfl) _ _⟩
  | index op =>
    have hdocs := (Memory.keptBy_documented (e := e) hcap).exec (w := w) hdoc hop fun _ _ _ => trivial
    rcases hplaced with hslotted | hbare
    · refine Act.sat_mono (Act.sat_and hdocs (exec_slotted (.index op) hslotted hparsed nofun)) ?_
        (fun _ _ => trivial)
      rintro _ s' w' ⟨⟨hsame, hdoc'⟩, hslotted', -⟩
      exact ⟨hsame, hdoc', .inl hslotted'⟩
    · have hbares := (Memory.keptBy_bare e s.cap).exec (w := w) hbare hop fun _ _ _ => trivial
      refine Act.sat_mono (Act.sat_and hdocs hbares) ?_ (fun _ _ => trivial)
      rintro _ s' w' ⟨⟨hsame, hdoc'⟩, -, hbare'⟩
      exact ⟨hsame, hdoc', .inr hbare'⟩

/-- A run keeps them. -/
theorem run_copyLooks : ∀ {ops : List LifeOp} {s : IndexState} {w : World}, 0 < s.cap → s.cap ≤ u64Max →
    s.memory.Documented s.cap → s.memory.Placed → (∀ op ∈ ops, op.OneCap ∧ op.Parsed) →
    CopyLooksAlong e ops s w
  | [], _, _, hcap, hmax, hdoc, hplaced, _ => fun hsize h h' =>
    Memory.clone_looks hdoc hplaced hcap hmax hsize h h'
  | op :: ops, s, w, hcap, hmax, hdoc, hplaced, hops => by
    refine ⟨fun hsize h h' => Memory.clone_looks hdoc hplaced hcap hmax hsize h h', fun hsized => ?_⟩
    obtain ⟨hop, hparsed⟩ := hops op List.mem_cons_self
    refine Act.sat_mono (exec_placed op hcap hdoc hplaced hop hparsed hsized) ?_ (fun _ h => h)
    rintro _ s' w' ⟨hsame, hdoc', hplaced'⟩
    rw [← hsame] at hcap hmax hdoc'
    exact ⟨hsame, run_copyLooks hcap hmax hdoc' hplaced'
      fun op' hop' => hops op' (List.mem_cons_of_mem _ hop')⟩

/-- **Copies look like the index** in every state of a run under one cap, where no text is longer than
the cap and the counter has not come back to zero. -/
theorem copyLooksAlong (e : Env) (w : World) (mode : Mode) (dim : Nat) (metric : Metric)
    (weights : Weights) (halfLife : Duration) (hdim : mode.storesVectors = true → 1 ≤ dim) (cap : Nat) (hcap : 1 ≤ cap)
    (hmax : cap ≤ u64Max) (ops : List LifeOp) (hops : ∀ op ∈ ops, op.OneCap ∧ op.Parsed) :
    CopyLooksAlong e ops ⟨Memory.new
      { MemoryConfig.new mode dim metric with weights := weights, halfLife := halfLife }, cap⟩ w := by
  refine run_copyLooks hcap hmax (Memory.documented_new _ cap) (Memory.placed_new ?_) hops
  intro hstores
  have hstores : mode.storesVectors = true := hstores
  have hone := hdim hstores
  unfold MemoryConfig.new
  rw [if_pos hstores]
  exact hone

/-- Surroundings in which `ln` gives what it gives of four thirds, the odds of a term that the only
document has. -/
def thirdsEnv : Env := { stillEnv 0 with ln := fun _ => lit "0.2876821" }

theorem signal_thirds : IsSignal (lit "0.2876821") :=
  ⟨⟨by decide +kernel, fun h => absurd h (by decide +kernel)⟩, by decide +kernel⟩

section instances

attribute [local irreducible] Act.Sat

theorem copyLooksAlong_one : Grows thirdsEnv.ln ∧
    (Mode.search.storesVectors = true → 1 ≤ 0) ∧ 1 ≤ 2 ∧ 2 ≤ u64Max ∧
    (∀ op ∈ [LifeOp.index (addText "aa bb"), .reload], op.OneCap ∧ op.Parsed) ∧
    CopyLooksAlong thirdsEnv [.index (addText "aa bb"), .reload] ⟨Memory.new
      { MemoryConfig.new .search 0 .cosine with weights := Weights.default, halfLife := 0 }, 2⟩ {} := by
  have hdim : Mode.search.storesVectors = true → 1 ≤ 0 := by decide
  have hops : ∀ op ∈ [LifeOp.index (addText "aa bb"), .reload], op.OneCap ∧ op.Parsed := by
    intro op hop
    simp only [List.mem_cons, List.not_mem_nil, or_false] at hop
    rcases hop with rfl | rfl
    · exact ⟨trivial, fun values hv => by cases hv⟩
    · exact ⟨trivial, trivial⟩
  exact ⟨fun _ _ _ => signal_thirds, hdim, by decide, by decide, hops,
    copyLooksAlong thirdsEnv {} .search 0 .cosine Weights.default 0 hdim 2 (by decide) (by decide) _ hops⟩

/-- The record `d` has two terms, of which the cap lets one through: in the copy it is found under the
other one too. -/
theorem copy_longer :
    Act.Sat (Act.forList LifeOp.exec [.index (addText "aa bb")]) (stillEnv 0)
      ⟨Memory.new searchConfig, 1⟩ {}
      (fun _ s w' => s.memory.Unexpired 0 ∧ Act.Sat Memory.clone (stillEnv 0) s.memory w'
        (fun copy _ _ => ¬ Memory.LooksLike 1 s.memory copy) (fun _ => False))
      (fun _ => False) := by
  have hrun : Act.Sat (Act.forList LifeOp.exec [.index (addText "aa bb")]) (stillEnv 0)
      ⟨Memory.new searchConfig, 1⟩ {}
      (fun _ s w' => (∀ p ∈ s.memory.records.pairs, p.2.isLive 0 = true) ∧
        s.memory.text.termCount = 1 ∧ Act.Sat Memory.clone (stillEnv 0) s.memory w'
          (fun copy _ _ => copy.text.termCount = 2) (fun _ => False)) (fun _ => False) := by
    decide +kernel
  refine Act.sat_mono hrun ?_ (fun _ h => h)
  rintro _ s w' ⟨hlive, hone, hcopy⟩
  refine ⟨fun id r hr => hlive (id, r) (Assoc.mem_pairs.mpr hr), Act.sat_mono hcopy ?_ (fun _ h => h)⟩
  intro copy _ _ htwo hlooks
  have hsame := hlooks.termCount
  rw [hone, htwo] at hsame
  cases hsame

end instances

end Klyro
