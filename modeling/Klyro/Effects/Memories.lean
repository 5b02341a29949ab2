import Klyro.Commands.Keeps
import Klyro.Commands.Memories

/-!
# What the memory index commands write

* `sat_index` — what `index` does with the key it looks up twice.
* `clone_mild`, `add_mild` … — the operations on an index read the clock and panic only for a
  size.
* `Memories.keeps` — every memory command writes the keys the key table names.
-/

set_option autoImplicit false

namespace Klyro

open Keyspace

/-! ## Operations on an index -/

namespace Memory

theorem insert_mild (values : List F32) : Mild (VectorIndex.insert values) := by
  refine mild_bind (mild_bind mild_get fun v => ?_) fun slot => ?_
  · split
    · exact mild_bind (mild_modify _) fun _ => mild_pure _
    · refine mild_ite (mild_panic fun _ h => by cases h) ?_
      refine mild_bind (mild_modify _) fun _ => mild_ite ?_ (mild_pure _)
      exact mild_panic fun _ h => by cases h
  · refine mild_bind (mild_modify _) fun _ => mild_bind (mild_bind mild_get fun v => ?_) fun _ =>
      mild_pure _
    exact mild_ite (mild_modify _) (mild_panic fun _ h => by cases h)

theorem overwrite_mild (slot : Nat) (values : List F32) : Mild (VectorIndex.overwrite slot values) :=
  mild_bind mild_get fun _ => mild_ite (mild_modify _) (mild_panic fun _ h => by cases h)

theorem loadRecord_mild (record : MemoryRecord) (vector : Option (List F32)) (maxTerms : Nat) :
    Mild (loadRecord record vector maxTerms) := by
  refine mild_bind (mild_modify _) fun _ => mild_bind mild_get fun m => ?_
  have hend : ∀ slot : Option Nat, Mild (Act.modify fun m : Memory =>
      { m with records := m.records.insert record.id { record with slot := slot } }) :=
    fun _ => mild_modify _
  cases vector with
  | none => exact mild_bind (mild_pure _) hend
  | some values =>
    refine mild_ite ?_ (mild_bind (mild_pure _) hend)
    exact mild_bind (mild_zoom (insert_mild values)) fun _ => mild_bind (mild_pure _) hend

theorem recordsForDump_peeks : Peeks recordsForDump :=
  peeks_bind peeks_now fun _ => peeks_bind (peeks_bind peeks_now fun _ =>
    peeks_bind peeks_get fun _ => peeks_pure _) fun _ => peeks_bind peeks_get fun _ => peeks_pure _

theorem clone_mild : Mild clone := by
  refine mild_bind recordsForDump_peeks.mild fun records => mild_bind mild_get fun m => ?_
  refine mild_zoom (mild_bind (mild_forList (fun p => loadRecord_mild _ _ _) _) fun _ => ?_)
  exact mild_bind mild_get fun _ => mild_pure _

section durations

attribute [local irreducible] addDuration

theorem addChecked_mild (request : AddRequest) (id : Bytes) (t : SystemTime) (maxTerms : Nat) :
    Mild (addChecked request id t maxTerms) := by
  have hplace : ∀ record, Mild (placeVector record request.vector) := by
    intro record
    unfold placeVector
    cases request.vector with
    | none => exact mild_pure _
    | some values =>
      dsimp only
      cases record.slot with
      | none => exact mild_bind (mild_zoom (insert_mild values)) fun _ => mild_pure _
      | some slot => exact mild_bind (mild_zoom (overwrite_mild slot values)) fun _ => mild_pure _
  have hend : ∀ (previous : Option Bytes) (record : MemoryRecord), Mild (do
      let updated ← placeVector record request.vector
      Act.modify fun m =>
        { m with
          text := if m.config.mode.indexesText then m.text.index id previous updated.text maxTerms
            else m.text
          records := m.records.insert id updated }) :=
    fun _ record => mild_bind (hplace record) fun _ => mild_modify _
  refine mild_bind mild_get fun m => ?_
  cases request.ttl with
  | none => exact mild_bind (mild_pure _) fun _ => hend _ _
  | some ttl =>
    exact mild_bind (mild_addDuration t ttl) fun _ => mild_bind (mild_pure _) fun _ => hend _ _

theorem add_mild (request : AddRequest) (maxTerms maxRecords : Nat) :
    Mild (add request maxTerms maxRecords) := by
  refine mild_bind mild_now fun t => mild_bind ?_ fun id => mild_bind mild_get fun m => ?_
  · cases request.id with
    | none => exact mild_state _
    | some id => exact mild_pure _
  · split
    · exact mild_pure _
    · exact mild_bind (addChecked_mild _ _ _ _) fun _ => mild_pure _

theorem onLive_mild {α : Type} (id : Bytes)
    (f : SystemTime → MemoryRecord → Run Memory (α × MemoryRecord)) (hf : ∀ t r, Mild (f t r)) :
    Mild (onLive id f) := by
  refine mild_bind mild_now fun t => mild_bind mild_get fun m => ?_
  split
  · exact mild_pure _
  · exact mild_bind (hf _ _) fun _ => mild_bind (mild_modify _) fun _ => mild_pure _

theorem setRecordTtl_mild (id : Bytes) (ttl : Option Duration) : Mild (setRecordTtl id ttl) := by
  refine onLive_mild _ _ fun t r => ?_
  cases ttl with
  | none => exact mild_pure _
  | some d => exact mild_bind (mild_addDuration _ _) fun _ => mild_pure _

end durations

end Memory

/-! ## Options -/

namespace Memories

theorem isError_describe (error : MemoryError) : (describe error).isError = true := by
  cases error <;> rfl

theorem orDescribe_fixed {α : Type} : ∀ r : Except MemoryError α, Fixed (orDescribe r)
  | .ok a => fixed_pure a
  | .error e => fixed_throw (isError_describe e)

theorem values_fixed (n : Nat) (words : List Bytes) : Fixed (values n words) :=
  fixed_ite (fixed_throw rfl) (fixed_pure _)

theorem value_fixed : ∀ words, Fixed (value words)
  | [] => fixed_throw rfl
  | _ :: _ => fixed_pure _

theorem readFloats_fixed (words : List Bytes) : Fixed (readFloats words) := by
  induction words with
  | nil => exact fixed_pure _
  | cons word words ih =>
    exact fixed_bind (fixed_floatArg _) fun _ => fixed_guard (isError_describe _) <|
      fixed_bind ih fun _ => fixed_pure _

theorem readVector_fixed : ∀ words, Fixed (readVector words)
  | [] => fixed_pure _
  | word :: rest => by
    refine fixed_ite (fixed_bind (value_fixed rest) fun blob => ?_) (fixed_ite ?_ (fixed_pure _))
    · split
      · exact fixed_pure _
      · exact fixed_throw (isError_describe _)
    · refine fixed_bind (value_fixed rest) fun head => fixed_bind (fixed_intArg _) fun count => ?_
      refine fixed_guard rfl (fixed_bind (values_fixed _ _) fun words => ?_)
      exact fixed_bind (readFloats_fixed _) fun _ => fixed_pure _

theorem readFilterClause_fixed : ∀ words, Fixed (readFilterClause words)
  | [] => fixed_pure _
  | word :: rest => by
    refine fixed_ite (fixed_bind (values_fixed 3 rest) fun words => ?_) (fixed_pure _)
    split
    · exact fixed_pure _
    · exact fixed_throw rfl

theorem retrievalRead_fixed (config : Config) (r : Retrieval) : ∀ words, Fixed (r.read config words)
  | [] => fixed_pure _
  | word :: rest => by
    refine fixed_ite (fixed_bind (value_fixed rest) fun head => ?_) ?_
    · exact fixed_bind (fixed_intArg _) fun _ => fixed_guard rfl (fixed_pure _)
    · cases r.returns.read word with
      | some returns => exact fixed_pure _
      | none =>
        refine fixed_bind (readFilterClause_fixed _) fun clause => ?_
        cases clause with
        | some clause => exact fixed_pure _
        | none => exact fixed_throw rfl

theorem readWeights_fixed (words : List Bytes) : Fixed (readWeights words) :=
  fixed_bind (fixed_floatArg _) fun _ => fixed_bind (fixed_floatArg _) fun _ =>
    fixed_bind (fixed_floatArg _) fun _ => fixed_bind (fixed_floatArg _) fun _ => fixed_pure _

theorem createOptions_fixed (config : Config) (fuel : Nat) : ∀ words o,
    Fixed (createOptions config fuel words o) := by
  induction fuel with
  | zero => exact fun _ _ => fixed_pure _
  | succ fuel ih =>
    intro words o
    cases words with
    | nil => exact fixed_pure _
    | cons word rest =>
      unfold createOptions
      refine fixed_ite (fixed_bind (value_fixed rest) fun _ => fixed_bind (fixed_orThrow rfl _)
        fun _ => ih _ _) (fixed_ite (fixed_bind (value_fixed rest) fun _ =>
        fixed_bind (fixed_intArg _) fun _ => fixed_guard rfl (ih _ _)) (fixed_ite
        (fixed_bind (value_fixed rest) fun _ => fixed_bind (fixed_orThrow rfl _) fun _ => ih _ _)
        (fixed_ite (fixed_bind (values_fixed _ _) fun _ => fixed_bind (readWeights_fixed _)
          fun _ => ih _ _) (fixed_ite ?_ (fixed_throw rfl)))))
      exact fixed_bind (value_fixed rest) fun _ => fixed_bind (fixed_intArg _) fun _ =>
        fixed_guard rfl (ih _ _)

theorem createConfig_fixed (o : CreateOptions) : Fixed (createConfig o) := by
  unfold createConfig
  refine fixed_guard rfl ?_
  refine fixed_guard rfl ?_
  exact fixed_guard rfl (fixed_pure _)

theorem configOptions_fixed (fuel : Nat) : ∀ words o, Fixed (configOptions fuel words o) := by
  induction fuel with
  | zero => exact fun _ _ => fixed_pure _
  | succ fuel ih =>
    intro words o
    cases words with
    | nil => exact fixed_pure _
    | cons word rest =>
      unfold configOptions
      refine fixed_ite (fixed_bind (values_fixed _ _) fun _ => fixed_bind (readWeights_fixed _)
        fun _ => fixed_guard rfl (ih _ _)) (fixed_ite ?_ (fixed_throw rfl))
      exact fixed_bind (value_fixed rest) fun _ => fixed_bind (fixed_intArg _) fun _ =>
        fixed_guard rfl (ih _ _)

theorem addOptions_fixed (config : Config) (fuel : Nat) : ∀ words o,
    Fixed (addOptions config fuel words o) := by
  induction fuel with
  | zero => exact fun _ _ => fixed_pure _
  | succ fuel ih =>
    intro words o
    obtain ⟨r, hasText⟩ := o
    cases words with
    | nil => exact fixed_pure _
    | cons word rest =>
      unfold addOptions
      refine fixed_ite (fixed_bind (value_fixed rest) fun _ => ih _ _)
        (fixed_ite (fixed_bind (value_fixed rest) fun _ => fixed_guard rfl (ih _ _))
        (fixed_ite (fixed_bind (values_fixed _ _) fun _ => ih _ _)
        (fixed_ite (fixed_bind (value_fixed rest) fun _ => fixed_bind (fixed_floatArg _) fun _ =>
          fixed_guard rfl (ih _ _))
        (fixed_ite (fixed_bind (value_fixed rest) fun _ => fixed_bind (fixed_intArg _) fun _ =>
          fixed_guard rfl (ih _ _))
        (fixed_ite (ih _ _) (fixed_ite (ih _ _) (fixed_bind (readVector_fixed _) fun vector => ?_)))))))
      cases vector with
      | some found => exact ih _ _
      | none => exact fixed_throw rfl

theorem getFlags_fixed (words : List Bytes) : ∀ returns, Fixed (getFlags words returns) := by
  induction words with
  | nil => exact fun _ => fixed_pure _
  | cons word words ih =>
    intro returns
    unfold getFlags
    split
    · exact ih _
    · exact fixed_throw rfl

theorem scanOptions_fixed (fuel : Nat) : ∀ words o, Fixed (scanOptions fuel words o) := by
  induction fuel with
  | zero => exact fun _ _ => fixed_pure _
  | succ fuel ih =>
    intro words o
    cases words with
    | nil => exact fixed_pure _
    | cons word rest =>
      unfold scanOptions
      refine fixed_ite (fixed_bind (value_fixed rest) fun _ => fixed_bind (fixed_intArg _) fun _ =>
        fixed_guard rfl (ih _ _)) (fixed_bind (readFilterClause_fixed _) fun clause => ?_)
      cases clause with
      | some found => exact ih _ _
      | none => exact fixed_throw rfl

theorem searchOptions_fixed (config : Config) (fuel : Nat) : ∀ words o,
    Fixed (searchOptions config fuel words o) := by
  induction fuel with
  | zero => exact fun _ _ => fixed_pure _
  | succ fuel ih =>
    intro words o
    cases words with
    | nil => exact fixed_pure _
    | cons word rest => exact fixed_bind (retrievalRead_fixed _ _ _) fun _ => ih _ _

theorem vsearchOptions_fixed (config : Config) (fuel : Nat) : ∀ words o,
    Fixed (vsearchOptions config fuel words o) := by
  induction fuel with
  | zero => exact fun _ _ => fixed_pure _
  | succ fuel ih =>
    intro words o
    cases words with
    | nil => exact fixed_pure _
    | cons word rest =>
      refine fixed_bind (readVector_fixed _) fun vector => ?_
      cases vector with
      | some found => exact ih _ _
      | none => exact fixed_bind (retrievalRead_fixed _ _ _) fun _ => ih _ _

theorem queryOptions_fixed (config : Config) (fuel : Nat) : ∀ words o,
    Fixed (queryOptions config fuel words o) := by
  induction fuel with
  | zero => exact fun _ _ => fixed_pure _
  | succ fuel ih =>
    intro words o
    cases words with
    | nil => exact fixed_pure _
    | cons word rest =>
      unfold queryOptions
      refine fixed_ite (fixed_bind (value_fixed rest) fun _ => ih _ _)
        (fixed_ite (fixed_bind (values_fixed _ _) fun _ => fixed_bind (readWeights_fixed _)
          fun _ => fixed_guard rfl (ih _ _))
        (fixed_ite (fixed_bind (value_fixed rest) fun _ => fixed_bind (fixed_orThrow rfl _)
          fun _ => ih _ _) (fixed_bind (readVector_fixed _) fun vector => ?_)))
      cases vector with
      | some found => exact ih _ _
      | none => exact fixed_bind (retrievalRead_fixed _ _ _) fun _ => ih _ _

/-! ## The lookup -/

variable {α : Type} {W : Bytes → Prop} {key : Bytes} {argv : List Bytes} {use : Run Memory α}

/-- **What `index` does.**  It looks the key up twice: when an index found by the first lookup is
due at the second, its `expect` fails. -/
theorem sat_index {e : Env} {s : Store} {w : World} {Q : α → Store → World → Prop}
    {E : Reply → Store → World → Prop} {R : Panic → Prop} (hR : ∀ p, Store.OutOfRange s p → R p)
    (hearly : ∀ r s' w', r.isError = true → Quiet e s w s' w' →
      (∀ m d, s.view.liveAt (e.clock w.ticks) key ≠ some (.memory m, d)) → E r s' w')
    (hgone : ∀ m d, s.view.liveAt (e.clock w.ticks) key = some (.memory m, d) →
      due (e.clock (w.ticks + 1)) (some (.memory m, d)) = true → R (.expect "type checked"))
    (huse : ∀ m d s₁ w₁, Store.Later 2 w w₁ →
      s.view.liveAt (e.clock w.ticks) key = some (.memory m, d) →
      due (e.clock (w.ticks + 1)) (some (.memory m, d)) = false →
      s₁.view = s.view → (s.Indexed → s₁.Indexed) →
      Act.Sat use e m w₁ (fun a m' w' => Q a (Store.setValue key (.memory m') s₁) w') R) :
    Act.SatE (index key use) e s w Q E R := by
  unfold index
  simp only [Act.satE_bind, Act.satE_lift]
  refine Act.sat_mono (Store.peekType_spec key) ?_ hR
  rintro found s₁ w₁ ⟨hw₁, rfl, hview₁, hidx₁⟩
  have hR₁ : ∀ p, Store.OutOfRange s₁ p → R p := fun p h => hR p (h.of_indexed hidx₁)
  have hq : Quiet e s w s₁ w₁ := .of_expire hw₁ hview₁ hidx₁
  have hother : (∀ m d, s.view.liveAt (e.clock w.ticks) key ≠ some (.memory m, d)) →
      ∀ r : Reply, r.isError = true → E r s₁ w₁ := fun hno r hr => hearly r s₁ w₁ hr hq hno
  rcases hlive : s.view.liveAt (e.clock w.ticks) key with _ | ⟨x, d⟩
  · exact hother (by simp [hlive]) _ rfl
  · cases x with
    | memory m =>
      have hview : s₁.view = s.view := by
        rw [hview₁]
        refine expire_of_not_due ?_
        by_contra hdue
        rw [Bool.not_eq_false] at hdue
        rw [liveAt, hdue] at hlive
        cases hlive
      have hkey : s₁.view key = some (.memory m, d) := by rw [hview₁, expire_self, hlive]
      show Act.SatE (liftM (Store.existingMemory key use) >>= expect "type checked") e s₁ w₁ Q E R
      rw [Act.satE_bind, Act.satE_lift]
      refine Store.sat_existingMemory hR₁ ?_ ?_
      · intro s₂ w₂ _ hno _ _
        refine hgone m d hlive ?_
        by_contra hdue
        rw [Bool.not_eq_true] at hdue
        refine hno m d ?_
        rw [liveAt, hkey, hw₁.ticks, hdue]
        rfl
      · intro m' d' s₂ w₂ hw₂ hlive₂ hview₂ hidx₂
        unfold liveAt at hlive₂
        split at hlive₂
        · cases hlive₂
        rename_i hdue
        rw [hkey] at hlive₂ hdue
        cases hlive₂
        rw [hw₁.ticks, Bool.not_eq_true] at hdue
        refine huse m d s₂ w₂ (hw₁.trans hw₂) hlive hdue ?_ fun h => hidx₂ (hidx₁ h)
        rw [hview₂, ← hview]
        refine expire_of_not_due ?_
        rw [hkey, hw₁.ticks]
        exact hdue
    | str _ => exact hother (by simp [hlive]) _ rfl
    | list _ => exact hother (by simp [hlive]) _ rfl
    | hash _ => exact hother (by simp [hlive]) _ rfl
    | set _ => exact hother (by simp [hlive]) _ rfl
    | zset _ => exact hother (by simp [hlive]) _ rfl

theorem view_of_liveAt {K : Keyspace} {t : SystemTime} {x : Value × Option SystemTime}
    (h : K.liveAt t key = some x) : K key = some x := by
  unfold liveAt at h
  split at h
  · cases h
  · exact h

theorem index_keeps (hW : W key) (huse : Mild use) : Keeps W (index key use) := by
  intro e s w
  refine sat_index (fun _ h => allowed_of_outOfRange h) ?_ (fun _ _ _ _ h => by cases h) ?_
  · exact fun r s' w' hr hq _ => ⟨hr, .of_quiet hq, hq.shy⟩
  · intro m d s₁ w₁ hw₁ hlive _ hview hidx
    refine Act.sat_mono (huse e m w₁) ?_ (fun _ h => h.allowed)
    intro a m' w' hw'
    have hview' : (Store.setValue key (.memory m') s₁).view =
        Function.update s.view key (some (.memory m', d)) := by
      rw [Store.view_setValue, hview, view_of_liveAt hlive]
      rfl
    have hlater : w.ticks ≤ w'.ticks := by
      have := hw₁.ticks
      omega
    refine ⟨⟨hlater, fun k hk => .inl ?_, fun h => (hidx h).setValue, fun hn k x d' hx => ?_⟩,
      .of_update hview' fun v d' hv => ?_⟩
    · rw [hview', Function.update_of_ne]
      rintro rfl
      exact hk hW
    · rw [hview'] at hx
      by_cases hk : k = key
      · subst hk
        rw [Function.update_self] at hx
        cases hx
        rfl
      · rw [Function.update_of_ne hk] at hx
        exact hn k x d' hx
    · cases hv
      rintro (h | h) <;> cases h

theorem index_peeks (huse : Peeks use) : Keeps W (index key use) := by
  intro e s w
  refine sat_index (fun _ h => allowed_of_outOfRange h) ?_ (fun _ _ _ _ h => by cases h) ?_
  · exact fun r s' w' hr hq _ => ⟨hr, .of_quiet hq, hq.shy⟩
  · intro m d s₁ w₁ hw₁ hlive _ hview hidx
    refine Act.sat_mono (huse e m w₁) ?_ (fun _ h => h.allowed)
    rintro a m' w' ⟨rfl, hw'⟩
    have hview' : (Store.setValue key (.memory m') s₁).view = s.view := by
      rw [Store.view_setValue, hview, view_of_liveAt hlive]
      funext k
      by_cases hk : k = key
      · subst hk
        rw [Function.update_self, view_of_liveAt hlive]
        rfl
      · rw [Function.update_of_ne hk]
    have hlater : w.ticks ≤ w'.ticks := by
      have := hw₁.ticks
      omega
    refine ⟨⟨hlater, fun k _ => .inl (by rw [hview']), fun h => (hidx h).setValue, ?_⟩, ?_⟩
    · exact fun hn k x d' hx => hn k x d' (by rw [← hview']; exact hx)
    · exact fun k x d' hx _ => ⟨x, d', by rw [← hview']; exact hx, rfl⟩

/-! ## The commands -/

theorem reads_markDirty : Reads Store.markDirty := fun _ _ _ =>
  ⟨le_rfl, fun _ _ => .inl rfl, Store.indexed_bumpDirty.mpr, id⟩

theorem recordPttl_peeks (id : Bytes) : Peeks (Memory.recordPttl id) :=
  peeks_bind peeks_now fun _ => peeks_bind peeks_get fun _ => peeks_pure _

theorem recordReply_peeks (record : MemoryRecord) (returns : Returns) :
    Peeks (recordReply record returns) :=
  peeks_bind (recordPttl_peeks _) fun _ => peeks_bind peeks_get fun _ => peeks_pure _

theorem memoryGet_peeks (id : Bytes) : Peeks (Memory.get id) :=
  peeks_bind peeks_now fun _ => peeks_bind peeks_get fun _ => peeks_pure _

theorem getOne_peeks (returns : Returns) (id : Bytes) : Peeks (getOne returns id) := by
  refine peeks_bind (memoryGet_peeks id) fun found => ?_
  cases found with
  | none => exact peeks_pure _
  | some record => exact peeks_bind (recordReply_peeks _ _) fun _ => peeks_pure _

theorem hitReply_peeks (returns : Returns) (hit : Hit) : Peeks (hitReply returns hit) := by
  refine peeks_bind (memoryGet_peeks _) fun found => ?_
  cases found with
  | none => exact peeks_pure _
  | some record => exact peeks_bind (recordReply_peeks _ _) fun _ => peeks_pure _

theorem answerHits_peeks (options : Retrieval) : ∀ found, Peeks (answerHits options found)
  | .error _ => peeks_pure _
  | .ok _ => peeks_bind (peeks_bind (peeks_mapList (hitReply_peeks _) _) fun _ => peeks_pure _)
      fun _ => peeks_pure _

theorem memoryScan_peeks (cursor count : Nat) (filter : Filter) :
    Peeks (Memory.scan cursor count filter) := by
  refine peeks_bind peeks_now fun t => peeks_bind (peeks_bind peeks_now fun _ =>
    peeks_bind peeks_get fun _ => peeks_pure _) fun ids => peeks_bind peeks_get fun m => ?_
  refine peeks_ite (peeks_pure _) (peeks_ite (peeks_panic fun _ h => by cases h) (peeks_pure _))

theorem searchText_peeks (query : Bytes) (limit : Nat) (filter : Filter) (maxTerms : Nat) :
    Peeks (Memory.searchText query limit filter maxTerms) :=
  peeks_bind peeks_get fun _ => peeks_ite (peeks_pure _) <|
    peeks_bind peeks_now fun _ => peeks_bind peeks_env fun _ => peeks_pure _

theorem searchVector_peeks (query : List F32) (limit : Nat) (filter : Filter) (maxScan : Nat) :
    Peeks (Memory.searchVector query limit filter maxScan) :=
  peeks_bind peeks_get fun _ => peeks_ite (peeks_pure _) <| peeks_ite (peeks_pure _) <|
    peeks_ite (peeks_pure _) <| peeks_bind peeks_now fun _ => peeks_pure _

/-- The hits of a query, once the vectors are scored. -/
theorem fused_peeks (keyword : List (Bytes × F32)) (weights : Weights) (fusion : Fusion) :
    ∀ vector : Except MemoryError (List (Bytes × F32)), Peeks (match vector with
      | .error e => pure (.error e)
      | .ok vector => do
        let t ← now
        let e ← env
        let m ← Act.get
        pure (.ok (fuse e.powf keyword vector (fun id => m.records.lookup id) weights fusion
          m.config.halfLife t)) : Run Memory (Except MemoryError (List Hit)))
  | .error _ => peeks_pure _
  | .ok _ => peeks_bind peeks_now fun _ => peeks_bind peeks_env fun _ =>
      peeks_bind peeks_get fun _ => peeks_pure _

theorem queryRest_peeks (keyword : List (Bytes × F32)) (vectorQuery : Option (List F32)) (limit : Nat)
    (filter : Filter) (weights : Weights) (fusion : Fusion) (maxScan : Nat) :
    Peeks (Memory.queryRest keyword vectorQuery limit filter weights fusion maxScan) := by
  cases vectorQuery with
  | none => exact peeks_bind (peeks_pure _) (fused_peeks keyword weights fusion)
  | some query => exact peeks_bind (searchVector_peeks _ _ _ _) (fused_peeks keyword weights fusion)

/-- The rest of a query, once the keywords are scored. -/
theorem keywordRest_peeks (vectorQuery : Option (List F32)) (limit : Nat) (filter : Filter)
    (weights : Weights) (fusion : Fusion) (maxScan : Nat) :
    ∀ keyword : Except MemoryError (List (Bytes × F32)), Peeks (match keyword with
      | .error e => pure (.error e)
      | .ok keyword => Memory.queryRest keyword vectorQuery limit filter weights fusion maxScan)
  | .error _ => peeks_pure _
  | .ok _ => queryRest_peeks _ _ _ _ _ _ _

theorem memoryQuery_peeks (textQuery : Option Bytes) (vectorQuery : Option (List F32)) (limit : Nat)
    (filter : Filter) (weights : Weights) (fusion : Fusion) (maxTerms maxScan : Nat) :
    Peeks (Memory.query textQuery vectorQuery limit filter weights fusion maxTerms maxScan) := by
  cases textQuery with
  | none => exact peeks_bind (peeks_pure _) (keywordRest_peeks _ _ _ _ _ _)
  | some query => exact peeks_bind (searchText_peeks _ _ _ _) (keywordRest_peeks _ _ _ _ _ _)

theorem create_keeps (config : Config) (hW : 1 < argv.length → W (arg argv 1)) :
    Keeps W (create config argv) := by
  refine keeps_minArgs fun hlen => keeps_bind (createOptions_fixed _ _ _ _).looks.keeps fun o => ?_
  refine keeps_bind (createConfig_fixed o).looks.keeps fun memoryConfig => ?_
  refine keeps_bind (looks_lift (reads_peekType _)).keeps fun taken => ?_
  have hstore : Keeps W (do
      let _ ← Store.createMemory (arg argv 1) (Memory.new memoryConfig)
      return Reply.ok) := by
    refine keeps_bind ?_ fun _ => (looks_pure _).keeps
    intro e s w
    rw [Act.satE_lift]
    refine Act.sat_mono (Store.createMemory_spec _ _) ?_ (fun _ h => allowed_of_outOfRange h)
    rintro _ s' w' ⟨hw, -, hidx, hview⟩
    split at hview
    · have hq : Quiet e s w s' w' := .of_expire hw hview hidx
      exact ⟨.of_quiet hq, hq.shy⟩
    · refine ⟨.of_update hw (hW hlen) hview hidx fun _ v d hv => ?_, .of_update hview fun v d hv => ?_⟩
      · cases hv
        rfl
      · cases hv
        rintro (h | h) <;> cases h
  refine keeps_ite (fun _ => ?_) fun _ => hstore
  refine keeps_bind (looks_lift (reads_peekType _)).keeps fun found => ?_
  split
  · exact keeps_bind (looks_throw rfl).keeps fun _ => hstore
  · exact keeps_bind (looks_throw rfl).keeps fun _ => hstore

/-- **Memory commands** write what the key table names, and no list and no sorted set. -/
theorem keeps {serverConfig : Config} {name : String} {handler : Handler}
    (h : (name, handler) ∈ arms serverConfig) (argv : List Bytes) :
    Keeps (Named name argv) (handler argv) := by
  have hdirty : ∀ reply : Reply, Keeps (Named name argv) (do
      Store.markDirty
      return reply) := fun reply =>
    (looks_bind (looks_lift reads_markDirty) fun _ => looks_pure reply).keeps
  have hdescribe : ∀ {β : Type} (found : Except MemoryError β) (reply : β → Reply),
      Keeps (Named name argv) (do
        let found ← orDescribe found
        Store.markDirty
        return reply found) := fun found reply =>
    keeps_bind (orDescribe_fixed found).looks.keeps fun _ => hdirty _
  simp only [arms, List.mem_cons, Prod.mk.injEq, List.not_mem_nil, or_false] at h
  rcases h with ⟨rfl, rfl⟩ | ⟨rfl, rfl⟩ | ⟨rfl, rfl⟩ | ⟨rfl, rfl⟩ | ⟨rfl, rfl⟩ | ⟨rfl, rfl⟩ |
    ⟨rfl, rfl⟩ | ⟨rfl, rfl⟩ | ⟨rfl, rfl⟩ | ⟨rfl, rfl⟩ | ⟨rfl, rfl⟩ | ⟨rfl, rfl⟩ | ⟨rfl, rfl⟩ |
    ⟨rfl, rfl⟩ | ⟨rfl, rfl⟩
  · exact create_keeps _ (named_first rfl)
  · exact keeps_exactArgs fun _ => index_peeks <|
      peeks_bind peeks_get fun _ => peeks_bind peeks_heapBytes fun _ => peeks_pure _
  · refine keeps_minArgs fun hlen => keeps_bind (configOptions_fixed _ _ _).looks.keeps fun o => ?_
    exact keeps_bind (index_keeps (named_first rfl (by omega)) (mild_modify _)) fun _ => hdirty _
  · exact keeps_exactArgs fun _ => index_peeks <| peeks_bind peeks_get fun _ => peeks_pure _
  · refine keeps_minArgs fun hlen => keeps_bind (addOptions_fixed _ _ _ _).looks.keeps fun o => ?_
    refine keeps_guard rfl (keeps_guard rfl ?_)
    refine keeps_bind (index_keeps (named_first rfl hlen) (Memory.add_mild _ _ _)) fun added => ?_
    exact hdescribe added _
  · refine keeps_minArgs fun _ => keeps_bind (getFlags_fixed _ _).looks.keeps fun returns => ?_
    exact keeps_bind (index_peeks (peeks_mapList (getOne_peeks _) _)) fun _ => (looks_pure _).keeps
  · refine keeps_minArgs fun _ => ?_
    exact keeps_bind (index_peeks (peeks_mapList (getOne_peeks _) _)) fun _ => (looks_pure _).keeps
  · refine keeps_minArgs fun hlen => ?_
    exact keeps_bind (index_keeps (named_first rfl (by omega)) (mild_state _)) fun _ => hdirty _
  · refine keeps_minArgs fun hlen => keeps_guard rfl ?_
    refine keeps_bind (index_keeps (named_first rfl (by omega)) ?_) fun added => hdescribe added _
    exact Memory.onLive_mild _ _ fun _ _ => mild_pure _
  · refine keeps_minArgs fun hlen => ?_
    refine keeps_bind (index_keeps (named_first rfl (by omega)) ?_) fun added => hdescribe added _
    exact Memory.onLive_mild _ _ fun _ _ => mild_pure _
  · refine keeps_exactArgs fun hlen => keeps_bind (fixed_intArg _).looks.keeps fun seconds => ?_
    refine keeps_guard rfl ?_
    refine keeps_bind (index_keeps (named_first rfl (by omega)) (Memory.setRecordTtl_mild _ _))
      fun done => ?_
    split
    · exact (looks_pure _).keeps
    · exact hdescribe _ fun _ => .bool true
  · refine keeps_minArgs fun _ => keeps_bind (fixed_intArg _).looks.keeps fun cursor => ?_
    refine keeps_guard rfl (keeps_bind (scanOptions_fixed _ _ _).looks.keeps fun o => ?_)
    exact keeps_bind (index_peeks (memoryScan_peeks _ _ _)) fun _ => (looks_pure _).keeps
  · refine keeps_minArgs fun _ => keeps_bind (searchOptions_fixed _ _ _ _).looks.keeps fun o => ?_
    refine keeps_bind (index_peeks ?_) fun reply => (orDescribe_fixed reply).looks.keeps
    exact peeks_bind (searchText_peeks _ _ _ _) fun _ => answerHits_peeks _ _
  · refine keeps_minArgs fun _ => keeps_bind (vsearchOptions_fixed _ _ _ _).looks.keeps fun o => ?_
    refine keeps_bind (fixed_orThrow rfl _).looks.keeps fun vector => ?_
    refine keeps_bind (index_peeks ?_) fun reply => (orDescribe_fixed reply).looks.keeps
    exact peeks_bind peeks_get fun _ => peeks_bind (searchVector_peeks _ _ _ _) fun _ =>
      answerHits_peeks _ _
  · refine keeps_minArgs fun _ => keeps_bind (queryOptions_fixed _ _ _ _).looks.keeps fun o => ?_
    refine keeps_guard rfl ?_
    refine keeps_bind (index_peeks ?_) fun reply => (orDescribe_fixed reply).looks.keeps
    exact peeks_bind peeks_get fun _ => peeks_bind (memoryQuery_peeks _ _ _ _ _ _ _ _) fun _ =>
      answerHits_peeks _ _

end Memories

end Klyro
