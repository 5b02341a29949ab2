import Klyro.Commands.Options
import Klyro.Store.Glances
import Klyro.Trends.Keeping

/-!
# Options in another order have the same effect

* `Alike` — two computations that run alike from every state with a property.
* `index_alike` — a use of an index that runs alike may be replaced.
* `add_alike`, `query_alike` — the index does not see in which order metadata and clauses were given.
* `options_unordered` — the groups of a request may be permuted.
-/

set_option autoImplicit false

namespace Klyro

open Store

/-! ## Computations that run alike -/

section alike

variable {ε κ σ τ α β ρ : Type} {I : σ → Prop} {m n : Act ε κ σ α}

/-- From every state with the property the two run alike. -/
def Alike (I : σ → Prop) (m n : Act ε κ σ α) : Prop := ∀ e s c, I s → m e s c = n e s c

theorem alike_refl (m : Act ε κ σ α) : Alike I m m := fun _ _ _ _ => rfl

theorem alike_left (h : Alike I m n) (f : α → Act ε κ σ β) : Alike I (m >>= f) (n >>= f) := by
  intro e s c hs
  rw [Act.bind_apply, Act.bind_apply, h e s c hs]

theorem alike_map (h : Alike I m n) (f : α → β) : Alike I (f <$> m) (f <$> n) := by
  rw [map_eq_pure_bind, map_eq_pure_bind]
  exact alike_left h _

theorem alike_bind {f g : α → Act ε κ σ β} (hm : Act.Within (fun s s' => I s → I s') m)
    (hf : ∀ a, Alike I (f a) (g a)) : Alike I (m >>= f) (m >>= g) := by
  intro e s c hs
  have hkeeps := hm e s c
  rw [Act.bind_apply, Act.bind_apply]
  unfold Act.Sat at hkeeps
  cases hrun : m e s c with
  | done a s' c' =>
    rw [hrun] at hkeeps
    exact hf a e s' c' (hkeeps hs)
  | panicked p => rfl

theorem alike_get {f g : σ → Act ε κ σ β} (h : ∀ s, I s → f s = g s) :
    Alike I (Act.get >>= f) (Act.get >>= g) := by
  intro e s c hs
  rw [Act.bind_apply, Act.bind_apply]
  show f s e s c = g s e s c
  rw [h s hs]

end alike

/-! ## An index in place -/

section index

variable {α : Type} {P : Memory → Prop} {use use' : Run Memory α}

/-- Every memory index in the store has the property. -/
abbrev IndexesHold (P : Memory → Prop) (s : Store) : Prop :=
  Holds (fun x => ∀ m, x = .memory m → P m) s

theorem glances_holds {P : Value → Prop} {m : Run Store α} (h : Act.Within Glances m) :
    Act.Within (fun s s' => Holds P s → Holds P s') m :=
  Act.Within.mono h fun _ _ hg => Lookups.of_glances (P := Keeping P) hg

theorem useValue_alike (h : Alike P use use') (key : Bytes) :
    Alike (IndexesHold P) (useValue .memory key use) (useValue .memory key use') := by
  unfold useValue
  refine alike_get fun s hs => ?_
  cases hlook : s.map.lookup key with
  | none => rfl
  | some entry =>
    cases hunwrap : Variant.memory.unwrap entry.value with
    | none =>
      simp only [Act.expect, pure_bind, hunwrap]
      rfl
    | some m =>
      have hm : P m := by
        obtain hnone | ⟨v, hv⟩ := unwrap_none_or .memory entry.value
        · cases hunwrap.symm.trans hnone
        · rw [hv, Variant.memory.unwrap_wrap] at hunwrap
          cases hunwrap
          exact hs key _ entry.expireAt (by rw [view_eq_map, hlook]; rfl) m hv
      have hzoom : ∀ put, (Act.zoom (fun _ => m) put use : Run Store α) =
          Act.zoom (fun _ => m) put use' := by
        intro put
        funext e s c
        unfold Act.zoom
        rw [h e m c hm]
      simp only [Act.expect, pure_bind, hunwrap, hzoom]

theorem existingMemory_alike (h : Alike P use use') (key : Bytes) :
    Alike (IndexesHold P) (Store.existingMemory key use) (Store.existingMemory key use') := by
  unfold Store.existingMemory
  refine alike_bind (glances_holds (find_glances key)) fun entry => ?_
  split
  · exact useValue_alike h key
  · exact alike_refl _

/-- **A use of an index may be replaced by one that runs alike.** -/
theorem index_alike (h : Alike P use use') (key : Bytes) :
    Alike (IndexesHold P) (Memories.index key use).run (Memories.index key use').run := by
  unfold Memories.index
  rw [ExceptT.run_bind, ExceptT.run_bind]
  refine alike_bind ?_ fun found => ?_
  · rw [ExceptT.run_liftM]
    exact Act.within_map (glances_holds (peekType_glances key))
  · cases found with
    | error reply => exact alike_refl _
    | ok found =>
      cases found with
      | none => exact alike_refl _
      | some ty =>
        cases ty with
        | memory =>
          show Alike _ (ExceptT.run (liftM (existingMemory key use) >>= _))
            (ExceptT.run (liftM (existingMemory key use') >>= _))
          rw [ExceptT.run_bind, ExceptT.run_bind, ExceptT.run_liftM, ExceptT.run_liftM]
          exact alike_left (alike_map (existingMemory_alike h key) _) _
        | _ => exact alike_refl _

end index

/-! ## Metadata and clauses in another order -/

namespace Memory

/-- The metadata of every record stand in order. -/
def MetadataInOrder (m : Memory) : Prop :=
  ∀ id r, m.records.lookup id = some r → InOrder r.metadata

section add

variable {m : Memory} {pairs : List (Bytes × Bytes)} {request : AddRequest}

theorem addedRecord_perm (hm : m.MetadataInOrder) (hperm : request.metadata.Perm pairs)
    (hnodup : (request.metadata.map Prod.fst).Nodup) (id : Bytes) (t : SystemTime) :
    m.addedRecord { request with metadata := pairs } id t = m.addedRecord request id t := by
  unfold addedRecord
  dsimp only
  cases hr : m.records.lookup id with
  | none =>
    have hnew : InOrder (MemoryRecord.new id request.text t).metadata := List.Pairwise.nil
    dsimp only
    rw [setMetaAll_perm hnew hperm hnodup]
  | some r =>
    have hold : InOrder { r with text := request.text, updatedAt := t }.metadata := hm id r hr
    dsimp only
    rw [setMetaAll_perm hold hperm hnodup]

/-- **An added record does not remember in which order its metadata were given.** -/
theorem add_alike (hperm : request.metadata.Perm pairs)
    (hnodup : (request.metadata.map Prod.fst).Nodup) (maxTerms maxRecords : Nat) :
    Alike MetadataInOrder (add request maxTerms maxRecords)
      (add { request with metadata := pairs } maxTerms maxRecords) := by
  have hchecked : ∀ id t, Alike MetadataInOrder (addChecked request id t maxTerms)
      (addChecked { request with metadata := pairs } id t maxTerms) := by
    intro id t
    unfold addChecked
    refine alike_get fun m hm => ?_
    rw [addedRecord_perm hm hperm hnodup]
  unfold add
  refine alike_bind (fun _ _ _ h => h) fun t => ?_
  refine alike_bind ?_ fun id => ?_
  · cases request.id with
    | none => exact fun _ _ _ h => h
    | some id => exact fun _ _ _ h => h
  refine alike_bind (fun _ _ _ h => h) fun m => ?_
  rw [show m.addRefusal { request with metadata := pairs } id t maxRecords =
    m.addRefusal request id t maxRecords from rfl]
  cases m.addRefusal request id t maxRecords with
  | some error => exact alike_refl _
  | none => exact alike_left (hchecked id t) _

end add

section query

variable {clauses clauses' : Filter}

theorem accepts_perm (h : clauses.Perm clauses') : clauses.accepts = clauses'.accepts := by
  funext r t
  unfold Filter.accepts
  congr 1
  rw [Bool.eq_iff_iff, List.all_eq_true, List.all_eq_true]
  exact forall_congr' fun c => by rw [h.mem_iff]

theorem searchText_perm (h : clauses.Perm clauses') (text : Bytes) (limit maxTerms : Nat) :
    searchText text limit clauses maxTerms = searchText text limit clauses' maxTerms := by
  unfold searchText
  rw [accepts_perm h]

theorem searchVector_perm (h : clauses.Perm clauses') (vector : List F32) (limit maxScan : Nat) :
    searchVector vector limit clauses maxScan = searchVector vector limit clauses' maxScan := by
  unfold searchVector
  rw [accepts_perm h]

/-- **A query does not see in which order its clauses were given.** -/
theorem query_perm (h : clauses.Perm clauses') (text : Option Bytes) (vector : Option (List F32))
    (limit : Nat) (weights : Weights) (fusion : Fusion) (maxTerms maxScan : Nat) :
    query text vector limit clauses weights fusion maxTerms maxScan =
      query text vector limit clauses' weights fusion maxTerms maxScan := by
  unfold query queryRest
  simp only [searchText_perm h, searchVector_perm h]

end query

end Memory

/-! ## The commands -/

namespace Memories

/-- The same effect and the same reply wherever the property holds; or both are refused, and nothing
happens. -/
def SameEffect (I : Store → Prop) (m n : Cmd Reply) : Prop :=
  Alike I m.run n.run ∨ ∃ reply reply', m = throw reply ∧ n = throw reply'

section commands

variable {I : Store → Prop} {α β : Type}

/-- The words of a command. -/
def argvOf (name key : Bytes) (gs : List Group) : List Bytes :=
  name :: key :: gs.flatMap Group.words

theorem minArgs_argvOf (name key : Bytes) (gs : List Group) (verb : String) :
    minArgs (argvOf name key gs) verb 1 = pure () :=
  minArgs_eq_pure.mpr (by simp [argvOf])

theorem drop_argvOf (name key : Bytes) (gs : List Group) :
    (argvOf name key gs).drop 2 = gs.flatMap Group.words := rfl

theorem arg_argvOf (name key : Bytes) (gs : List Group) : arg (argvOf name key gs) 1 = key := rfl

/-- Arguments that agree make for the same effect if their results do. -/
theorem Agree.sameEffect {R : α → α → Prop} {m n : Cmd α} {f g : α → Cmd Reply} (h : Agree R m n)
    (hf : ∀ a b, R a b → SameEffect I (f a) (g b)) : SameEffect I (m >>= f) (n >>= g) := by
  rcases h with ⟨a, b, rfl, rfl, hab⟩ | ⟨reply, reply', rfl, rfl⟩
  · rw [pure_bind, pure_bind]
    exact hf a b hab
  · exact .inr ⟨reply, reply', rfl, rfl⟩

theorem sameEffect_refl (m : Cmd Reply) : SameEffect I m m := .inl (alike_refl _)

theorem sameEffect_index {P : Memory → Prop} {use use' : Run Memory α} (h : Alike P use use')
    (key : Bytes) (f : α → Cmd Reply) :
    SameEffect (IndexesHold P) (index key use >>= f) (index key use' >>= f) := by
  refine .inl ?_
  rw [ExceptT.run_bind, ExceptT.run_bind]
  exact alike_left (index_alike h key) _

theorem add_perm {config : Config} {gs hs : List Group} (name key : Bytes) (hperm : gs.Perm hs)
    (hgs : ∀ g ∈ gs, g.Complete addWidths) (hunrepeated : gs.Pairwise (Unrepeated AddSlot.names))
    (hfields : ((gs.flatMap addPairs).map Prod.fst).Nodup) :
    SameEffect (IndexesHold Memory.MetadataInOrder) (add config (argvOf name key gs))
      (add config (argvOf name key hs)) := by
  unfold add
  rw [minArgs_argvOf, minArgs_argvOf, pure_bind, pure_bind, drop_argvOf, drop_argvOf]
  simp only [arg_argvOf]
  refine (addOptions_perm hperm hgs hunrepeated _).sameEffect ?_
  rintro ⟨request, hasText⟩ ⟨request', hasText'⟩ ⟨⟨htext, hothers, hmetadata⟩, hlisted⟩
  dsimp only at htext hothers hmetadata hlisted
  rw [hothers, ← htext]
  dsimp only
  have hnodup : (request.metadata.map Prod.fst).Nodup := by
    rw [hlisted]
    exact hfields
  split
  · exact .inr ⟨_, _, rfl, rfl⟩
  · split
    · exact .inr ⟨_, _, rfl, rfl⟩
    · exact sameEffect_index (Memory.add_alike hmetadata hnodup _ _) key _

theorem create_perm {config : Config} {gs hs : List Group} (name key : Bytes) (hperm : gs.Perm hs)
    (hgs : ∀ g ∈ gs, g.Complete createWidths)
    (hunrepeated : gs.Pairwise (Unrepeated CreateSlot.names)) :
    SameEffect I (create config (argvOf name key gs)) (create config (argvOf name key hs)) := by
  unfold create
  rw [minArgs_argvOf, minArgs_argvOf, pure_bind, pure_bind, drop_argvOf, drop_argvOf]
  simp only [arg_argvOf]
  refine (createOptions_perm hperm hgs hunrepeated _).sameEffect ?_
  rintro o _ rfl
  exact sameEffect_refl _

theorem query_perm {config : Config} {gs hs : List Group} (name key : Bytes) (hperm : gs.Perm hs)
    (hgs : ∀ g ∈ gs, g.Complete queryWidths)
    (hunrepeated : gs.Pairwise (Unrepeated QuerySlot.names)) :
    SameEffect I (query config (argvOf name key gs)) (query config (argvOf name key hs)) := by
  unfold query
  rw [minArgs_argvOf, minArgs_argvOf, pure_bind, pure_bind, drop_argvOf, drop_argvOf]
  simp only [arg_argvOf]
  refine (queryOptions_perm hperm hgs hunrepeated _).sameEffect ?_
  rintro o o' ⟨hothers, hfilter⟩
  rw [hothers]
  have hindex : queryIndex config { o with
      retrieval := { o.retrieval with filter := o'.retrieval.filter } } = queryIndex config o := by
    unfold queryIndex
    simp only [Memory.query_perm hfilter]
    rfl
  rw [hindex]
  exact sameEffect_refl _

theorem parses_createConfig (o : CreateOptions) : Parses (createConfig o) := by
  unfold createConfig
  have hrefused : ∀ {reply : Reply} {f : Unit → Cmd MemoryConfig}, Parses (throw reply >>= f) :=
    fun {reply} {f} => .inr ⟨reply, rfl⟩
  refine parses_ite hrefused (parses_ite hrefused (parses_ite hrefused ?_))
  exact parses_pure _

end commands

/-- **The options of a request may be given in any order**: they are read alike, up to the order in
which the metadata are noted and the clauses are tried, and have the same effect and the same reply;
or both requests are refused.  Of the records of an index it is assumed that their metadata stand in
order, as every write leaves them. -/
theorem options_unordered (c : Config) (name key : Bytes) :
    (∀ gs hs : List Group, gs.Perm hs → (∀ g ∈ gs, g.Complete addWidths) →
      gs.Pairwise (Unrepeated AddSlot.names) → ((gs.flatMap addPairs).map Prod.fst).Nodup →
      Agree SameRequest
        (addOptions c (gs.flatMap Group.words).length (gs.flatMap Group.words) ({}, false))
        (addOptions c (hs.flatMap Group.words).length (hs.flatMap Group.words) ({}, false)) ∧
      SameEffect (IndexesHold Memory.MetadataInOrder) (add c (argvOf name key gs))
        (add c (argvOf name key hs))) ∧
    (∀ gs hs : List Group, gs.Perm hs → (∀ g ∈ gs, g.Complete createWidths) →
      gs.Pairwise (Unrepeated CreateSlot.names) → ∀ o : CreateOptions,
      Agree (fun a b => a = b)
        (createOptions c (gs.flatMap Group.words).length (gs.flatMap Group.words) o >>= createConfig)
        (createOptions c (hs.flatMap Group.words).length (hs.flatMap Group.words) o >>=
          createConfig) ∧
      SameEffect (fun _ => True) (create c (argvOf name key gs)) (create c (argvOf name key hs))) ∧
    (∀ gs hs : List Group, gs.Perm hs → (∀ g ∈ gs, g.Complete queryWidths) →
      gs.Pairwise (Unrepeated QuerySlot.names) → ∀ o : QueryOptions,
      Agree SameQuery
        (queryOptions c (gs.flatMap Group.words).length (gs.flatMap Group.words) o)
        (queryOptions c (hs.flatMap Group.words).length (hs.flatMap Group.words) o) ∧
      SameEffect (fun _ => True) (query c (argvOf name key gs)) (query c (argvOf name key hs))) := by
  refine ⟨?_, ?_, ?_⟩
  · intro gs hs hperm hgs hunrepeated hfields
    refine ⟨?_, add_perm name key hperm hgs hunrepeated hfields⟩
    exact (addOptions_perm hperm hgs hunrepeated _).mono fun _ _ h => h.1
  · intro gs hs hperm hgs hunrepeated o
    refine ⟨?_, create_perm name key hperm hgs hunrepeated⟩
    refine (createOptions_perm hperm hgs hunrepeated o).bind ?_
    rintro a _ rfl
    rcases parses_createConfig a with ⟨config, hconfig⟩ | ⟨reply, hr⟩
    · exact .inl ⟨config, config, hconfig, hconfig, rfl⟩
    · exact .inr ⟨reply, reply, hr, hr⟩
  · intro gs hs hperm hgs hunrepeated o
    exact ⟨queryOptions_perm hperm hgs hunrepeated o, query_perm name key hperm hgs hunrepeated⟩

/-! ## Values that spell keywords -/

/-- A text that reads `META`. -/
def textGroup : Group := ⟨Text.bytes "TEXT", [Text.bytes "META"]⟩

/-- A field that reads `NX`. -/
def metaGroup : Group := ⟨Text.bytes "meta", [Text.bytes "NX", Text.bytes "XX"]⟩

/-- Another field. -/
def idGroup : Group := ⟨Text.bytes "META", [Text.bytes "ID", Text.bytes "TTL"]⟩

theorem textGroup_complete : textGroup.Complete addWidths ∧ textGroup.Complete queryWidths :=
  ⟨⟨("TEXT", some 1), by decide, by decide, rfl⟩, ⟨("TEXT", some 1), by decide, by decide, rfl⟩⟩

theorem metaGroup_complete : metaGroup.Complete addWidths :=
  ⟨("META", some 2), by decide, by decide, rfl⟩

theorem idGroup_complete : idGroup.Complete addWidths :=
  ⟨("META", some 2), by decide, by decide, rfl⟩

theorem groups_unrepeated : [textGroup, metaGroup, idGroup].Pairwise (Unrepeated AddSlot.names) := by
  have hunrepeated : ∀ g h : Group, (∀ k : AddSlot, (k.names.any h.is) = false) →
      Unrepeated AddSlot.names g h := by
    intro g h hnone k hboth
    rw [hnone k] at hboth
    exact Bool.false_ne_true hboth.2
  have hmeta : ∀ k : AddSlot, (k.names.any metaGroup.is) = false := by
    intro k
    cases k <;> decide
  have hid : ∀ k : AddSlot, (k.names.any idGroup.is) = false := by
    intro k
    cases k <;> decide
  simp only [List.pairwise_cons, List.mem_cons, List.not_mem_nil, or_false, forall_eq_or_imp,
    forall_eq, List.Pairwise.nil, and_true, false_imp_iff, implies_true]
  exact ⟨⟨hunrepeated _ _ hmeta, hunrepeated _ _ hid⟩, hunrepeated _ _ hid⟩

/-- A mode. -/
def modeGroup : Group := ⟨Text.bytes "MODE", [Text.bytes "SEARCH"]⟩

/-- A flag. -/
def flagGroup : Group := ⟨Text.bytes "NoText", []⟩

theorem options_unordered_keywords :
    SameEffect (IndexesHold Memory.MetadataInOrder)
      (add {} (argvOf [] [107] [textGroup, metaGroup, idGroup]))
      (add {} (argvOf [] [107] [idGroup, metaGroup, textGroup])) ∧
    SameEffect (fun _ => True) (create {} (argvOf [] [107] [modeGroup]))
      (create {} (argvOf [] [107] [modeGroup])) ∧
    SameEffect (fun _ => True) (query {} (argvOf [] [107] [textGroup, flagGroup]))
      (query {} (argvOf [] [107] [flagGroup, textGroup])) := by
  obtain ⟨hadd, hcreate, hquery⟩ := options_unordered {} [] [107]
  refine ⟨(hadd _ _ ?_ ?_ groups_unrepeated (by decide)).2, (hcreate _ _ (.refl _) ?_ ?_ {
    halfLife := 0 }).2, (hquery _ _ (.swap _ _ _) ?_ ?_ { retrieval := .new {} }).2⟩
  · exact (List.reverse_perm [textGroup, metaGroup, idGroup]).symm
  · intro g hg
    simp only [List.mem_cons, List.not_mem_nil, or_false] at hg
    rcases hg with rfl | rfl | rfl
    · exact textGroup_complete.1
    · exact metaGroup_complete
    · exact idGroup_complete
  · rintro g hg
    cases List.mem_singleton.mp hg
    exact ⟨("MODE", some 1), by decide, by decide, rfl⟩
  · exact List.pairwise_singleton _ _
  · intro g hg
    simp only [List.mem_cons, List.not_mem_nil, or_false] at hg
    rcases hg with rfl | rfl
    · exact textGroup_complete.2
    · exact ⟨("NOTEXT", some 0), by decide, by decide, rfl⟩
  · rw [List.pairwise_pair]
    intro k hboth
    have hnone : (k.names.any flagGroup.is) = false := by
      cases k <;> decide
    rw [hnone] at hboth
    exact Bool.false_ne_true hboth.2

/-- A request notes its metadata in the order in which they were given. -/
theorem metadata_noted : ¬ ∀ gs hs : List Group, gs.Perm hs → (∀ g ∈ gs, g.Complete addWidths) →
    gs.Pairwise (Unrepeated AddSlot.names) → ((gs.flatMap addPairs).map Prod.fst).Nodup →
    Agree (fun a b => a = b)
      (addOptions {} (gs.flatMap Group.words).length (gs.flatMap Group.words) ({}, false))
      (addOptions {} (hs.flatMap Group.words).length (hs.flatMap Group.words) ({}, false)) := by
  intro h
  have hperm : [textGroup, metaGroup, idGroup].Perm [textGroup, idGroup, metaGroup] :=
    .cons _ (.swap _ _ _)
  have hgs : ∀ g ∈ [textGroup, metaGroup, idGroup], g.Complete addWidths := by
    intro g hg
    simp only [List.mem_cons, List.not_mem_nil, or_false] at hg
    rcases hg with rfl | rfl | rfl
    · exact textGroup_complete.1
    · exact metaGroup_complete
    · exact idGroup_complete
  have hfirst : addOptions {} 8 ([textGroup, metaGroup, idGroup].flatMap Group.words) ({}, false) =
      pure ({ text := Text.bytes "META", metadata := addPairs metaGroup ++ addPairs idGroup }, true) :=
    rfl
  have hsecond : addOptions {} 8 ([textGroup, idGroup, metaGroup].flatMap Group.words) ({}, false) =
      pure ({ text := Text.bytes "META", metadata := addPairs idGroup ++ addPairs metaGroup }, true) :=
    rfl
  rcases h _ _ hperm hgs groups_unrepeated (by decide) with ⟨a, b, ha, hb, hab⟩ | ⟨_, _, ha, -⟩
  · rw [← pure_injective (hfirst.symm.trans ha), ← pure_injective (hsecond.symm.trans hb)] at hab
    exact absurd (congrArg (fun o => o.1.metadata) hab) (by decide)
  · exact throw_ne_pure (ha.symm.trans hfirst)

end Memories

end Klyro
