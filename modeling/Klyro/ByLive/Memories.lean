import Klyro.Commands.ByLive
import Klyro.Effects.Memories

/-!
# The memory index commands see the live keys only

* `steady_answerHits` — what is done with an index on behalf of a reply.
* `Memories.byLive` — every memory command, the one that asks the allocator apart.
-/

set_option autoImplicit false

namespace Klyro.Memories

open Act Store

variable {α β : Type} {e : Env} {t : SystemTime} {argv : List Bytes} {key : Bytes} (ht : e.StandsAt t)

include ht

/-! ## Replies -/

theorem steady_recordReply (record : MemoryRecord) (returns : Returns) :
    Steady e (recordReply record returns) :=
  settled_bind (Memory.steady_recordPttl ht record.id) fun _ => settled_bind steady_get fun _ => settled_pure _

theorem steady_hitReply (returns : Returns) (hit : Hit) : Steady e (hitReply returns hit) := by
  unfold hitReply
  refine settled_bind (Memory.steady_lookup ht hit.id) fun found => ?_
  cases found with
  | none => exact settled_pure _
  | some record => exact settled_bind (steady_recordReply ht record returns) fun _ => settled_pure _

theorem steady_answerHits (options : Retrieval) (found : Except MemoryError (List Hit)) :
    Steady e (answerHits options found) := by
  cases found with
  | error _ => exact settled_pure _
  | ok hits =>
    refine settled_bind (settled_bind (settled_mapList (steady_hitReply ht _) _) fun _ => settled_pure _) ?_
    exact fun _ => settled_pure _

theorem steady_getOne (returns : Returns) (id : Bytes) : Steady e (getOne returns id) := by
  unfold getOne
  refine settled_bind (Memory.steady_lookup ht id) fun found => ?_
  cases found with
  | none => exact settled_pure _
  | some record => exact settled_bind (steady_recordReply ht record returns) fun _ => settled_pure _

/-! ## The commands -/

theorem index_byLive {use : Run Memory α} (huse : Steady e use) : ByLiveE e t (index key use) := by
  unfold index
  refine settledE_bind (settledE_lift (byLive_peekType ht key)) fun found => ?_
  split
  · exact settledE_bind (settledE_lift (byLive_existingMemory ht huse key)) fun found => byLiveE_expect _ found
  · exact settledE_throw _
  · exact settledE_throw _

/-- An index is asked, and its refusal is told. -/
theorem asked_byLive {use : Run Memory (Except MemoryError α)} {rest : α → Cmd β} (huse : Steady e use)
    (hrest : ∀ a, ByLiveE e t (rest a)) : ByLiveE e t (do
      let asked ← index key use
      let asked ← orDescribe asked
      rest asked) :=
  settledE_bind (index_byLive ht huse) fun asked =>
    settledE_bind (byLiveE_fixed (orDescribe_fixed asked)) hrest

omit ht in
theorem counted_byLive (reply : Reply) : ByLiveE e t (do
    Store.markDirty
    return reply : Cmd Reply) :=
  settledE_bind (settledE_lift byLive_markDirty) fun _ => settledE_pure _

theorem create_byLive (config : Config) : ByLiveE e t (create config argv) := by
  unfold create
  refine settledE_bind (byLiveE_minArgs _ _) fun _ => ?_
  refine settledE_bind (byLiveE_fixed (createOptions_fixed _ _ _ _)) fun o => ?_
  refine settledE_bind (byLiveE_fixed (createConfig_fixed o)) fun memoryConfig => ?_
  refine settledE_bind (settledE_lift (byLive_peekType ht _)) fun taken => ?_
  have hstore : ByLiveE e t (do
      let _ ← Store.createMemory (arg argv 1) (Memory.new memoryConfig)
      return Reply.ok : Cmd Reply) :=
    settledE_bind (settledE_lift (byLive_createMemory ht _ _)) fun _ => settledE_pure _
  refine settledE_ite ?_ hstore
  refine settledE_bind (settledE_lift (byLive_peekType ht _)) fun found => ?_
  split
  · exact settledE_bind (settledE_throw _) fun _ => hstore
  · exact settledE_bind (settledE_throw _) fun _ => hstore

theorem add_byLive (config : Config) : ByLiveE e t (add config argv) :=
  settledE_bind (byLiveE_minArgs _ _) fun _ =>
    settledE_bind (byLiveE_fixed (addOptions_fixed _ _ _ _)) fun _ => settledE_guard <| settledE_guard <|
    asked_byLive ht (Memory.steady_add ht _ _ _) fun _ => counted_byLive _

theorem expire_byLive : ByLiveE e t (expire argv) := by
  unfold expire
  refine settledE_bind (byLiveE_exactArgs _ _) fun _ => settledE_bind (byLiveE_intArg _) fun seconds => ?_
  refine settledE_guard (settledE_bind (index_byLive ht (Memory.steady_setRecordTtl ht _ _)) fun done => ?_)
  split
  · exact settledE_pure _
  · exact settledE_bind (byLiveE_fixed (orDescribe_fixed done)) fun _ => counted_byLive _

theorem search_byLive (config : Config) : ByLiveE e t (search config argv) :=
  settledE_bind (byLiveE_minArgs _ _) fun _ =>
    settledE_bind (byLiveE_fixed (searchOptions_fixed _ _ _ _)) fun _ =>
    settledE_bind (index_byLive ht (settled_bind (Memory.steady_searchText ht _ _ _ _) fun _ =>
      steady_answerHits ht _ _)) fun reply => byLiveE_fixed (orDescribe_fixed reply)

theorem vsearch_byLive (config : Config) : ByLiveE e t (vsearch config argv) :=
  settledE_bind (byLiveE_minArgs _ _) fun _ =>
    settledE_bind (byLiveE_fixed (vsearchOptions_fixed _ _ _ _)) fun _ =>
    settledE_bind (byLiveE_orThrow _ _) fun _ =>
    settledE_bind (index_byLive ht (settled_bind steady_get fun _ =>
      settled_bind (Memory.steady_searchVector ht _ _ _ _) fun _ => steady_answerHits ht _ _)) fun reply =>
        byLiveE_fixed (orDescribe_fixed reply)

theorem query_byLive (config : Config) : ByLiveE e t (query config argv) :=
  settledE_bind (byLiveE_minArgs _ _) fun _ =>
    settledE_bind (byLiveE_fixed (queryOptions_fixed _ _ _ _)) fun _ => settledE_guard <|
    settledE_bind (index_byLive ht (settled_bind steady_get fun _ =>
      settled_bind (Memory.steady_query ht _ _ _ _ _ _ _ _) fun _ => steady_answerHits ht _ _)) fun reply =>
        byLiveE_fixed (orDescribe_fixed reply)

/-- **Memory commands.** -/
theorem byLive {serverConfig : Config} {name : String} {handler : Handler}
    (h : (name, handler) ∈ arms serverConfig) (hname : name ∉ offTheRecord) (argv : List Bytes) :
    ByLiveE e t (handler argv) := by
  simp only [arms, List.mem_cons, Prod.mk.injEq, List.not_mem_nil, or_false] at h
  rcases h with ⟨rfl, rfl⟩ | ⟨rfl, rfl⟩ | ⟨rfl, rfl⟩ | ⟨rfl, rfl⟩ | ⟨rfl, rfl⟩ | ⟨rfl, rfl⟩ |
    ⟨rfl, rfl⟩ | ⟨rfl, rfl⟩ | ⟨rfl, rfl⟩ | ⟨rfl, rfl⟩ | ⟨rfl, rfl⟩ | ⟨rfl, rfl⟩ | ⟨rfl, rfl⟩ |
    ⟨rfl, rfl⟩ | ⟨rfl, rfl⟩
  · exact create_byLive ht _
  · exact absurd (by decide) hname
  · exact settledE_bind (byLiveE_minArgs _ _) fun _ =>
      settledE_bind (byLiveE_fixed (configOptions_fixed _ _ _)) fun _ =>
      settledE_bind (index_byLive ht (steady_modify _)) fun _ => counted_byLive _
  · exact settledE_bind (byLiveE_exactArgs _ _) fun _ =>
      index_byLive ht (settled_bind steady_get fun _ => settled_pure _)
  · exact add_byLive ht _
  · exact settledE_bind (byLiveE_minArgs _ _) fun _ => settledE_bind (byLiveE_fixed (getFlags_fixed _ _)) fun _ =>
      settledE_bind (index_byLive ht (settled_mapList (steady_getOne ht _) _)) fun _ => settledE_pure _
  · exact settledE_bind (byLiveE_minArgs _ _) fun _ =>
      settledE_bind (index_byLive ht (settled_mapList (steady_getOne ht _) _)) fun _ => settledE_pure _
  · exact settledE_bind (byLiveE_minArgs _ _) fun _ =>
      settledE_bind (index_byLive ht (steady_state _)) fun _ => counted_byLive _
  · exact settledE_bind (byLiveE_minArgs _ _) fun _ => settledE_guard <|
      asked_byLive ht (Memory.steady_setMeta ht _ _) fun _ => counted_byLive _
  · exact settledE_bind (byLiveE_minArgs _ _) fun _ =>
      asked_byLive ht (Memory.steady_removeMeta ht _ _) fun _ => counted_byLive _
  · exact expire_byLive ht
  · exact settledE_bind (byLiveE_minArgs _ _) fun _ => settledE_bind (byLiveE_intArg _) fun _ =>
      settledE_guard <| settledE_bind (byLiveE_fixed (scanOptions_fixed _ _ _)) fun _ =>
      settledE_bind (index_byLive ht (Memory.steady_scan ht _ _ _)) fun _ => settledE_pure _
  · exact search_byLive ht _
  · exact vsearch_byLive ht _
  · exact query_byLive ht _

end Klyro.Memories
