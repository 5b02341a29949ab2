import Klyro.Trends.Lists

/-!
# Which way the set commands move the keyspace

* `removeAll_lighter`, `takeRandom_lighter` — members leave a set one by one.
* `Sets.trend` — every set command.
-/

set_option autoImplicit false

namespace Klyro

open Store

namespace Sets

variable {argv : List Bytes} {P : Store → Store → Prop}

theorem erase_lighter (s : SetValue) (m : Bytes) : Lighter .set s (AList.erase m s) :=
  Assoc.total_erase_le m

theorem removeAll_lighter (ms : List Bytes) : ∀ s : SetValue, Lighter .set s (removeAll ms s).2 := by
  induction ms with
  | nil => exact fun s => refl_of (Lighter .set) s
  | cons m ms ih => exact fun s => trans_of (Lighter .set) (erase_lighter s m) (ih _)

theorem below_within {τ : Type} {R : τ → τ → Prop} [IsPreorder τ R] (n : Nat) :
    Act.Within R (below n) :=
  Act.within_ite (Act.within_pure _)
    (Act.within_bind (Act.within_of_same fun _ _ _ => rfl) fun _ => Act.within_pure _)

theorem takeLoop_lighter (n : Nat) : ∀ pool, Act.Within (Lighter .set) (takeLoop n pool) := by
  induction n with
  | zero => exact fun _ => Act.within_pure _
  | succ n ih =>
    intro pool
    unfold takeLoop
    refine Act.within_bind (below_within _) fun i => ?_
    split
    · refine Act.within_bind (Act.within_modify fun s => erase_lighter s _) fun _ => ?_
      exact Act.within_bind (ih _) fun _ => Act.within_pure _
    · exact Act.within_panic _

theorem takeRandom_lighter (count : Nat) : Act.Within (Lighter .set) (takeRandom count) :=
  Act.within_bind Act.within_get fun _ => takeLoop_lighter _ _

theorem checkSets_within [Lookups P] (keys : List Bytes) : Act.WithinE P (checkSets keys) := by
  induction keys with
  | nil => exact Act.withinE_pure _
  | cons key keys ih => exact Act.withinE_bind (withinE_checkType _ _) fun _ => ih

theorem collectSets_within [Lookups P] (keys : List Bytes) : Act.WithinE P (collectSets keys) := by
  refine Act.withinE_bind (checkSets_within keys) fun _ => withinE_look ?_
  exact Act.within_mapList (fun key => Act.within_bind (read_glances _ _) fun _ => Act.within_pure _) _

theorem combine_within [IsPreorder Store P] (op : Algebra) (sets : List SetValue) :
    Act.WithinE P (combine op sets) := by
  cases sets with
  | nil => exact withinE_expect _ _
  | cons first others => exact Act.withinE_pure _

theorem pickCount_within [IsPreorder Store P] (name : String) : Act.WithinE P (pickCount argv name) := by
  unfold pickCount
  refine Act.withinE_ite (Act.withinE_pure _) (Act.withinE_ite ?_ (Act.withinE_throw _))
  exact Act.withinE_bind (withinE_intArg _) fun _ => Act.withinE_pure _

theorem srem_drains [Drains P] : Act.WithinE P (srem argv) := by
  unfold srem
  refine Act.withinE_bind (withinE_minArgs _ _) fun _ => ?_
  refine Act.withinE_bind (withinE_checkType _ _) fun _ => ?_
  refine Act.withinE_bind (Act.withinE_lift (Drains.write (within_state fun s => ?_) _)) fun _ => ?_
  · exact removeAll_lighter _ s
  · exact Act.withinE_bind (Act.withinE_lift (Drains.deleteIfEmpty _)) fun _ => Act.withinE_pure _

theorem spop_drains [Drains P] : Act.WithinE P (spop argv) := by
  unfold spop
  refine Act.withinE_bind (withinE_minArgs _ _) fun _ => ?_
  refine Act.withinE_bind (pickCount_within _) fun count => ?_
  refine Act.withinE_ite (Act.withinE_pure _) ?_
  refine Act.withinE_bind (withinE_checkType _ _) fun _ => ?_
  refine Act.withinE_bind (Act.withinE_lift (Drains.write (takeRandom_lighter _) _)) fun _ => ?_
  exact Act.withinE_bind (Act.withinE_lift (Drains.deleteIfEmpty _)) fun _ => Act.withinE_pure _

theorem drawLoop_glances (pool : List Bytes) (n : Nat) : Act.Within Glances (drawLoop pool n) := by
  induction n with
  | zero => exact Act.within_pure _
  | succ n ih =>
    exact Act.within_bind (below_within _) fun _ => Act.within_bind ih fun _ => Act.within_pure _

theorem srandmember_glances : Act.WithinE Glances (srandmember argv) := by
  unfold srandmember
  refine Act.withinE_bind (withinE_minArgs _ _) fun _ => ?_
  refine Act.withinE_bind (pickCount_within _) fun count => ?_
  refine Act.withinE_bind (withinE_checkType _ _) fun _ => ?_
  refine Act.withinE_bind (withinE_look (read_glances _ _)) fun s => ?_
  refine Act.withinE_ite ?_ ?_
  · exact Act.withinE_bind (withinE_look (drawLoop_glances _ _)) fun _ => Act.withinE_pure _
  · refine Act.withinE_bind (withinE_look (Act.within_of_same fun e s w => ?_)) fun _ =>
      Act.withinE_pure _
    rw [Act.sat_zoom]
    exact Act.sat_mono (Act.sat_true _) (fun _ _ _ _ => rfl) (fun _ h => h)

theorem smove_marks : Act.WithinE Marked (smove argv) := by
  unfold smove
  refine Act.withinE_bind (withinE_exactArgs _ _) fun _ => ?_
  refine Act.withinE_bind (withinE_checkType _ _) fun _ => ?_
  refine Act.withinE_bind (withinE_checkType _ _) fun _ => ?_
  refine Act.withinE_bind (Act.withinE_lift (write_marks .set _ _)) fun removed => ?_
  refine Act.withinE_ite (Act.withinE_pure _) ?_
  refine Act.withinE_bind (Act.withinE_lift (getOrCreate_marks .set _ _)) fun done => ?_
  refine Act.withinE_bind (withinE_expect _ _) fun _ => ?_
  exact Act.withinE_bind (Act.withinE_lift (deleteIfEmpty_marks _)) fun _ => Act.withinE_pure _

theorem algebra_glances (name : String) (op : Algebra) : Act.WithinE Glances (algebra name op argv) :=
  Act.withinE_bind (withinE_minArgs _ _) fun _ => Act.withinE_bind (collectSets_within _) fun _ =>
    Act.withinE_bind (combine_within op _) fun _ => Act.withinE_pure _

theorem algebraStore_marks (name : String) (op : Algebra) :
    Act.WithinE Marked (algebraStore name op argv) := by
  unfold algebraStore
  refine Act.withinE_bind (withinE_minArgs _ _) fun _ => ?_
  refine Act.withinE_bind (withinE_checkType _ _) fun _ => ?_
  refine Act.withinE_bind (collectSets_within _) fun sets => ?_
  refine Act.withinE_bind (combine_within op sets) fun result => ?_
  refine Act.withinE_bind (Act.withinE_lift (del_marks _)) fun _ => ?_
  refine Act.withinE_ite ?_ (Act.withinE_pure _)
  refine Act.withinE_bind (Act.withinE_lift (getOrCreate_marks .set _ _)) fun done => ?_
  exact Act.withinE_bind (withinE_expect _ _) fun _ => Act.withinE_pure _

/-- **Set commands.** -/
theorem trend {name : String} {handler : Handler} (h : (name, handler) ∈ arms) (argv : List Bytes) :
    Trend name (handler argv) := by
  simp only [arms, List.mem_cons, Prod.mk.injEq, List.not_mem_nil, or_false] at h
  rcases h with ⟨rfl, rfl⟩ | ⟨rfl, rfl⟩ | ⟨rfl, rfl⟩ | ⟨rfl, rfl⟩ | ⟨rfl, rfl⟩ | ⟨rfl, rfl⟩ |
    ⟨rfl, rfl⟩ | ⟨rfl, rfl⟩ | ⟨rfl, rfl⟩ | ⟨rfl, rfl⟩ | ⟨rfl, rfl⟩ | ⟨rfl, rfl⟩ | ⟨rfl, rfl⟩ |
    ⟨rfl, rfl⟩ | ⟨rfl, rfl⟩
  · exact .fills rfl rfl (Act.withinE_bind (withinE_minArgs _ _) fun _ =>
      Act.withinE_bind (withinE_checkType _ _) fun _ =>
      Act.withinE_bind (Act.withinE_lift (getOrCreate_marks .set _ _)) fun _ =>
      Act.withinE_bind (withinE_expect _ _) fun _ => Act.withinE_pure _)
  · exact .of_drains rfl srem_drains
  · exact .reads (answer_glances (withinE_exactArgs _ _) (read_glances _ _))
  · exact .reads (answer_glances (withinE_minArgs _ _) (read_glances _ _))
  · exact .reads (answer_glances (withinE_exactArgs _ _) (read_glances _ _))
  · exact .reads (answer_glances (withinE_exactArgs _ _) (read_glances _ _))
  · exact .of_drains rfl spop_drains
  · exact .reads srandmember_glances
  · exact .fills rfl rfl smove_marks
  · exact .reads (algebra_glances _ _)
  · exact .reads (algebra_glances _ _)
  · exact .reads (algebra_glances _ _)
  · exact .fills rfl rfl (algebraStore_marks _ _)
  · exact .fills rfl rfl (algebraStore_marks _ _)
  · exact .fills rfl rfl (algebraStore_marks _ _)

end Sets

end Klyro
