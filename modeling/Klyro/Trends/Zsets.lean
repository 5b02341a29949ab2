import Klyro.Trends.Lists

/-!
# Which way the sorted set commands move the keyspace

* `sublist_rem`, `sublist_pop`, .. — what leaves a sorted set leaves a part of its entries.
* `Zsets.trend` — every sorted set command.
-/

set_option autoImplicit false

namespace Klyro

open Store

namespace Zsets

variable {argv : List Bytes} {P : Store → Store → Prop}

theorem lighter_of_sublist {z z' : Zset} (h : z'.entries.Sublist z.entries) : Lighter .zset z z' :=
  (h.map fun p : Bytes × F64 => p.1.length + scoreBytes).sum_le_sum fun _ _ => Nat.zero_le _

theorem sublist_rem (z : Zset) (member : Bytes) : (z.rem member).2.entries.Sublist z.entries := by
  unfold Zset.rem
  split
  · exact List.eraseIdx_sublist _ _
  · exact List.Sublist.refl _

theorem sublist_removeMembers (ms : List Bytes) : ∀ z : Zset,
    (removeMembers ms z).2.entries.Sublist z.entries := by
  induction ms with
  | nil => exact fun z => List.Sublist.refl _
  | cons m ms ih => exact fun z => (ih (z.rem m).2).trans (sublist_rem z m)

theorem resolveRange_le {len first last : Nat} {start stop : Int}
    (h : resolveRange len start stop = some (first, last)) : first ≤ last := by
  simp only [resolveRange, Option.ite_none_left_eq_some, Option.some.injEq, Prod.mk.injEq] at h
  obtain ⟨hsome, rfl, rfl⟩ := h
  omega

theorem sublist_removeRangeByRank (z : Zset) (start stop : Int) :
    (z.removeRangeByRank start stop).2.entries.Sublist z.entries := by
  unfold Zset.removeRangeByRank
  split
  · exact List.Sublist.refl _
  · rename_i first last hrange
    have hle := resolveRange_le hrange
    show (z.entries.take first ++ z.entries.drop (last + 1)).Sublist z.entries
    conv_rhs => rw [← List.take_append_drop first z.entries]
    refine List.Sublist.append (List.Sublist.refl _) ?_
    have hdrop : z.entries.drop (last + 1) = (z.entries.drop first).drop (last + 1 - first) := by
      rw [List.drop_drop]
      congr 1
      omega
    rw [hdrop]
    exact List.drop_sublist _ _

theorem sublist_pop (z : Zset) (count : Nat) (fromMax : Bool) :
    (z.pop count fromMax).2.entries.Sublist z.entries := by
  unfold Zset.pop
  cases fromMax with
  | true => exact List.take_sublist _ _
  | false => exact List.drop_sublist _ _

theorem scoreBounds_within [IsPreorder Store P] (min max : Bytes) :
    Act.WithinE P (scoreBounds min max) := by
  unfold scoreBounds
  split
  · exact Act.withinE_pure _
  · exact Act.withinE_throw _

theorem withScores_within [IsPreorder Store P] : Act.WithinE P (withScores argv) :=
  Act.withinE_ite (Act.withinE_pure _) (Act.withinE_ite (Act.withinE_pure _) (Act.withinE_throw _))

theorem parsePairs_within [IsPreorder Store P] (pairs : List (Bytes × Bytes)) :
    Act.WithinE P (parsePairs pairs) := by
  induction pairs with
  | nil => exact Act.withinE_pure _
  | cons p pairs ih =>
    exact Act.withinE_bind (withinE_floatArg _) fun _ => Act.withinE_bind ih fun _ => Act.withinE_pure _

/-- A handler that takes members away from one sorted set. -/
theorem take_drains [Drains P] {α : Type} {key : Bytes} {g : Zset → α × Zset} {f : Option α → Reply}
    (hg : ∀ z, (g z).2.entries.Sublist z.entries) : Act.WithinE P (do
      checkType key .zset
      let taken ← Store.writeZset key (Act.state g)
      Store.deleteIfEmpty key
      return f taken : Cmd Reply) := by
  refine Act.withinE_bind (withinE_checkType _ _) fun _ => ?_
  refine Act.withinE_bind (Act.withinE_lift (Drains.write (within_state fun z => ?_) _)) fun _ => ?_
  · exact lighter_of_sublist (hg z)
  · exact Act.withinE_bind (Act.withinE_lift (Drains.deleteIfEmpty _)) fun _ => Act.withinE_pure _

theorem zincrby_marks : Act.WithinE Marked (zincrby argv) := by
  unfold zincrby
  refine Act.withinE_bind (withinE_exactArgs _ _) fun _ => ?_
  refine Act.withinE_bind (withinE_floatArg _) fun increment => ?_
  refine Act.withinE_bind (withinE_checkType _ _) fun _ => ?_
  refine Act.withinE_bind (Act.withinE_lift (getOrCreate_marks .zset _ _)) fun updated => ?_
  refine Act.withinE_bind (withinE_expect _ _) fun updated => ?_
  refine Act.withinE_ite ?_ (Act.withinE_pure _)
  refine Act.withinE_bind (Act.withinE_lift (write_marks .zset _ _)) fun undone => ?_
  refine Act.withinE_bind (withinE_expect _ _) fun _ => ?_
  exact Act.withinE_bind (Act.withinE_lift (deleteIfEmpty_marks _)) fun _ => Act.withinE_pure _

theorem zadd_marks (config : Config) : Act.WithinE Marked (zadd config argv) := by
  unfold zadd
  refine Act.withinE_bind (withinE_minArgs _ _) fun _ => withinE_guard (withinE_guard ?_)
  refine Act.withinE_bind (parsePairs_within _) fun pairs => ?_
  refine Act.withinE_bind (withinE_checkType _ _) fun _ => ?_
  refine Act.withinE_bind (Act.withinE_lift (getOrCreate_marks .zset _ _)) fun _ => ?_
  exact Act.withinE_bind (withinE_expect _ _) fun _ => Act.withinE_pure _

theorem zrange_glances (name : String) (range : Zset → Int → Int → List (Bytes × F64)) :
    Act.WithinE Glances (zrange name range argv) :=
  Act.withinE_bind (withinE_minArgs _ _) fun _ => Act.withinE_bind (withinE_intArg _) fun _ =>
    Act.withinE_bind (withinE_intArg _) fun _ => Act.withinE_bind withScores_within fun _ =>
    Act.withinE_bind (withinE_checkType _ _) fun _ =>
    Act.withinE_bind (withinE_look (read_glances _ _)) fun _ => Act.withinE_pure _

theorem zrangebyscore_glances (name : String) (reversed : Bool) :
    Act.WithinE Glances (zrangebyscore name reversed argv) := by
  unfold zrangebyscore
  refine Act.withinE_bind (withinE_minArgs _ _) fun _ => ?_
  have hrest : ∀ bounds : ScoreBound × ScoreBound, Act.WithinE Glances (do
      let scores ← withScores argv
      checkType (arg argv 1) .zset
      let z ← Store.readZset (arg argv 1)
      let pairs := (z.map fun z => z.rangeByScore bounds.1 bounds.2).getD []
      return pairsReply (if reversed then pairs.reverse else pairs) scores : Cmd Reply) :=
    fun bounds => Act.withinE_bind withScores_within fun scores =>
      Act.withinE_bind (withinE_checkType _ _) fun _ =>
      Act.withinE_bind (withinE_look (read_glances _ _)) fun _ => Act.withinE_pure _
  exact Act.withinE_ite (Act.withinE_bind (scoreBounds_within _ _) hrest)
    (Act.withinE_bind (scoreBounds_within _ _) hrest)

theorem zcount_glances : Act.WithinE Glances (zcount argv) :=
  Act.withinE_bind (withinE_exactArgs _ _) fun _ =>
    Act.withinE_bind (scoreBounds_within _ _) fun _ =>
    Act.withinE_bind (withinE_checkType _ _) fun _ =>
    Act.withinE_bind (withinE_look (read_glances _ _)) fun _ => Act.withinE_pure _

/-- **Sorted set commands.** -/
theorem trend {config : Config} {name : String} {handler : Handler}
    (h : (name, handler) ∈ arms config) (argv : List Bytes) : Trend name (handler argv) := by
  simp only [arms, List.mem_cons, Prod.mk.injEq, List.not_mem_nil, or_false] at h
  rcases h with ⟨rfl, rfl⟩ | ⟨rfl, rfl⟩ | ⟨rfl, rfl⟩ | ⟨rfl, rfl⟩ | ⟨rfl, rfl⟩ | ⟨rfl, rfl⟩ |
    ⟨rfl, rfl⟩ | ⟨rfl, rfl⟩ | ⟨rfl, rfl⟩ | ⟨rfl, rfl⟩ | ⟨rfl, rfl⟩ | ⟨rfl, rfl⟩ | ⟨rfl, rfl⟩ |
    ⟨rfl, rfl⟩ | ⟨rfl, rfl⟩ | ⟨rfl, rfl⟩ | ⟨rfl, rfl⟩
  · exact .fills rfl rfl (zadd_marks config)
  · exact .reads (answer_glances (withinE_exactArgs _ _) (read_glances _ _))
  · exact .reads (answer_glances (withinE_minArgs _ _) (read_glances _ _))
  · exact .fills rfl rfl zincrby_marks
  · exact .of_drains rfl (Act.withinE_bind (withinE_minArgs _ _) fun _ =>
      take_drains (sublist_removeMembers _))
  · exact .reads (answer_glances (withinE_exactArgs _ _) (read_glances _ _))
  · exact .reads (answer_glances (withinE_exactArgs _ _) (read_glances _ _))
  · exact .reads (answer_glances (withinE_exactArgs _ _) (read_glances _ _))
  · exact .reads (zrange_glances _ _)
  · exact .reads (zrange_glances _ _)
  · exact .reads (zrangebyscore_glances _ _)
  · exact .reads (zrangebyscore_glances _ _)
  · exact .reads zcount_glances
  · exact .of_drains rfl (Act.withinE_bind (withinE_exactArgs _ _) fun _ =>
      Act.withinE_bind (scoreBounds_within _ _) fun _ => take_drains fun _ => List.filter_sublist)
  · exact .of_drains rfl (Act.withinE_bind (withinE_exactArgs _ _) fun _ =>
      Act.withinE_bind (withinE_intArg _) fun _ => Act.withinE_bind (withinE_intArg _) fun _ =>
      take_drains fun z => sublist_removeRangeByRank z _ _)
  · exact .of_drains rfl (Act.withinE_bind (withinE_minArgs _ _) fun _ =>
      Act.withinE_bind (Lists.popCount_within _) fun _ => take_drains fun z => sublist_pop z _ _)
  · exact .of_drains rfl (Act.withinE_bind (withinE_minArgs _ _) fun _ =>
      Act.withinE_bind (Lists.popCount_within _) fun _ => take_drains fun z => sublist_pop z _ _)

end Zsets

end Klyro
