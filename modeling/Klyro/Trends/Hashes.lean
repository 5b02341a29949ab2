import Klyro.Trends.Lists

/-!
# Which way the hash commands move the keyspace

* `Hashes.trend` — every hash command.
-/

set_option autoImplicit false

namespace Klyro

open Store

namespace Hashes

variable {argv : List Bytes} {P : Store → Store → Prop}

theorem removeFields_lighter (fields : List Bytes) : ∀ h : HashValue,
    Lighter .hash h (removeFields fields h).2 := by
  induction fields with
  | nil => exact fun h => refl_of (Lighter .hash) h
  | cons field fields ih =>
    intro h
    have herase : Lighter .hash h (AList.erase field h) := Assoc.total_erase_le field
    exact trans_of (Lighter .hash) herase (ih _)

theorem readField_glances (key field : Bytes) : Act.Within Glances (readField key field) :=
  Act.within_bind (read_glances _ _) fun _ => Act.within_pure _

theorem hdel_drains [Drains P] : Act.WithinE P (hdel argv) := by
  unfold hdel
  refine Act.withinE_bind (withinE_minArgs _ _) fun _ => ?_
  refine Act.withinE_bind (withinE_checkType _ _) fun _ => ?_
  refine Act.withinE_bind (Act.withinE_lift (Drains.write (within_state fun h => ?_) _)) fun _ => ?_
  · exact removeFields_lighter _ h
  · exact Act.withinE_bind (Act.withinE_lift (Drains.deleteIfEmpty _)) fun _ => Act.withinE_pure _

theorem hset_marks (name : String) (reply : Nat → Reply) : Act.WithinE Marked (hset name reply argv) :=
  Act.withinE_bind (withinE_minArgs _ _) fun _ => withinE_guard (Act.withinE_bind (withinE_checkType _ _)
    fun _ => Act.withinE_bind (Act.withinE_lift (getOrCreate_marks .hash _ _)) fun _ =>
    Act.withinE_bind (withinE_expect _ _) fun _ => Act.withinE_pure _)

theorem hsetnx_marks : Act.WithinE Marked (hsetnx argv) := by
  unfold hsetnx
  refine Act.withinE_bind (withinE_exactArgs _ _) fun _ => ?_
  refine Act.withinE_bind (withinE_checkType _ _) fun _ => ?_
  refine Act.withinE_bind (Act.withinE_lift (getOrCreate_marks .hash _ _)) fun _ => ?_
  refine Act.withinE_bind (withinE_expect _ _) fun inserted => ?_
  refine Act.withinE_ite (Act.withinE_pure _) ?_
  exact Act.withinE_bind (Act.withinE_lift (deleteIfEmpty_marks _)) fun _ => Act.withinE_pure _

theorem setField_marks (key field value : Bytes) (reply : Reply) : Act.WithinE Marked (do
    let done ← Store.getOrCreateHash key (Act.modify fun h => h.insert field value)
    expect "type checked" done
    return reply : Cmd Reply) :=
  Act.withinE_bind (Act.withinE_lift (getOrCreate_marks .hash _ _)) fun _ =>
    Act.withinE_bind (withinE_expect _ _) fun _ => Act.withinE_pure _

/-- What is stored once the current number is known. -/
theorem storeSum_marks (key field : Bytes) (base delta : Int) :
    Act.WithinE Marked (match checkedAdd base delta with
      | none => pure (.error "ERR increment or decrement would overflow")
      | some updated => do
        let done ← Store.getOrCreateHash key (Act.modify fun h => h.insert field (showIntBytes updated))
        expect "type checked" done
        return .integer updated : Cmd Reply) := by
  cases checkedAdd base delta with
  | none => exact Act.withinE_pure _
  | some updated => exact setField_marks _ _ _ _

theorem hincrby_marks : Act.WithinE Marked (hincrby argv) := by
  unfold hincrby
  refine Act.withinE_bind (withinE_exactArgs _ _) fun _ => ?_
  refine Act.withinE_bind (withinE_intArg _) fun delta => ?_
  refine Act.withinE_bind (withinE_checkType _ _) fun _ => ?_
  refine Act.withinE_bind (withinE_look (readField_glances _ _)) fun current => ?_
  cases current with
  | none => exact Act.withinE_bind (Act.withinE_pure _) fun base => storeSum_marks _ _ base delta
  | some v => exact Act.withinE_bind (withinE_orThrow _ _) fun base => storeSum_marks _ _ base delta

theorem hincrbyfloat_marks : Act.WithinE Marked (hincrbyfloat argv) := by
  unfold hincrbyfloat
  refine Act.withinE_bind (withinE_exactArgs _ _) fun _ => ?_
  refine Act.withinE_bind (withinE_floatArg _) fun delta => ?_
  refine Act.withinE_bind (withinE_checkType _ _) fun _ => ?_
  refine Act.withinE_bind (withinE_look (readField_glances _ _)) fun current => ?_
  have hwrite : ∀ base : F64, Act.WithinE Marked (if !(base.add delta).isFinite then
        return .error "ERR increment would produce NaN or Infinity"
      else do
        let done ← Store.getOrCreateHash (arg argv 1) (Act.modify fun h =>
          h.insert (arg argv 2) (formatF64 (base.add delta)))
        expect "type checked" done
        return .bulk (formatF64 (base.add delta)) : Cmd Reply) :=
    fun base => Act.withinE_ite (Act.withinE_pure _) (setField_marks _ _ _ _)
  cases current with
  | none => exact Act.withinE_bind (Act.withinE_pure _) hwrite
  | some v => exact Act.withinE_bind (withinE_orThrow _ _) hwrite

/-- **Hash commands.** -/
theorem trend {name : String} {handler : Handler} (h : (name, handler) ∈ arms) (argv : List Bytes) :
    Trend name (handler argv) := by
  simp only [arms, List.mem_cons, Prod.mk.injEq, List.not_mem_nil, or_false] at h
  rcases h with ⟨rfl, rfl⟩ | ⟨rfl, rfl⟩ | ⟨rfl, rfl⟩ | ⟨rfl, rfl⟩ | ⟨rfl, rfl⟩ | ⟨rfl, rfl⟩ |
    ⟨rfl, rfl⟩ | ⟨rfl, rfl⟩ | ⟨rfl, rfl⟩ | ⟨rfl, rfl⟩ | ⟨rfl, rfl⟩ | ⟨rfl, rfl⟩ | ⟨rfl, rfl⟩ |
    ⟨rfl, rfl⟩
  · exact .fills rfl rfl (hset_marks _ _)
  · exact .fills rfl rfl (hset_marks _ _)
  · exact .fills rfl rfl hsetnx_marks
  · exact .reads (answer_glances (withinE_exactArgs _ _) (readField_glances _ _))
  · exact .reads (answer_glances (withinE_minArgs _ _) (read_glances _ _))
  · exact .of_drains rfl hdel_drains
  · exact .reads (answer_glances (withinE_exactArgs _ _) (read_glances _ _))
  · exact .reads (answer_glances (withinE_exactArgs _ _) (readField_glances _ _))
  · exact .reads (answer_glances (withinE_exactArgs _ _) (readField_glances _ _))
  · exact .reads (answer_glances (withinE_exactArgs _ _) (read_glances _ _))
  · exact .reads (answer_glances (withinE_exactArgs _ _) (read_glances _ _))
  · exact .reads (answer_glances (withinE_exactArgs _ _) (read_glances _ _))
  · exact .fills rfl rfl hincrby_marks
  · exact .fills rfl rfl hincrbyfloat_marks

end Hashes

end Klyro
