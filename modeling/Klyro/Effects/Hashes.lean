import Klyro.Commands.Hashes
import Klyro.Effects.Lists

/-!
# What the hash commands write

`Hashes.does` — every hash command writes the keys the key table names and nothing when it fails.
-/

set_option autoImplicit false

namespace Klyro.Hashes

variable {W : Bytes → Prop} {argv : List Bytes} {strict : Bool}

/-- A map with a key is not empty. -/
theorem isEmpty_of_lookup {ν : Type} {m : Assoc Bytes ν} {k : Bytes} {v : ν}
    (h : m.lookup k = some v) : m.isEmpty = false := by
  cases he : m.isEmpty with
  | false => rfl
  | true =>
    rw [Assoc.isEmpty_iff] at he
    have hp := Assoc.mem_pairs.mpr h
    rw [he] at hp
    cases hp

theorem isEmpty_insert {ν : Type} (m : Assoc Bytes ν) (k : Bytes) (v : ν) :
    Assoc.isEmpty (m.insert k v) = false :=
  isEmpty_of_lookup (AList.lookup_insert m)

theorem isEmpty_insertPairs (pairs : List (Bytes × Bytes)) : ∀ h : HashValue,
    pairs ≠ [] ∨ h.isEmpty = false → (insertPairs pairs h).2.isEmpty = false := by
  induction pairs with
  | nil => exact fun h hp => hp.resolve_left fun h => h rfl
  | cons p pairs ih => exact fun h _ => ih (h.insert p.1 p.2) (.inr (isEmpty_insert _ _ _))

theorem pairsOf_ne_nil {rest : List Bytes} (h : 2 ≤ rest.length) : pairsOf rest ≠ [] := by
  match rest, h with
  | _ :: _ :: _, _ => exact List.cons_ne_nil _ _

theorem hset_does (name : String) (reply : Nat → Reply) (hr : ∀ n, (reply n).isError = false)
    (hW : 1 < argv.length → W (arg argv 1)) :
    Does strict [] W Reply.isError (hset name reply argv) := by
  refine does_minArgs fun hlen => does_guard rfl fun _ => does_checkType ?_
  refine does_obtain (V := .hash) (hW (by omega)) List.mem_cons_self (fun h => ?_) fun _ =>
    finishes_pure (hr _)
  refine isEmpty_insertPairs _ h (.inl (pairsOf_ne_nil ?_))
  rw [List.length_drop]
  omega

theorem hsetnx_does (hW : 1 < argv.length → W (arg argv 1)) :
    Does strict [] W Reply.isError (hsetnx argv) := by
  refine does_exactArgs fun hlen => does_checkType ?_
  have hkey := hW (by omega)
  refine does_obtain (V := .hash) hkey List.mem_cons_self (fun h => ?_) fun inserted => ?_
  · show Assoc.isEmpty _ = false
    split
    · rename_i hc
      obtain ⟨v, hv⟩ := (Assoc.contains_iff h _).mp hc
      exact isEmpty_of_lookup hv
    · exact isEmpty_insert _ _ _
  · refine finishes_ite (finishes_pure rfl) ?_
    exact finishes_bind (writes_deleteIfEmpty hkey) fun _ => finishes_pure rfl

theorem readField_reads (key field : Bytes) : Reads (readField key field) :=
  reads_bind (reads_read _ _) fun _ => reads_pure _

theorem hget_looks : Looks (hget argv) :=
  looks_bind (looks_exactArgs _ _ _) fun _ => looks_bind (looks_checkType _ _) fun _ =>
    looks_bind (looks_lift (readField_reads _ _)) fun _ => looks_pure _

theorem hmget_looks : Looks (hmget argv) :=
  looks_bind (looks_minArgs _ _ _) fun _ => looks_bind (looks_checkType _ _) fun _ =>
    looks_bind (looks_lift (reads_read _ _)) fun _ => looks_pure _

theorem hdel_does (hW : 1 < argv.length → W (arg argv 1)) :
    Does strict [] W Reply.isError (hdel argv) :=
  does_minArgs fun hlen => does_checkType <|
    does_tidied (V := .hash) (hW (by omega)) (mild_state _) fun _ _ => finishes_pure rfl

theorem hlen_looks : Looks (hlen argv) :=
  looks_bind (looks_exactArgs _ _ _) fun _ => looks_bind (looks_checkType _ _) fun _ =>
    looks_bind (looks_lift (reads_read _ _)) fun _ => looks_pure _

theorem hexists_looks : Looks (hexists argv) :=
  looks_bind (looks_exactArgs _ _ _) fun _ => looks_bind (looks_checkType _ _) fun _ =>
    looks_bind (looks_lift (readField_reads _ _)) fun _ => looks_pure _

theorem hstrlen_looks : Looks (hstrlen argv) :=
  looks_bind (looks_exactArgs _ _ _) fun _ => looks_bind (looks_checkType _ _) fun _ =>
    looks_bind (looks_lift (readField_reads _ _)) fun _ => looks_pure _

theorem hlist_looks (name : String) (pick : Bytes × Bytes → Bytes) : Looks (hlist name pick argv) :=
  looks_bind (looks_exactArgs _ _ _) fun _ => looks_bind (looks_checkType _ _) fun _ =>
    looks_bind (looks_lift (reads_read _ _)) fun _ => looks_pure _

theorem hgetall_looks : Looks (hgetall argv) :=
  looks_bind (looks_exactArgs _ _ _) fun _ => looks_bind (looks_checkType _ _) fun _ =>
    looks_bind (looks_lift (reads_read _ _)) fun _ => looks_pure _

/-- Setting one field of a hash whose type was checked. -/
theorem setField_does {key field value : Bytes} {reply : Reply} (hr : reply.isError = false)
    (hW : W key) :
    Does strict [(key, .hash)] W Reply.isError (do
      let done ← Store.getOrCreateHash key (Act.modify fun h => h.insert field value)
      expect "type checked" done
      return reply) :=
  does_obtain (V := .hash) (g := fun h => ((), h.insert field value)) hW List.mem_cons_self
    (fun _ => isEmpty_insert _ _ _) fun _ => finishes_pure hr

/-- What is stored once the current number is known. -/
theorem storeSum_does (key field : Bytes) (base delta : Int) (hW : W key) :
    Does strict [(key, .hash)] W Reply.isError (match checkedAdd base delta with
      | none => pure (.error "ERR increment or decrement would overflow")
      | some updated => do
        let done ← Store.getOrCreateHash key (Act.modify fun h => h.insert field (showIntBytes updated))
        expect "type checked" done
        return .integer updated) := by
  cases checkedAdd base delta with
  | none => exact (looks_pure _).does
  | some updated => exact setField_does rfl hW

theorem hincrby_does (hW : 1 < argv.length → W (arg argv 1)) :
    Does strict [] W Reply.isError (hincrby argv) := by
  refine does_exactArgs fun hlen => does_bind (looks_intArg _) fun delta => does_checkType ?_
  refine does_bind (looks_lift (readField_reads _ _)) fun current => ?_
  have hkey : W (arg argv 1) := hW (by omega)
  cases current with
  | none => exact storeSum_does _ _ 0 delta hkey
  | some current => exact does_bind (looks_orThrow rfl _) fun base => storeSum_does _ _ base delta hkey

theorem hincrbyfloat_does (hW : 1 < argv.length → W (arg argv 1)) :
    Does strict [] W Reply.isError (hincrbyfloat argv) := by
  refine does_exactArgs fun hlen => does_bind (looks_floatArg _) fun delta => does_checkType ?_
  refine does_bind (looks_lift (readField_reads _ _)) fun current => ?_
  have hwrite : ∀ base : F64, Does strict [(arg argv 1, .hash)] W Reply.isError
      (if !(base.add delta).isFinite then
          pure (.error "ERR increment would produce NaN or Infinity")
        else do
          let done ← Store.getOrCreateHash (arg argv 1) (Act.modify fun h =>
            h.insert (arg argv 2) (formatF64 (base.add delta)))
          expect "type checked" done
          return .bulk (formatF64 (base.add delta))) := by
    intro base
    exact does_ite (fun _ => (looks_pure _).does) fun _ => setField_does rfl (hW (by omega))
  cases current with
  | none => exact hwrite _
  | some current => exact does_bind (looks_orThrow rfl _) hwrite

/-- **Hash commands** write what the key table names. -/
theorem does {name : String} {handler : Handler} (h : (name, handler) ∈ arms) (argv : List Bytes) :
    Does strict [] (Named name argv) Reply.isError (handler argv) := by
  simp only [arms, List.mem_cons, Prod.mk.injEq, List.not_mem_nil, or_false] at h
  rcases h with ⟨rfl, rfl⟩ | ⟨rfl, rfl⟩ | ⟨rfl, rfl⟩ | ⟨rfl, rfl⟩ | ⟨rfl, rfl⟩ | ⟨rfl, rfl⟩ |
    ⟨rfl, rfl⟩ | ⟨rfl, rfl⟩ | ⟨rfl, rfl⟩ | ⟨rfl, rfl⟩ | ⟨rfl, rfl⟩ | ⟨rfl, rfl⟩ | ⟨rfl, rfl⟩ |
    ⟨rfl, rfl⟩
  · exact hset_does _ _ (fun _ => rfl) (named_first rfl)
  · exact hset_does _ _ (fun _ => rfl) (named_first rfl)
  · exact hsetnx_does (named_first rfl)
  · exact hget_looks.does
  · exact hmget_looks.does
  · exact hdel_does (named_first rfl)
  · exact hlen_looks.does
  · exact hexists_looks.does
  · exact hstrlen_looks.does
  · exact (hlist_looks _ _).does
  · exact (hlist_looks _ _).does
  · exact hgetall_looks.does
  · exact hincrby_does (named_first rfl)
  · exact hincrbyfloat_does (named_first rfl)

end Klyro.Hashes
