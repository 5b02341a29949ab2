import Klyro.Commands.Sets
import Klyro.Effects.Hashes

/-!
# What the set commands write

`Sets.does` — every set command writes the keys the key table names and nothing when it fails.
-/

set_option autoImplicit false

namespace Klyro.Sets

open Hashes (isEmpty_insert isEmpty_of_lookup)
open Keyspace

variable {W : Bytes → Prop} {argv : List Bytes} {strict : Bool} {known : List (Bytes × StoreType)}

theorem isEmpty_insertAll (ms : List Bytes) : ∀ s : SetValue,
    ms ≠ [] ∨ s.isEmpty = false → (insertAll ms s).2.isEmpty = false := by
  induction ms with
  | nil => exact fun s hs => hs.resolve_left fun h => h rfl
  | cons m ms ih => exact fun s _ => ih (s.insert m ()) (.inr (isEmpty_insert _ _ _))

theorem sadd_does (hW : 1 < argv.length → W (arg argv 1)) :
    Does strict [] W Reply.isError (sadd argv) := by
  refine does_minArgs fun hlen => does_checkType ?_
  refine does_obtain (V := .set) (hW (by omega)) List.mem_cons_self (fun s => ?_) fun _ =>
    finishes_pure rfl
  refine isEmpty_insertAll _ s (.inl fun h => ?_)
  have := congrArg List.length h
  rw [List.length_drop, List.length_nil] at this
  omega

theorem srem_does (hW : 1 < argv.length → W (arg argv 1)) :
    Does strict [] W Reply.isError (srem argv) :=
  does_minArgs fun hlen => does_checkType <|
    does_tidied (V := .set) (hW (by omega)) (mild_state _) fun _ _ => finishes_pure rfl

theorem sismember_looks : Looks (sismember argv) :=
  looks_bind (looks_exactArgs _ _ _) fun _ => looks_bind (looks_checkType _ _) fun _ =>
    looks_bind (looks_lift (reads_read _ _)) fun _ => looks_pure _

theorem smismember_looks : Looks (smismember argv) :=
  looks_bind (looks_minArgs _ _ _) fun _ => looks_bind (looks_checkType _ _) fun _ =>
    looks_bind (looks_lift (reads_read _ _)) fun _ => looks_pure _

theorem scard_looks : Looks (scard argv) :=
  looks_bind (looks_exactArgs _ _ _) fun _ => looks_bind (looks_checkType _ _) fun _ =>
    looks_bind (looks_lift (reads_read _ _)) fun _ => looks_pure _

theorem smembers_looks : Looks (smembers argv) :=
  looks_bind (looks_exactArgs _ _ _) fun _ => looks_bind (looks_checkType _ _) fun _ =>
    looks_bind (looks_lift (reads_read _ _)) fun _ => looks_pure _

theorem pickCount_looks (name : String) : Looks (pickCount argv name) :=
  looks_ite (fun _ => looks_pure _) fun _ =>
    looks_ite (fun _ => looks_bind (looks_intArg _) fun _ => looks_pure _) fun _ => looks_throw rfl

/-- The draws use the generator only. -/
theorem sat_below {σ : Type} (n : Nat) (e : Env) (t : σ) (w : World) :
    Act.Sat (below n) e t w (fun _ t' w' => t' = t ∧ w'.ticks = w.ticks) (fun _ => False) := by
  unfold below
  split
  · exact ⟨rfl, rfl⟩
  · exact ⟨rfl, rfl⟩

theorem takeLoop_mild (n : Nat) : ∀ pool, Mild (takeLoop n pool) := by
  induction n with
  | zero => exact fun _ _ _ _ => le_rfl
  | succ n ih =>
    intro pool e s w
    unfold takeLoop
    rw [Act.sat_bind]
    refine Act.sat_mono (sat_below _ e s w) ?_ (fun _ h => h.elim)
    rintro i s₁ w₁ ⟨rfl, hw₁⟩
    split
    · simp only [Act.sat_bind, Act.sat_modify, Act.sat_pure]
      refine Act.sat_mono (ih _ e _ w₁) ?_ (fun _ h => h)
      intro _ _ w₂ hw₂
      omega
    · intro message h
      cases h

theorem takeRandom_mild (count : Nat) : Mild (takeRandom count) := by
  intro e s w
  unfold takeRandom
  rw [Act.sat_bind, Act.sat_get]
  exact takeLoop_mild _ _ e s w

theorem spop_does (hW : 1 < argv.length → W (arg argv 1)) :
    Does strict [] W Reply.isError (spop argv) := by
  refine does_minArgs fun hlen => does_bind (pickCount_looks _) fun count => ?_
  refine does_ite (fun _ => (looks_pure _).does) fun _ => does_checkType ?_
  refine does_tidied (V := .set) (hW hlen) (takeRandom_mild _) fun taken _ => finishes_pure ?_
  cases count with
  | none => exact isError_bulkOrNil _
  | some c => rfl

theorem drawLoop_reads (pool : List Bytes) : ∀ n, Reads (drawLoop pool n)
  | 0 => reads_pure _
  | n + 1 => reads_bind (reads_of_same fun e s w =>
      Act.sat_mono (sat_below _ e s w) (fun _ _ _ h => ⟨h.1, h.2.ge⟩) fun _ h => h.elim) fun _ =>
    reads_bind (drawLoop_reads pool n) fun _ => reads_pure _

theorem srandmember_looks : Looks (srandmember argv) := by
  refine looks_bind (looks_minArgs _ _ _) fun _ => looks_bind (pickCount_looks _) fun count => ?_
  refine looks_bind (looks_checkType _ _) fun _ => looks_bind (looks_lift (reads_read _ _)) fun s => ?_
  refine looks_ite (fun _ => looks_bind (looks_lift (drawLoop_reads _ _)) fun _ => looks_pure _)
    fun _ => looks_bind (looks_lift (reads_of_same fun e store w => ?_)) fun _ => looks_pure _
  rw [Act.sat_zoom]
  exact Act.sat_mono (takeRandom_mild _ e _ w) (fun _ _ _ h => ⟨rfl, h⟩) fun _ h => h

theorem checkSets_looks : ∀ keys, Looks (checkSets keys)
  | [] => looks_pure _
  | _ :: keys => looks_bind (looks_checkType _ _) fun _ => checkSets_looks keys

/-- The algebra finds at least one set when it is given at least one key. -/
theorem does_combine {α : Type} {mute : α → Bool} {op : Algebra} {keys : List Bytes}
    {f : List Bytes → Cmd α} (hkeys : keys ≠ []) (hf : ∀ r, Does strict known W mute (f r)) :
    Does strict known W mute (collectSets keys >>= fun sets => combine op sets >>= f) := by
  unfold collectSets
  rw [bind_assoc]
  refine does_bind (checkSets_looks keys) fun _ => ?_
  intro e s w ht
  rw [Act.satE_bind, Act.satE_lift]
  refine Act.sat_mono (sat_mapList (fun _ => reads_bind (reads_read _ _) fun _ => reads_pure _) keys
    e s w) ?_ (fun _ h => h.allowed)
  rintro sets s' w' ⟨hq, hlen⟩
  cases sets with
  | nil => exact absurd (List.length_eq_zero_iff.mp hlen.symm) hkeys
  | cons first others => exact (does_bind (looks_pure _) hf).after (ht.of_quiet hq) hq

theorem algebra_does (name : String) (op : Algebra) :
    Does strict [] W Reply.isError (algebra name op argv) := by
  refine does_minArgs fun hlen => does_combine ?_ fun _ => (looks_pure _).does
  rw [← List.length_pos_iff, List.length_drop]
  omega

theorem isEmpty_foldl_insert {result : List Bytes} (h : result ≠ []) (s : SetValue) :
    Assoc.isEmpty (result.foldl (fun s m => s.insert m ()) s) = false := by
  obtain ⟨result, m, rfl⟩ := result.eq_nil_or_concat.resolve_left h
  rw [List.concat_eq_append, List.foldl_append]
  exact isEmpty_insert _ _ _

/-- Filling a key that was just deleted. -/
theorem refill_does {key : Bytes} {result : List Bytes} {reply : Reply} (hr : reply.isError = false)
    (hW : W key) :
    Does strict known W Reply.isError (do
      let _ ← Store.del key
      if 0 < result.length then
        let done ← Store.getOrCreateSet key (Act.modify fun s =>
          result.foldl (fun s m => s.insert m ()) s)
        expect "just deleted, so it is free" done
      return reply) := by
  intro e s w _
  rw [Act.satE_bind, Act.satE_lift]
  refine Act.sat_mono (Store.del_spec key) ?_ (fun _ h => allowed_of_outOfRange h)
  rintro _ s₁ w₁ ⟨hw₁, -, hview₁, hidx₁⟩
  have hmove : Moves e W s w s₁ w₁ := .of_update hw₁ hW hview₁ hidx₁ fun _ v d hv => by cases hv
  split
  · rename_i hlen
    -- a key that is not there is of every type
    have hfree : ∀ x d, s₁.view key = some (x, d) → x.typeOf = Variant.set.type := by
      intro x d hx
      rw [hview₁, Function.update_self] at hx
      cases hx
    refine Act.satE_mono (sat_obtain (V := .set) (g := fun s =>
      ((), result.foldl (fun s m => s.insert m ()) s)) hW hfree
      (fun s => isEmpty_foldl_insert (List.length_pos_iff.mp hlen) s) fun _ => finishes_pure hr) ?_
      (fun _ _ _ h => h.elim) (fun _ h => h)
    exact fun a s' w' h => ⟨hmove.trans h.1, fun hmute => by rw [h.2] at hmute; cases hmute⟩
  · exact (finishes_pure hr).after hmove

theorem algebraStore_does (name : String) (op : Algebra) (hW : 1 < argv.length → W (arg argv 1)) :
    Does strict [] W Reply.isError (algebraStore name op argv) := by
  refine does_minArgs fun hlen => does_checkType (does_combine ?_ fun result =>
    refill_does rfl (hW (by omega)))
  rw [← List.length_pos_iff, List.length_drop]
  omega

theorem erase_of_not_contains {s : SetValue} {m : Bytes} (h : s.contains m = false) : s.erase m = s := by
  apply AList.ext
  refine List.kerase_of_notMem_keys fun hmem => ?_
  have hsome : (s.lookup m).isSome = true := AList.lookup_isSome.mpr hmem
  rw [← Assoc.contains, h] at hsome
  cases hsome

theorem smove_does (hW : 2 < argv.length → W (arg argv 1) ∧ W (arg argv 2)) :
    Does strict [] W Reply.isError (smove argv) := by
  refine does_exactArgs fun hlen => does_checkType (does_checkType ?_)
  obtain ⟨hsource, hdest⟩ := hW (by omega)
  intro e s w ht
  rw [Act.satE_bind, Act.satE_lift]
  refine Store.sat_write (V := .set) (fun _ h => allowed_of_outOfRange h) ?_ ?_
  · intro s₁ w₁ hw₁ _ hview₁ hidx₁
    exact ⟨.of_expire hw₁ hview₁ hidx₁, fun _ => .of_expire hw₁ hview₁ hidx₁⟩
  · intro v d s₀ w₁ hw₁ hlive hview₀ hidx₀
    rw [Act.sat_state]
    have hidx₁ : s.Indexed → (Store.setValue (arg argv 1) (.set (v.erase (arg argv 3))) s₀).Indexed :=
      fun h => (hidx₀ h).setValue
    have hview₁ : (Store.setValue (arg argv 1) (.set (v.erase (arg argv 3))) s₀).view =
        Function.update s.view (arg argv 1) (some (.set (v.erase (arg argv 3)), d)) := by
      rw [Store.view_setValue, hview₀, expire_self, hlive, update_expire]
      rfl
    show Act.SatE (if (!v.contains (arg argv 3)) = true then pure (Reply.bool false) else _) e
      (Store.setValue (arg argv 1) (.set (v.erase (arg argv 3))) s₀) w₁ _ _ _
    generalize Store.setValue (arg argv 1) (.set (v.erase (arg argv 3))) s₀ = s₁ at hidx₁ hview₁
    cases hc : v.contains (arg argv 3) with
    | false =>
      rw [erase_of_not_contains hc] at hview₁
      have hq : ∀ W, Moves e W s w s₁ w₁ := fun W => by
        have hexpired : s₁.view = s.view.expire (e.clock w.ticks) (arg argv 1) := by
          rw [hview₁, expire, hlive]
          rfl
        exact .of_expire hw₁ hexpired hidx₁
      exact ⟨hq W, fun _ => hq _⟩
    | true =>
      have hR₁ : ∀ p, Store.OutOfRange s₁ p → Allowed strict p := fun p h => allowed_of_outOfRange h
      simp only [Bool.not_true, Bool.false_eq_true, if_false, Act.satE_bind, Act.satE_lift]
      have htype₁ : ∀ x d, s₁.view (arg argv 2) = some (x, d) → x.typeOf = .set := by
        intro x d' hx
        rw [hview₁] at hx
        by_cases hk : arg argv 2 = arg argv 1
        · rw [hk, Function.update_self] at hx
          cases hx
          rfl
        · rw [Function.update_of_ne hk] at hx
          exact ht _ List.mem_cons_self x d' hx
      refine Store.sat_getOrCreate (V := .set) hR₁ ?_ ?_
      · intro x dx s₂ w₂ _ hlive₁ hnot _ _
        exfalso
        unfold liveAt at hlive₁
        split at hlive₁
        · cases hlive₁
        · have hsome' := (Variant.set.isSome_unwrap x).mpr (htype₁ x dx hlive₁)
          rw [hnot] at hsome'
          cases hsome'
      · intro m dm s₂ w₂ hw₂ _ hview₂ hidx₂
        rw [Act.sat_modify]
        show Act.Sat (Store.deleteIfEmpty (arg argv 1)) e
          (Store.setValue (arg argv 2) (.set (m.insert (arg argv 3) ())) s₂) w₂ _ _
        have hview₃ : (Store.setValue (arg argv 2) (.set (m.insert (arg argv 3) ())) s₂).view =
            Function.update s₁.view (arg argv 2) (some (.set (m.insert (arg argv 3) ()), dm)) := by
          rw [Store.view_setValue, hview₂, Function.update_self, Function.update_idem]
          rfl
        refine Act.sat_mono (Store.deleteIfEmpty_spec (arg argv 1)) ?_
          (fun p h => allowed_of_outOfRange h)
        rintro _ s' w' ⟨hw', hview', hidx'⟩
        have hticks : w.ticks ≤ w'.ticks := by
          have := hw₁.ticks
          have := hw₂.ticks
          have := hw'.ticks
          omega
        refine ⟨.of_transfer hticks hsource hdest hview₁ hview₃ (fun v d hv => ?_) hview'
          fun h => hidx' (hidx₂ (hidx₁ h)).setValue, fun h => by cases h⟩
        cases hv
        exact isEmpty_insert _ _ _

/-- **Set commands** write what the key table names. -/
theorem does {name : String} {handler : Handler} (h : (name, handler) ∈ arms) (argv : List Bytes) :
    Does strict [] (Named name argv) Reply.isError (handler argv) := by
  simp only [arms, List.mem_cons, Prod.mk.injEq, List.not_mem_nil, or_false] at h
  rcases h with ⟨rfl, rfl⟩ | ⟨rfl, rfl⟩ | ⟨rfl, rfl⟩ | ⟨rfl, rfl⟩ | ⟨rfl, rfl⟩ | ⟨rfl, rfl⟩ |
    ⟨rfl, rfl⟩ | ⟨rfl, rfl⟩ | ⟨rfl, rfl⟩ | ⟨rfl, rfl⟩ | ⟨rfl, rfl⟩ | ⟨rfl, rfl⟩ | ⟨rfl, rfl⟩ |
    ⟨rfl, rfl⟩ | ⟨rfl, rfl⟩
  · exact sadd_does (named_first rfl)
  · exact srem_does (named_first rfl)
  · exact sismember_looks.does
  · exact smismember_looks.does
  · exact scard_looks.does
  · exact smembers_looks.does
  · exact spop_does (named_first rfl)
  · exact srandmember_looks.does
  · exact smove_does (named_two rfl)
  · exact algebra_does _ _
  · exact algebra_does _ _
  · exact algebra_does _ _
  · exact algebraStore_does _ _ fun hlen => named_range 0 rfl rfl (by norm_num; omega) hlen (by omega)
  · exact algebraStore_does _ _ fun hlen => named_range 0 rfl rfl (by norm_num; omega) hlen (by omega)
  · exact algebraStore_does _ _ fun hlen => named_range 0 rfl rfl (by norm_num; omega) hlen (by omega)

end Klyro.Sets
