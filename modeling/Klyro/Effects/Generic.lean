import Klyro.Commands.Generic
import Klyro.Effects.Memories

/-!
# What the generic commands write

`Generic.does` — every command on keys of any type writes the keys the key table names and nothing
when it fails.  `COPY` onto the key itself is the one whose `expect` can fail.
-/

set_option autoImplicit false

namespace Klyro.Generic

open Keyspace

-- the elaborator would evaluate the test of the range
attribute [local irreducible] addDuration

variable {W : Bytes → Prop} {argv : List Bytes} {strict : Bool} {known : List (Bytes × StoreType)}

theorem del_does (name : String) (hW : ∀ key ∈ argv.drop 1, W key) :
    Does strict [] W Reply.isError (del name argv) :=
  does_bind (looks_minArgs _ _ _) fun _ =>
    does_writes (writes_countList fun key hkey => writes_del (hW key hkey)) fun _ => finishes_pure rfl

theorem hasKeys_looks : Looks (hasKeys argv) :=
  looks_bind (looks_minArgs _ _ _) fun _ =>
    looks_bind (looks_lift (reads_countList reads_hasKey _)) fun _ => looks_pure _

theorem expireVariant_does (name : String) {toDeadline : Int → Run Store SystemTime}
    (hdeadline : ∀ n, Reads (toDeadline n)) (hW : 1 < argv.length → W (arg argv 1)) :
    Does strict [] W Reply.isError (expireVariant name toDeadline argv) := by
  refine does_exactArgs fun hlen => does_bind (looks_intArg _) fun amount => ?_
  refine does_bind (looks_lift (hdeadline amount)) fun deadline => ?_
  refine does_writes (writes_setExpireAt _ (hW (by omega))) fun done => finishes_pure ?_
  cases done <;> rfl

theorem persist_does (hW : 1 < argv.length → W (arg argv 1)) :
    Does strict [] W Reply.isError (persist argv) := by
  refine does_exactArgs fun hlen => does_bind (looks_lift (reads_hasExpiry _)) fun had => ?_
  refine does_ite (fun _ => ?_) fun _ => (looks_pure _).does
  refine does_writes (writes_setExpireAt _ (hW (by omega))) fun _ => finishes_pure ?_
  cases had <;> rfl

theorem reads_ofNow {α : Type} (f : SystemTime → Store → α) : Reads (do
    let t ← now
    let s ← Act.get
    pure (f t s)) :=
  reads_bind reads_now fun _ => reads_bind reads_get fun _ => reads_pure _

theorem reads_scan (cursor count : Nat) : Reads (Store.scan cursor count) := by
  refine reads_bind reads_now fun t => reads_bind reads_get fun s => ?_
  refine reads_ite (fun _ => reads_pure _) fun _ => reads_ite (fun _ => ?_) fun _ => reads_pure _
  exact reads_panic fun _ h => by cases h

theorem randomKeyLoop_reads (t : SystemTime) (n : Nat) : Reads (Store.randomKeyLoop t n) := by
  have hbelow : ∀ m, Reads (below m) := fun m =>
    reads_ite (fun _ => reads_pure _) fun _ =>
      reads_bind (reads_of_same fun _ _ _ => ⟨rfl, le_rfl⟩) fun _ => reads_pure _
  induction n with
  | zero => exact reads_pure _
  | succ n ih =>
    refine reads_bind reads_get fun s => reads_ite (fun _ => reads_pure _) fun _ => ?_
    refine reads_bind (hbelow _) fun i => ?_
    cases s.keys[i]? with
    | none => exact reads_panic fun _ h => by cases h
    | some key => exact reads_ite (fun _ => reads_pure _) fun _ => ih

theorem randomKey_reads : Reads Store.randomKey :=
  reads_bind reads_now fun t => randomKeyLoop_reads t _

theorem scanCursor_looks (word : Bytes) : Looks (scanCursor word) := by
  unfold scanCursor
  split
  · exact looks_ite (fun _ => looks_pure _) fun _ => looks_throw rfl
  · exact looks_throw rfl

theorem scanOptions_looks (fuel : Nat) : ∀ words options, Looks (scanOptions fuel words options) := by
  induction fuel with
  | zero => exact fun _ _ => looks_pure _
  | succ fuel ih =>
    intro words options
    rcases words with _ | ⟨word, _ | ⟨value, rest⟩⟩
    · exact looks_pure _
    · exact looks_throw rfl
    · refine looks_ite (fun _ => ih _ _) fun _ => looks_ite (fun _ => ?_) fun _ => looks_throw rfl
      exact looks_bind (looks_intArg _) fun c => looks_ite (fun _ => ih _ _) fun _ => looks_throw rfl

theorem rename_does (hW : 2 < argv.length → W (arg argv 1) ∧ W (arg argv 2)) :
    Does strict [] W Reply.isError (rename argv) := by
  refine does_exactArgs fun hlen => does_bind (looks_lift (reads_hasKey _)) fun there => ?_
  obtain ⟨hsource, hdest⟩ := hW (by omega)
  refine does_ite (fun _ => (looks_pure _).does) fun _ => ?_
  exact does_writes (writes_rename hsource hdest) fun _ => finishes_pure rfl

theorem renamenx_does (hW : 2 < argv.length → W (arg argv 1) ∧ W (arg argv 2)) :
    Does strict [] W Reply.isError (renamenx argv) := by
  refine does_exactArgs fun hlen => does_bind (looks_lift (reads_hasKey _)) fun there => ?_
  obtain ⟨hsource, hdest⟩ := hW (by omega)
  refine does_ite (fun _ => (looks_pure _).does) fun _ => ?_
  refine does_branch (looks_lift (reads_hasKey _)) (looks_pure _) fun taken => ?_
  refine does_ite (fun _ => (looks_pure _).does) fun _ => ?_
  exact does_writes (writes_rename hsource hdest) fun _ => finishes_pure rfl

theorem isEmptyCollection_cloneValue {e : Env} {s : Store} {w : World} (x : Value) :
    Act.Sat (Store.cloneValue x) e s w
      (fun x' s' w' => s' = s ∧ w.ticks ≤ w'.ticks ∧ x'.isEmptyCollection = x.isEmptyCollection)
      NoExpect := by
  refine Store.sat_cloneValue (fun _ => ⟨rfl, le_rfl, rfl⟩) fun m hm => ?_
  refine Act.sat_mono (Memory.clone_mild e m w) ?_ (fun _ h => h)
  intro m' _ w' hw
  rw [hm]
  exact ⟨rfl, hw, rfl⟩

/-- A copy writes its destination only. -/
theorem writes_copy {key dest : Bytes} {replace : Bool} (hdest : W dest)
    (hself : strict = true → replace = false → dest ≠ key) :
    Writes strict known W (Store.copy key dest replace) := by
  intro e s w _
  refine Store.sat_copy (fun _ h => allowed_of_outOfRange h) ?_ ?_ ?_ ?_
  · exact fun s' w' hw _ hview hidx => .of_expire hw hview hidx
  · intro s' w' hw _ _ _ hview hidx
    refine .of_kept (by rw [hw.ticks]; omega) (fun k => ?_) hidx
    rw [hview]
    exact (kept_expire le_rfl (by rw [hw.ticks]; omega) s.view k).absorb
      (kept_expire (by omega) (by rw [hw.ticks]; omega) _ k)
  · intro hreplace hkey _ _ hstrict
    exact absurd hkey (hself hstrict hreplace)
  · intro x d s' w' hw hlive hview _ hidx
    have hkept : ∀ k, Kept e w w' (s.view k) (s'.view k) := by
      intro k
      rw [hview]
      cases replace with
      | true => exact kept_expire le_rfl (by rw [hw.ticks]; simp) s.view k
      | false =>
        exact (kept_expire le_rfl (by rw [hw.ticks]; simp) s.view k).absorb
          (kept_expire (by omega) (by rw [hw.ticks]; simp) _ k)
    have hq : Quiet e s w s' w' := .of_kept (by rw [hw.ticks]; omega) hkept hidx
    refine Act.sat_mono (isEmptyCollection_cloneValue x) ?_ (fun _ h => h.allowed)
    rintro x' s₁ w'' ⟨rfl, hw'', hempty⟩
    refine ⟨rfl, fun s'' hview'' hidx'' => ⟨hq.ticks.trans hw'', fun k hk => ?_,
      fun h => hidx'' (hidx h), fun hn k v dv hv => ?_⟩⟩
    · rw [hview'', Function.update_of_ne]
      · exact (hq.kept k id).trans (.inl rfl) hq.ticks hw''
      · rintro rfl
        exact hk hdest
    · rw [hview''] at hv
      by_cases hk : k = dest
      · subst hk
        rw [Function.update_self] at hv
        cases hv
        rw [hempty]
        exact nonEmpty_liveAt hn hlive
      · rw [Function.update_of_ne hk] at hv
        exact hq.nonEmpty hn k v dv hv

theorem copy_does (hself : strict = true → argv.length = 3 → arg argv 1 ≠ arg argv 2)
    (hW : 2 < argv.length → W (arg argv 2)) : Does strict [] W Reply.isError (copy argv) := by
  refine does_minArgs fun hlen => ?_
  have hcopy : ∀ replace, (strict = true → replace = false → arg argv 2 ≠ arg argv 1) →
      Does strict [] W Reply.isError (do
        let copied ← Store.copy (arg argv 1) (arg argv 2) replace
        return .bool (copied.getD false)) := by
    intro replace hne
    refine does_writes (writes_copy (hW hlen) hne) fun copied => finishes_pure ?_
    cases copied.getD false <;> rfl
  unfold copyReplace
  intro e s w ht
  split
  · rename_i hthree
    exact hcopy false (fun h _ => (hself h hthree).symm) e s w ht
  · split
    · exact hcopy true (fun _ h => by cases h) e s w ht
    · exact ⟨rfl, .refl⟩

/-- **Generic commands** write what the key table names. -/
theorem does {config : Config} {name : String} {handler : Handler}
    (h : (name, handler) ∈ arms config) (argv : List Bytes)
    (hself : strict = true → name = "COPY" → argv.length = 3 → arg argv 1 ≠ arg argv 2) :
    Does strict [] (Named name argv) Reply.isError (handler argv) := by
  simp only [arms, List.mem_cons, Prod.mk.injEq, List.not_mem_nil, or_false] at h
  rcases h with ⟨rfl, rfl⟩ | ⟨rfl, rfl⟩ | ⟨rfl, rfl⟩ | ⟨rfl, rfl⟩ | ⟨rfl, rfl⟩ | ⟨rfl, rfl⟩ |
    ⟨rfl, rfl⟩ | ⟨rfl, rfl⟩ | ⟨rfl, rfl⟩ | ⟨rfl, rfl⟩ | ⟨rfl, rfl⟩ | ⟨rfl, rfl⟩ | ⟨rfl, rfl⟩ |
    ⟨rfl, rfl⟩ | ⟨rfl, rfl⟩ | ⟨rfl, rfl⟩ | ⟨rfl, rfl⟩ | ⟨rfl, rfl⟩ | ⟨rfl, rfl⟩ | ⟨rfl, rfl⟩
  · exact del_does _ fun _ => named_all rfl
  · exact del_does _ fun _ => named_all rfl
  · exact hasKeys_looks.does
  · exact expireVariant_does _ (fun _ => reads_deadlineAfterMillis _) (named_first rfl)
  · exact expireVariant_does _ reads_deadlineAfterMillis (named_first rfl)
  · exact expireVariant_does _ (fun _ => reads_deadlineAtUnixMillis _) (named_first rfl)
  · exact expireVariant_does _ reads_deadlineAtUnixMillis (named_first rfl)
  · exact persist_does (named_first rfl)
  · exact (looks_bind (looks_exactArgs _ _ _) fun _ =>
      looks_bind (looks_lift (reads_ttl _)) fun _ => looks_pure _).does
  · exact (looks_bind (looks_exactArgs _ _ _) fun _ =>
      looks_bind (looks_lift (reads_pttlMs _)) fun _ => looks_pure _).does
  · exact (looks_bind (looks_exactArgs _ _ _) fun _ =>
      looks_bind (looks_lift (reads_typeOf _)) fun _ => looks_pure _).does
  · exact (looks_bind (looks_exactArgs _ _ _) fun _ =>
      looks_bind (looks_lift (reads_ofNow _)) fun _ => looks_pure _).does
  · exact (looks_bind (looks_minArgs _ _ _) fun _ => looks_bind (scanCursor_looks _) fun _ =>
      looks_bind (scanOptions_looks _ _ _) fun _ =>
      looks_bind (looks_lift (reads_scan _ _)) fun _ => looks_pure _).does
  · exact (looks_bind (looks_exactArgs _ _ _) fun _ =>
      looks_bind (looks_lift (reads_ofNow _)) fun _ => looks_pure _).does
  · exact rename_does (named_two rfl)
  · exact renamenx_does (named_two rfl)
  · exact copy_does (fun hs => hself hs rfl) fun hlen => (named_two rfl hlen).2
  · exact (looks_bind (looks_exactArgs _ _ _) fun _ =>
      looks_bind (looks_lift randomKey_reads) fun _ => looks_pure _).does
  · exact does_writes (writes_flush (named_everything rfl)) fun _ => finishes_pure rfl
  · exact does_writes (writes_flush (named_everything rfl)) fun _ => finishes_pure rfl

end Klyro.Generic
