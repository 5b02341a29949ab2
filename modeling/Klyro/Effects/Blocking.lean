import Klyro.Commands.Dispatch
import Klyro.Commands.Keeps
import Klyro.Effects.Lists

/-!
# What the blocking pops write

* `Blocking.does` — every command of the family writes the keys the key table names, and nothing
  when it fails or parks.
-/

set_option autoImplicit false

namespace Klyro.Blocking

open Keyspace
open Lists (End popOne moveOne popFrom)

variable {W : Bytes → Prop} {argv : List Bytes} {strict : Bool} {known : List (Bytes × StoreType)}

/-! ## Arguments -/

theorem deadlineIn_reads (seconds : F64) : Reads (deadlineIn seconds) := by
  refine reads_bind reads_instantNow fun t => ?_
  refine reads_ite (fun _ => reads_panic fun _ h => by cases h) fun _ => ?_
  exact reads_ite (fun _ => reads_panic fun _ h => by cases h) fun _ => reads_pure _

theorem parseTimeout_looks (word : Bytes) : Looks (parseTimeout word) := by
  unfold parseTimeout
  cases parseF64 word with
  | none => exact looks_throw rfl
  | some seconds =>
    refine looks_ite (fun _ => looks_throw rfl) fun _ => looks_ite (fun _ => looks_throw rfl) fun _ => ?_
    refine looks_ite (fun _ => looks_pure _) fun _ => ?_
    exact looks_bind (looks_lift (deadlineIn_reads _)) fun _ => looks_pure _

theorem multiCount_fixed (options : List Bytes) : Fixed (multiCount options) := by
  unfold multiCount
  split
  · exact fixed_pure _
  · refine fixed_ite (fixed_bind (fixed_intArg _) fun n => ?_) (fixed_throw rfl)
    exact fixed_ite (fixed_pure _) (fixed_throw rfl)
  · exact fixed_throw rfl

/-- The keys of a multi-key pop are the ones the key table finds behind the count. -/
theorem parseMultiKey_fixed (argv : List Bytes) (pos : Nat) (name : String) :
    (∃ r : Reply, r.isError = true ∧ parseMultiKey argv pos name = throw r) ∨
    ∃ request count, parseMultiKey argv pos name = pure request ∧
      (argv[pos]?).bind parseI64 = some count ∧ 0 < count ∧
      request.keys = (argv.drop (pos + 1)).take count.toNat := by
  unfold parseMultiKey intArg
  cases hcount : parseI64 (arg argv pos) with
  | none => exact .inl ⟨_, rfl, rfl⟩
  | some count =>
    simp only [orThrow, pure_bind]
    split
    · exact .inl ⟨_, rfl, rfl⟩
    rename_i hpos
    split
    · exact .inl ⟨_, rfl, rfl⟩
    rename_i hlen
    rcases multiCount_fixed (argv.drop (pos + 1 + count.toNat + 1)) with ⟨n, hn⟩ | ⟨r, hr, hn⟩
    · refine .inr ⟨_, count, by rw [hn]; rfl, ?_, by omega, ?_⟩
      · rw [List.getElem?_eq_getElem (by omega), Option.bind_some, ← hcount, arg,
          List.getD_eq_getElem?_getD, List.getElem?_eq_getElem (by omega)]
        rfl
      · show (argv.take (pos + 1 + count.toNat)).drop (pos + 1) = _
        rw [List.drop_take]
        congr 1
        omega
    · exact .inl ⟨r, hr, by rw [hn]; rfl⟩

/-! ## Pops -/

/-- No reply, or an error: nothing was popped. -/
def mutely (found : Option Reply) : Bool := found.all Reply.isError

theorem popFirstList_does (side : End) (keys : List Bytes) (hW : ∀ k ∈ keys, W k) :
    Does strict known W mutely (popFirstList side keys) := by
  induction keys generalizing known with
  | nil => exact (looks_pure _).does
  | cons key keys ih =>
    refine does_checkType (does_seq (does_popOne (hW key List.mem_cons_self)) ?_ ?_)
    · intro popped hnone
      cases popped with
      | none => exact ih fun k hk => hW k (List.mem_cons_of_mem _ hk)
      | some value => cases hnone
    · intro popped hsome
      cases popped with
      | none => cases hsome
      | some value => exact finishes_pure rfl

/-- Popping up to `n` values writes unless it finds none. -/
theorem popUpTo_does {key : Bytes} (side : End) (n : Nat) (hW : W key) :
    Does strict known W List.isEmpty (liftM (popUpTo key side n) : Cmd (List Bytes)) := by
  induction n generalizing known with
  | zero => exact (looks_pure _).does
  | succ n ih =>
    refine does_lift fun e s w ht => ?_
    unfold popUpTo
    rw [Act.sat_bind]
    have hpop : Does strict known W Option.isNone (liftM (popOne key side) : Cmd (Option Bytes)) :=
      does_popOne hW
    refine Act.sat_mono (Act.satE_lift.mp (hpop e s w ht)) ?_ (fun _ h => h)
    rintro popped s₁ w₁ ⟨hmove, hquiet⟩
    cases popped with
    | none => exact ⟨hmove, fun _ => hquiet rfl⟩
    | some value =>
      have hrest : Does strict [] W List.isEmpty (liftM (popUpTo key side n) : Cmd (List Bytes)) := ih
      simp only [Act.sat_bind, Act.sat_pure]
      refine Act.sat_mono (Act.satE_lift.mp (hrest e s₁ w₁ (typed_nil s₁))) ?_ (fun _ h => h)
      exact fun rest s₂ w₂ h => ⟨hmove.trans h.1, fun h => by cases h⟩

theorem mpopLists_does (side : End) (count : Nat) (keys : List Bytes) (hW : ∀ k ∈ keys, W k) :
    Does strict known W mutely (mpopLists side count keys) := by
  induction keys generalizing known with
  | nil => exact (looks_pure _).does
  | cons key keys ih =>
    refine does_checkType (does_seq (popUpTo_does side count (hW key List.mem_cons_self)) ?_ ?_)
    · intro popped hnone
      rw [hnone]
      exact ih fun k hk => hW k (List.mem_cons_of_mem _ hk)
    · intro popped hsome
      rw [hsome]
      exact finishes_pure rfl

/-- A pop that finds nothing leaves the set as it is. -/
theorem pop_nil {z : Zset} {count : Nat} {fromMax : Bool} (h : (z.pop count fromMax).1 = []) :
    (z.pop count fromMax).2 = z := by
  obtain ⟨entries⟩ := z
  unfold Zset.pop at h ⊢
  cases fromMax with
  | true =>
    simp only [if_true, List.reverse_eq_nil_iff, List.drop_eq_nil_iff] at h ⊢
    rw [List.take_of_length_le h]
  | false =>
    simp only [Bool.false_eq_true, if_false, List.take_eq_nil_iff] at h ⊢
    rcases h with h | rfl
    · rw [h, List.drop_zero]
    · rw [List.drop_nil]

/-- What `pop_one_scored` does: nothing, or the popped members leave the set and it is tidied. -/
theorem sat_popOneScored {e : Env} {s : Store} {w : World} {key : Bytes} {edge : Edge} {count : Nat}
    {Q : List (Bytes × F64) → Store → World → Prop} {R : Panic → Prop}
    (hR : ∀ p, Store.OutOfRange s p → R p)
    (hnone : ∀ s' w', Store.Later 1 w w' →
      (∀ z d, s.view.liveAt (e.clock w.ticks) key = some (.zset z, d) →
        (z.pop count (edge == .max)).1 = []) →
      s'.view = s.view.expire (e.clock w.ticks) key → (s.Indexed → s'.Indexed) → Q [] s' w')
    (hsome : ∀ z d (s₁ : Store) (w₁ : World), Store.Later 1 w w₁ →
      s.view.liveAt (e.clock w.ticks) key = some (.zset z, d) →
      (z.pop count (edge == .max)).1 ≠ [] →
      s₁.view = Function.update s.view key (some (.zset (z.pop count (edge == .max)).2, d)) →
      (s.Indexed → s₁.Indexed) →
      ∀ (s' : Store) (w' : World), Store.Later 1 w₁ w' →
      s'.view = Function.update s₁.view key
        (Store.unlessEmpty (s₁.view.liveAt (e.clock w₁.ticks) key)) →
      (s₁.Indexed → s'.Indexed) → Q (z.pop count (edge == .max)).1 s' w') :
    Act.Sat (popOneScored key edge count) e s w Q R := by
  unfold popOneScored
  rw [Act.sat_bind]
  refine Store.sat_write (V := .zset) hR ?_ ?_
  · intro s₁ w₁ hw₁ hother hview₁ hidx₁
    exact hnone s₁ w₁ hw₁ (fun z d h => absurd h (hother z d)) hview₁ hidx₁
  · intro z d s₁ w₁ hw₁ hlive hview₁ hidx₁
    rw [Act.sat_state]
    have hset : ∀ z', (Store.setValue key (.zset z') s₁).view =
        Function.update s.view key (some (.zset z', d)) := by
      intro z'
      rw [Store.view_setValue, hview₁, expire_self, hlive, update_expire]
      rfl
    show Act.Sat (do
      if (z.pop count (edge == .max)).1.isEmpty then pure () else Store.deleteIfEmpty key
      pure (z.pop count (edge == .max)).1) e
      (Store.setValue key (.zset (z.pop count (edge == .max)).2) s₁) w₁ Q R
    rcases hpop : (z.pop count (edge == .max)).1 with _ | ⟨first, rest⟩
    · rw [pop_nil hpop]
      refine hnone _ w₁ hw₁ (fun z' d' h => ?_) ?_ (fun h => (hidx₁ h).setValue)
      · rw [hlive] at h
        cases h
        exact hpop
      · exact (hset z).trans (by rw [expire, hlive]; rfl)
    · rw [← hpop]
      have hne : (z.pop count (edge == .max)).1.isEmpty = false := by rw [hpop]; rfl
      simp only [hne, Bool.false_eq_true, if_false, Act.sat_bind, Act.sat_pure]
      refine Act.sat_mono (Store.deleteIfEmpty_spec key) ?_
        (fun p h => hR p (h.of_indexed fun h => (hidx₁ h).setValue))
      rintro _ s₂ w₂ ⟨hw₂, hview₂, hidx₂⟩
      exact hsome z d _ w₁ hw₁ hlive (by rw [hpop]; simp) (hset _) (fun h => (hidx₁ h).setValue) s₂ w₂
        hw₂ hview₂ hidx₂

theorem popOneScored_does {key : Bytes} (edge : Edge) (count : Nat) (hW : W key) :
    Does strict known W List.isEmpty
      (liftM (popOneScored key edge count) : Cmd (List (Bytes × F64))) := by
  refine does_lift fun e s w _ => ?_
  refine sat_popOneScored (fun _ h => allowed_of_outOfRange h) ?_ ?_
  · intro s' w' hw _ hview hidx
    exact ⟨.of_expire hw hview hidx, fun _ => .of_expire hw hview hidx⟩
  · intro z d s₁ w₁ hw₁ _ hpop hview₁ hidx₁ s' w' hw' hview' hidx'
    rw [hview₁, Function.update_idem] at hview'
    refine ⟨.of_update (hw₁.trans hw') hW hview' (fun h => hidx' (hidx₁ h)) fun _ v d hv => ?_, ?_⟩
    · exact Store.not_empty_of_unlessEmpty hv
    · intro hempty
      rw [List.isEmpty_iff] at hempty
      exact absurd hempty hpop

theorem popFirstZset_does (edge : Edge) (keys : List Bytes) (hW : ∀ k ∈ keys, W k) :
    Does strict known W mutely (popFirstZset edge keys) := by
  induction keys generalizing known with
  | nil => exact (looks_pure _).does
  | cons key keys ih =>
    refine does_checkType (does_seq (popOneScored_does edge 1 (hW key List.mem_cons_self)) ?_ ?_)
    · intro popped hnone
      rw [List.isEmpty_iff] at hnone
      rw [hnone]
      exact ih fun k hk => hW k (List.mem_cons_of_mem _ hk)
    · intro popped hsome
      cases popped with
      | nil => cases hsome
      | cons first rest => exact finishes_pure rfl

theorem mpopZsets_does (edge : Edge) (count : Nat) (keys : List Bytes) (hW : ∀ k ∈ keys, W k) :
    Does strict known W mutely (mpopZsets edge count keys) := by
  induction keys generalizing known with
  | nil => exact (looks_pure _).does
  | cons key keys ih =>
    refine does_checkType (does_seq (popOneScored_does edge count (hW key List.mem_cons_self)) ?_ ?_)
    · intro popped hnone
      rw [hnone]
      exact ih fun k hk => hW k (List.mem_cons_of_mem _ hk)
    · intro popped hsome
      rw [hsome]
      exact finishes_pure rfl

/-! ## The commands -/

theorem silent_new (reply : Reply) : (Response.new reply).silent = reply.isError := by
  cases reply <;> rfl

/-- The answer to what a pop found. -/
theorem answered_does {found : Cmd (Option Reply)} {f : Option Reply → Response}
    (hfound : Does strict known W mutely found)
    (hf : ∀ reply, f (some reply) = .new reply) :
    Does strict known W Response.silent (found >>= fun r => pure (f r)) := by
  refine does_seq hfound (fun _ _ => (looks_pure _).does) fun r hr => finishes_pure ?_
  cases r with
  | none => cases hr
  | some reply =>
    rw [hf, silent_new]
    simpa [mutely] using hr

theorem blpop_does (name : String) (side : End) (client : Client)
    (hW : ∀ k ∈ keysBeforeTimeout argv, W k) :
    Does strict [] W Response.silent (blpop name side client argv) :=
  does_bind (looks_minArgs _ _ _) fun _ => does_bind (parseTimeout_looks _) fun _ =>
    answered_does (popFirstList_does side _ hW) fun _ => rfl

theorem bzpop_does (name : String) (edge : Edge) (client : Client)
    (hW : ∀ k ∈ keysBeforeTimeout argv, W k) :
    Does strict [] W Response.silent (bzpop name edge client argv) :=
  does_bind (looks_minArgs _ _ _) fun _ => does_bind (parseTimeout_looks _) fun _ =>
    answered_does (popFirstZset_does edge _ hW) fun _ => rfl

theorem blockingMove_does (client : Client) (ends : End × End) (timeout : Bytes)
    (hW : W (arg argv 1)) (hW' : W (arg argv 2)) :
    Does strict [] W Response.silent (blockingMove client argv ends timeout) := by
  refine does_bind (parseTimeout_looks _) fun deadline => does_checkType (does_checkType ?_)
  refine does_seq (does_moveOne hW hW' List.mem_cons_self) (fun _ _ => (looks_pure _).does) ?_
  intro moved hmoved
  cases moved with
  | none => cases hmoved
  | some value => exact finishes_pure rfl

/-- The shape of the four multi-key pops. -/
theorem multi_does {name : String} {pos : Nat} {β : Type} {parse : Bytes → Option β}
    {pop : MultiKey → β → Cmd (Option Reply)} {f : MultiKey → Option Reply → Response}
    (hpop : ∀ request b, (∀ k ∈ request.keys, W k) → Does strict [] W mutely (pop request b))
    (hf : ∀ request reply, f request (some reply) = .new reply)
    (hW : ∀ count, (argv[pos]?).bind parseI64 = some count →
      ∀ k ∈ (argv.drop (pos + 1)).take count.toNat, W k) :
    Does strict [] W Response.silent (do
      let request ← parseMultiKey argv pos name
      let b ← orThrow syntaxError (parse request.direction)
      let found ← pop request b
      return f request found) := by
  rcases parseMultiKey_fixed argv pos name with ⟨r, hr, heq⟩ | ⟨request, count, heq, hcount, _, hkeys⟩
  · rw [heq]
    exact fun _ _ _ _ => ⟨hr, .refl⟩
  · rw [heq, pure_bind]
    refine does_bind (looks_orThrow rfl _) fun b => ?_
    refine answered_does (hpop request b ?_) (hf request)
    rw [hkeys]
    exact hW count hcount

/-- **Blocking commands** write what the key table names, and nothing when they park. -/
theorem does {name : String} {handler : Client → List Bytes → Cmd Response}
    (h : (name, handler) ∈ arms) (client : Client) (argv : List Bytes) :
    Does strict [] (Named name argv) Response.silent (handler client argv) := by
  simp only [arms, List.mem_cons, Prod.mk.injEq, List.not_mem_nil, or_false] at h
  rcases h with ⟨rfl, rfl⟩ | ⟨rfl, rfl⟩ | ⟨rfl, rfl⟩ | ⟨rfl, rfl⟩ | ⟨rfl, rfl⟩ | ⟨rfl, rfl⟩ |
    ⟨rfl, rfl⟩ | ⟨rfl, rfl⟩ | ⟨rfl, rfl⟩ | ⟨rfl, rfl⟩
  · exact blpop_does _ _ _ fun k => named_allButTimeout rfl
  · exact blpop_does _ _ _ fun k => named_allButTimeout rfl
  · refine does_exactArgs fun hlen => does_bind (Lists.moveEnds_looks) fun ends => ?_
    have hkeys : Named "BLMOVE" argv (arg argv 1) ∧ Named "BLMOVE" argv (arg argv 2) :=
      named_two rfl (by omega)
    exact blockingMove_does _ _ _ hkeys.1 hkeys.2
  · refine does_exactArgs fun hlen => ?_
    have hkeys : Named "BRPOPLPUSH" argv (arg argv 1) ∧ Named "BRPOPLPUSH" argv (arg argv 2) :=
      named_two rfl (by omega)
    exact blockingMove_does _ _ _ hkeys.1 hkeys.2
  · exact does_bind (looks_minArgs _ _ _) fun _ =>
      multi_does (fun request side => mpopLists_does side _ _) (fun _ _ => rfl)
        fun count hcount k => named_numkeys rfl hcount
  · exact does_bind (looks_minArgs _ _ _) fun _ => does_bind (parseTimeout_looks _) fun _ =>
      multi_does (fun request side => mpopLists_does side _ _) (fun _ _ => rfl)
        fun count hcount k => named_numkeys rfl hcount
  · exact bzpop_does _ _ _ fun k => named_allButTimeout rfl
  · exact bzpop_does _ _ _ fun k => named_allButTimeout rfl
  · exact does_bind (looks_minArgs _ _ _) fun _ =>
      multi_does (fun request edge => mpopZsets_does edge _ _) (fun _ _ => rfl)
        fun count hcount k => named_numkeys rfl hcount
  · exact does_bind (looks_minArgs _ _ _) fun _ => does_bind (parseTimeout_looks _) fun _ =>
      multi_does (fun request edge => mpopZsets_does edge _ _) (fun _ _ => rfl)
        fun count hcount k => named_numkeys rfl hcount

end Klyro.Blocking
