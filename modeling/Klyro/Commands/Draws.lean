import Klyro.Store.Refine
import Klyro.Trends.Saved

/-!
# Random draws from a set

`SPOP` and `SRANDMEMBER` draw from a vector that shrinks by `swap_remove`, with whatever the random
generator says.

* `takeLoop_draws`, `takeRandom_draws` — what is taken and what is left are the set, in another
  order.
* `Met`, `spop_draws`, `srandmember_draws` — the two commands, at any readings of the clock.
* `Turn`, `Turns` — commands of any clients one after the other, the SPOPs among them told apart.
* `draws_exact` — every member is handed out once.
-/

set_option autoImplicit false

namespace Klyro.Sets

open Keyspace Store

variable {e : Env} {s : Store} {w : World}

/-! ## The loops -/

theorem keys_perm_erase {t : SetValue} {m : Bytes} (h : m ∈ t.keys) :
    t.keys.Perm (m :: (t.erase m).keys) := by
  rw [AList.keys_erase]
  exact @List.perm_cons_erase Bytes instBEqOfDecidableEq _ m t.keys h

/-- **The draws of `take_random`**, from a vector that holds what the set holds. -/
theorem takeLoop_draws : ∀ (n : Nat) (pool : List Bytes) (t : SetValue) (w : World),
    pool.Perm t.keys → n ≤ pool.length →
    Act.Sat (takeLoop n pool) e t w (fun taken t' w' => Later 0 w w' ∧ taken.length = n ∧
      (taken ++ t'.keys).Perm t.keys) (fun _ => False)
  | 0, _, _, w, _, _ => ⟨.refl w, rfl, .refl _⟩
  | n + 1, pool, t, w, hpool, hn => by
    unfold takeLoop
    rw [Act.sat_bind]
    refine Act.sat_mono (below_spec pool.length) ?_ (fun _ h => h)
    rintro i t₁ w₁ ⟨rfl, hw₁, hi⟩
    have hlt : i < pool.length := hi (by omega)
    obtain ⟨pool', hpool'⟩ := swapRemove_isSome hlt
    have hperm := perm_of_swapRemove hpool' (List.getElem?_eq_getElem hlt)
    rw [List.getElem?_eq_getElem hlt, hpool']
    dsimp only
    rw [Act.sat_bind, Act.sat_modify, Act.sat_bind]
    have hmem : pool[i] ∈ t₁.keys := hpool.mem_iff.mp (List.getElem_mem hlt)
    have hkeys := keys_perm_erase hmem
    have hleft : pool'.Perm (t₁.erase pool[i]).keys :=
      ((hperm.symm.trans hpool).trans hkeys).cons_inv
    have hlength := hperm.length_eq
    rw [List.length_cons] at hlength
    refine Act.sat_mono (takeLoop_draws n pool' _ w₁ hleft (by omega)) ?_ (fun _ h => h)
    rintro taken t₂ w₂ ⟨hw₂, hlen, hall⟩
    refine ⟨hw₁.trans hw₂, by rw [List.length_cons, hlen], ?_⟩
    exact (hall.cons pool[i]).trans hkeys.symm

/-- **`take_random`** takes as many members as it is told, or all there are. -/
theorem takeRandom_draws (count : Nat) (t : SetValue) (w : World) :
    Act.Sat (takeRandom count) e t w (fun taken t' w' => Later 0 w w' ∧
      taken.length = min count t.keys.length ∧ (taken ++ t'.keys).Perm t.keys) (fun _ => False) := by
  unfold takeRandom
  rw [Act.sat_bind, Act.sat_get]
  exact takeLoop_draws _ _ t w (.refl _) (Nat.min_le_right _ _)

/-- The draws with a negative count. -/
theorem drawLoop_draws (pool : List Bytes) : ∀ (n : Nat) (s : Store) (w : World),
    Act.Sat (drawLoop pool n) e s w (fun picked s' w' => s' = s ∧ Later 0 w w' ∧
      (∀ m ∈ picked, m ∈ pool) ∧ picked.length = if pool = [] then 0 else n) (fun _ => False)
  | 0, s, w => ⟨rfl, .refl w, fun m hm => (by cases hm), by split <;> rfl⟩
  | n + 1, s, w => by
    unfold drawLoop
    rw [Act.sat_bind]
    refine Act.sat_mono (below_spec pool.length) ?_ (fun _ h => h)
    rintro i s₁ w₁ ⟨rfl, hw₁, hi⟩
    rw [Act.sat_bind]
    refine Act.sat_mono (drawLoop_draws pool n s₁ w₁) ?_ (fun _ h => h)
    rintro picked s₂ w₂ ⟨rfl, hw₂, hmem, hlen⟩
    rw [Act.sat_pure]
    by_cases hpool : pool = []
    · subst hpool
      exact ⟨rfl, hw₁.trans hw₂, hmem, hlen⟩
    · have hlt : i < pool.length := hi (List.length_pos_iff.mpr hpool)
      rw [List.getElem?_eq_getElem hlt]
      rw [if_neg hpool] at hlen
      refine ⟨rfl, hw₁.trans hw₂, fun m hm => ?_, by rw [if_neg hpool, List.length_cons, hlen]⟩
      rcases List.mem_cons.mp hm with rfl | hm
      · exact List.getElem_mem hlt
      · exact hmem m hm

/-! ## What a command meets -/

/-- What is at a key: a value, with its deadline. -/
abbrev Place := Option (Value × Option SystemTime)

/-- What is left of it at `t`. -/
def unlessDue (t : SystemTime) (x : Place) : Place := if due t x then none else x

/-- The set at a place, empty if there is none. -/
def setIn : Place → SetValue
  | some (.set t, _) => t
  | _ => ∅

/-- The place with another set, if it holds one. -/
def withSet (left : SetValue) : Place → Place
  | some (.set _, d) => some (.set left, d)
  | x => x

theorem liveAt_eq (K : Keyspace) (t : SystemTime) (key : Bytes) :
    K.liveAt t key = unlessDue t (K key) := rfl

theorem unlessDue_none (t : SystemTime) : unlessDue t none = none := rfl

/-- What is at `key` when a command that checked its type first looks at it again. -/
def met (e : Env) (s : Store) (w : World) (key : Bytes) : Place :=
  unlessDue (e.clock (w.ticks + 1)) (unlessDue (e.clock w.ticks) (s.view key))

/-- What `SPOP` does: `taken` is handed out and the rest of the set stays. -/
def Taken (e : Env) (s : Store) (w : World) (key : Bytes) (n : Nat) (taken : List Bytes) (s' : Store) :
    Prop :=
  ∃ left : SetValue, taken.length = min n (setIn (met e s w key)).keys.length ∧
    (taken ++ left.keys).Perm (setIn (met e s w key)).keys ∧
    s'.view = Function.update s.view key
      (unlessEmpty (unlessDue (e.clock (w.ticks + 2)) (withSet left (met e s w key))))

/-- Taking members in place, and the key with the last of them. -/
theorem writeSet_draws (key : Bytes) (n : Nat) {s₁ : Store} {w₁ : World} {R : Panic → Prop}
    (hR : ∀ p, OutOfRange s p → R p) (hw₁ : Later 1 w w₁)
    (hview₁ : s₁.view = s.view.expire (e.clock w.ticks) key) (hidx : Indexed s → Indexed s₁) :
    Act.Sat (do
      let taken ← writeSet key (takeRandom n)
      deleteIfEmpty key
      pure (taken.getD [])) e s₁ w₁
      (fun taken s' w' => Later 3 w w' ∧ Taken e s w key n taken s' ∧ (Indexed s → Indexed s')) R := by
  have hR₁ : ∀ p, OutOfRange s₁ p → R p := fun p h => hR p (h.of_indexed hidx)
  have hmet : s₁.view.liveAt (e.clock w₁.ticks) key = met e s w key := by
    rw [liveAt_eq, hview₁, expire_self, hw₁.ticks]
    rfl
  rw [Act.sat_bind]
  unfold writeSet
  refine sat_write hR₁ ?_ ?_
  · intro s₂ w₂ hw₂ hother hview₂ hidx₂
    rw [Act.sat_bind]
    refine Act.sat_mono (deleteIfEmpty_spec key) ?_ fun p h => hR₁ p (h.of_indexed hidx₂)
    rintro _ s₃ w₃ ⟨hw₃, hview₃, hidx₃⟩
    rw [Act.sat_pure]
    have hset : setIn (met e s w key) = ∅ ∧ withSet ∅ (met e s w key) = met e s w key := by
      rw [hmet] at hother
      rcases hm : met e s w key with _ | ⟨x, d⟩
      · exact ⟨rfl, rfl⟩
      · cases x with
        | set t => exact absurd hm (hother t d)
        | _ => exact ⟨rfl, rfl⟩
    refine ⟨(hw₁.trans hw₂).trans hw₃, ⟨∅, ?_, ?_, ?_⟩, fun h => hidx₃ (hidx₂ (hidx h))⟩
    · rw [hset.1]
      exact (Nat.min_zero n).symm
    · rw [hset.1]
      exact .refl _
    · rw [hview₃, hview₂, liveAt_eq, expire_self, hmet, hset.2, update_expire, hview₁, update_expire,
        hw₂.ticks, hw₁.ticks]
  · intro t d s₂ w₂ hw₂ hlive hview₂ hidx₂
    have hm : met e s w key = some (.set t, d) := hmet.symm.trans hlive
    refine Act.sat_mono (takeRandom_draws n t w₂) ?_ fun _ h => h.elim
    rintro taken left w₃ ⟨hw₃, hlen, hperm⟩
    rw [Act.sat_bind]
    refine Act.sat_mono (deleteIfEmpty_spec key) ?_
      fun p h => hR₁ p ((h.of_indexed Indexed.setValue).of_indexed hidx₂)
    rintro _ s₄ w₄ ⟨hw₄, hview₄, hidx₄⟩
    rw [Act.sat_pure]
    have hput : (setValue key (Variant.set.wrap left) s₂).view =
        Function.update s.view key (some (.set left, d)) := by
      rw [view_setValue, hview₂, expire_self, hlive, update_expire, hview₁, update_expire]
      rfl
    refine ⟨((hw₁.trans hw₂).trans hw₃).trans hw₄, ⟨left, ?_, ?_, ?_⟩, fun h =>
      hidx₄ (hidx₂ (hidx h)).setValue⟩
    · rw [hm]
      exact hlen
    · rw [hm]
      exact hperm
    · rw [hview₄, hput, liveAt_eq, Function.update_self, hm, Function.update_idem, hw₃.ticks, hw₂.ticks,
        hw₁.ticks]
      rfl

/-! ## The commands -/

/-- The members a reply hands out. -/
def handed : Reply → List Bytes
  | .set items => items.filterMap fun
    | .bulk m => some m
    | _ => none
  | .bulk m => [m]
  | _ => []

theorem handed_set (taken : List Bytes) : handed (.set (taken.map .bulk)) = taken := by
  show (taken.map Reply.bulk).filterMap _ = taken
  rw [List.filterMap_map]
  exact List.filterMap_some

/-- The type check of a command on one set. -/
theorem checkType_draws (key : Bytes) {α : Type} {f : Unit → Cmd α} {Q : α → Store → World → Prop}
    {E : Reply → Store → World → Prop} {R : Panic → Prop} (hR : ∀ p, OutOfRange s p → R p)
    (hrefused : ∀ s' w', (∃ x d, s.view.liveAt (e.clock w.ticks) key = some (x, d) ∧ x.typeOf ≠ .set) →
      s'.view = s.view.expire (e.clock w.ticks) key → (Indexed s → Indexed s') → E wrongtype s' w')
    (hpassed : ∀ s' w', Later 1 w w' → s'.view = s.view.expire (e.clock w.ticks) key →
      (Indexed s → Indexed s') → Act.SatE (f ()) e s' w' Q E R) :
    Act.SatE (checkType key .set >>= f) e s w Q E R := by
  unfold checkType
  simp only [bind_assoc, Act.satE_bind, Act.satE_lift]
  refine Act.sat_mono (peekType_spec key) ?_ hR
  rintro type s₁ w₁ ⟨hw₁, htype, hview₁, hidx₁⟩
  by_cases hwrong : type.any (· ≠ .set) = true
  · rw [if_pos hwrong, Act.satE_throw]
    refine hrefused s₁ w₁ ?_ hview₁ hidx₁
    rw [htype] at hwrong
    rcases hlive : s.view.liveAt (e.clock w.ticks) key with _ | ⟨x, d⟩
    · rw [hlive] at hwrong
      cases hwrong
    · rw [hlive] at hwrong
      exact ⟨x, d, rfl, of_decide_eq_true hwrong⟩
  · rw [if_neg hwrong, Act.satE_pure]
    exact hpassed s₁ w₁ hw₁ hview₁ hidx₁

/-- The reply of `SPOP`. -/
def popReply (count : Option Int) (taken : List Bytes) : Reply :=
  match count with
  | none => bulkOrNil taken.head?
  | some _ => .set (taken.map .bulk)

theorem mem_handed {count : Option Int} {taken : List Bytes} {m : Bytes}
    (h : m ∈ handed (popReply count taken)) : m ∈ taken := by
  cases count with
  | some _ =>
    have h' : m ∈ handed (.set (taken.map .bulk)) := h
    rwa [handed_set] at h'
  | none =>
    cases taken with
    | nil => cases h
    | cons x taken =>
      rw [List.mem_singleton.mp h]
      exact List.mem_cons_self

/-- **`SPOP`** with a count it accepts. -/
theorem spop_counted {argv : List Bytes} {count : Option Int} {R : Panic → Prop}
    (hR : ∀ p, OutOfRange s p → R p) (hlen : 1 < argv.length)
    (hcount : pickCount argv "SPOP" = pure count) (hpos : count.any (· < 0) = false) :
    Act.SatE (spop argv) e s w
      (fun reply s' w' => ∃ taken, reply = popReply count taken ∧ Later 3 w w' ∧
        Taken e s w (arg argv 1) (count.getD 1).toNat taken s' ∧ (Indexed s → Indexed s'))
      (fun reply s' _ => reply = wrongtype ∧
        (∃ x d, s.view.liveAt (e.clock w.ticks) (arg argv 1) = some (x, d) ∧ x.typeOf ≠ .set) ∧
        s'.view = s.view.expire (e.clock w.ticks) (arg argv 1)) R := by
  unfold spop
  rw [minArgs, if_pos hlen, pure_bind, hcount, pure_bind, hpos, if_neg Bool.false_ne_true]
  refine checkType_draws _ hR (fun s₁ w₁ hwrong hview _ => ⟨rfl, hwrong, hview⟩) ?_
  intro s₁ w₁ hw₁ hview₁ hidx₁
  have hdraws := writeSet_draws (arg argv 1) (count.getD 1).toNat hR hw₁ hview₁ hidx₁
  simp only [Act.sat_bind, Act.sat_pure] at hdraws
  simp only [Act.satE_bind, Act.satE_lift, Act.satE_pure]
  refine Act.sat_mono hdraws (fun taken s₂ w₂ h => Act.sat_mono h ?_ (fun _ h => h)) (fun _ h => h)
  rintro _ s₃ w₃ ⟨hw₃, htaken, hidx₃⟩
  exact ⟨taken.getD [], rfl, hw₃, htaken, hidx₃⟩

/-- What `SRANDMEMBER` draws: distinct members, or exactly as many as asked for of a set that has
any. -/
structure Drawn (e : Env) (s : Store) (w : World) (key : Bytes) (count : Int) (picked : List Bytes)
    (s' : Store) : Prop where
  members : ∀ m ∈ picked, m ∈ (setIn (met e s w key)).keys
  distinct : 0 ≤ count → picked.Nodup ∧ picked.length = min count.toNat (setIn (met e s w key)).keys.length
  repeated : count < 0 → picked.length = if (setIn (met e s w key)).keys = [] then 0 else count.natAbs
  same : s'.view = Function.update s.view key (met e s w key)

/-- **`SRANDMEMBER`** with any count. -/
theorem srandmember_counted {argv : List Bytes} {count : Option Int} {R : Panic → Prop}
    (hR : ∀ p, OutOfRange s p → R p) (hlen : 1 < argv.length)
    (hcount : pickCount argv "SRANDMEMBER" = pure count) :
    Act.SatE (srandmember argv) e s w
      (fun reply s' w' => ∃ picked, reply = (match count with
          | none => bulkOrNil picked.head?
          | some _ => .bulkArray picked) ∧ Later 2 w w' ∧
        Drawn e s w (arg argv 1) (count.getD 1) picked s' ∧ (Indexed s → Indexed s'))
      (fun reply s' _ => reply = wrongtype ∧
        (∃ x d, s.view.liveAt (e.clock w.ticks) (arg argv 1) = some (x, d) ∧ x.typeOf ≠ .set) ∧
        s'.view = s.view.expire (e.clock w.ticks) (arg argv 1)) R := by
  unfold srandmember
  rw [minArgs, if_pos hlen, pure_bind, hcount, pure_bind]
  refine checkType_draws _ hR (fun s₁ w₁ hwrong hview _ => ⟨rfl, hwrong, hview⟩) ?_
  intro s₁ w₁ hw₁ hview₁ hidx₁
  simp only [Act.satE_bind, Act.satE_lift]
  unfold readSet
  refine sat_read (fun p h => hR p (h.of_indexed hidx₁)) ?_
  intro s₂ w₂ hw₂ hview₂ hidx₂
  have hmet : s₁.view.liveAt (e.clock w₁.ticks) (arg argv 1) = met e s w (arg argv 1) := by
    rw [liveAt_eq, hview₁, expire_self, hw₁.ticks]
    rfl
  have hset : ((s₁.view.liveAt (e.clock w₁.ticks) (arg argv 1)).bind fun p =>
      Variant.set.unwrap p.1).getD ∅ = setIn (met e s w (arg argv 1)) := by
    rw [hmet]
    rcases met e s w (arg argv 1) with _ | ⟨x, d⟩
    · rfl
    · cases x <;> rfl
  have hview : s₂.view = Function.update s.view (arg argv 1) (met e s w (arg argv 1)) := by
    rw [hview₂, Keyspace.expire, hmet, hview₁, update_expire]
  rw [hset]
  by_cases hneg : count.any (· < 0) = true
  · rw [if_pos hneg, Act.satE_bind, Act.satE_lift]
    refine Act.sat_mono (drawLoop_draws _ _ s₂ w₂) ?_ (fun _ h => h.elim)
    rintro picked s₃ w₃ ⟨rfl, hw₃, hmem, hlength⟩
    rw [Act.satE_pure]
    obtain ⟨c, rfl⟩ : ∃ c, count = some c := by
      cases count with
      | none => cases hneg
      | some c => exact ⟨c, rfl⟩
    have hc : c < 0 := of_decide_eq_true hneg
    exact ⟨picked, rfl, (hw₁.trans hw₂).trans hw₃, ⟨hmem, fun h => absurd hc (not_lt.mpr h),
      fun _ => hlength, hview⟩, fun h => hidx₂ (hidx₁ h)⟩
  · rw [if_neg hneg, Act.satE_bind, Act.satE_lift, Act.sat_zoom]
    refine Act.sat_mono (takeRandom_draws _ _ w₂) ?_ (fun _ h => h.elim)
    rintro picked left w₃ ⟨hw₃, hlength, hperm⟩
    rw [Act.satE_pure]
    have hc : ¬ count.getD 1 < 0 := by
      cases count with
      | none => decide
      | some c => exact fun h => hneg (decide_eq_true h)
    have hnodup : (picked ++ left.keys).Nodup := hperm.nodup_iff.mpr (AList.keys_nodup _)
    exact ⟨picked, rfl, (hw₁.trans hw₂).trans hw₃,
      ⟨fun m hm => hperm.mem_iff.mp (List.mem_append_left _ hm), fun _ =>
        ⟨(List.nodup_append.mp hnodup).1, hlength⟩, fun h => absurd h hc, hview⟩,
      fun h => hidx₂ (hidx₁ h)⟩

theorem pickCount_cases (argv : List Bytes) (name : String) :
    (∃ count, pickCount argv name = pure count) ∨
      ∃ message, pickCount argv name = throw (.error message) := by
  unfold pickCount
  by_cases h2 : argv.length = 2
  · exact .inl ⟨none, if_pos h2⟩
  · rw [if_neg h2]
    by_cases h3 : argv.length = 3
    · rw [if_pos h3]
      unfold intArg
      cases parseI64 (arg argv 2) with
      | none => exact .inr ⟨_, rfl⟩
      | some c => exact .inl ⟨some c, rfl⟩
    · exact .inr ⟨_, if_neg h3⟩

/-- `SPOP` without arguments it accepts only answers. -/
theorem spop_cases (argv : List Bytes) :
    (1 < argv.length ∧ ∃ count, pickCount argv "SPOP" = pure count ∧ count.any (· < 0) = false) ∨
      ∃ message, spop argv = throw (.error message) ∨ spop argv = pure (.error message) := by
  by_cases hlen : 1 < argv.length
  · rcases pickCount_cases argv "SPOP" with ⟨count, hcount⟩ | ⟨message, hthrow⟩
    · cases hneg : count.any (· < 0) with
      | false => exact .inl ⟨hlen, count, hcount, hneg⟩
      | true =>
        refine .inr ⟨"ERR value is out of range, must be positive", .inr ?_⟩
        unfold spop
        rw [minArgs, if_pos hlen, pure_bind, hcount, pure_bind, hneg, if_pos rfl]
    · refine .inr ⟨message, .inl ?_⟩
      unfold spop
      rw [minArgs, if_pos hlen, pure_bind, hthrow]
      rfl
  · have hrefused : spop argv = throw (.wrongArity "SPOP") := by
      unfold spop
      rw [minArgs, if_neg hlen]
      rfl
    exact .inr ⟨_, .inl hrefused⟩

/-! ## What an SPOP takes away -/

/-- No set has a member it did not have. -/
def Fewer (K K' : Keyspace) : Prop := ∀ k, ∀ m ∈ (setIn (K' k)).keys, m ∈ (setIn (K k)).keys

theorem fewer_of_update {K K' : Keyspace} {key : Bytes} {x : Place} (h : K' = Function.update K key x)
    (hx : ∀ m ∈ (setIn x).keys, m ∈ (setIn (K key)).keys) : Fewer K K' := by
  intro k m hm
  rw [h] at hm
  by_cases hk : k = key
  · subst hk
    rw [Function.update_self] at hm
    exact hx m hm
  · rwa [Function.update_of_ne hk] at hm

theorem mem_unlessDue {t : SystemTime} {x : Place} {m : Bytes} (h : m ∈ (setIn (unlessDue t x)).keys) :
    m ∈ (setIn x).keys := by
  unfold unlessDue at h
  split at h
  · cases h
  · exact h

theorem mem_unlessEmpty {x : Place} {m : Bytes} (h : m ∈ (setIn (unlessEmpty x)).keys) :
    m ∈ (setIn x).keys := by
  rcases x with _ | ⟨x, d⟩
  · cases h
  · unfold unlessEmpty at h
    dsimp only at h
    split at h
    · cases h
    · exact h

theorem mem_met {key m : Bytes} (h : m ∈ (setIn (met e s w key)).keys) :
    m ∈ (setIn (s.view key)).keys :=
  mem_unlessDue (mem_unlessDue h)

theorem mem_withSet {t : SystemTime} {m : Bytes} {left : SetValue} {x : Place}
    (h : m ∈ (setIn (unlessEmpty (unlessDue t (withSet left x)))).keys) :
    m ∈ left.keys := by
  have h' := mem_unlessDue (mem_unlessEmpty h)
  rcases x with _ | ⟨x, d⟩
  · cases h'
  · cases x with
    | set t => exact h'
    | _ => cases h'

/-- **What is handed out was there and is gone.** -/
theorem Taken.shows {key : Bytes} {n : Nat} {taken : List Bytes} {s' : Store}
    (h : Taken e s w key n taken s') : Fewer s.view s'.view ∧
      ∀ m ∈ taken, m ∈ (setIn (s.view key)).keys ∧ m ∉ (setIn (s'.view key)).keys := by
  obtain ⟨left, -, hperm, hview⟩ := h
  have hnodup : (taken ++ left.keys).Nodup := hperm.nodup_iff.mpr (AList.keys_nodup _)
  have hmem : ∀ m ∈ taken ++ left.keys, m ∈ (setIn (s.view key)).keys :=
    fun m hm => mem_met (hperm.mem_iff.mp hm)
  refine ⟨fewer_of_update hview fun m hm => ?_, fun m hm => ⟨?_, fun hleft => ?_⟩⟩
  · exact hmem m (List.mem_append_right _ (mem_withSet hm))
  · exact hmem m (List.mem_append_left _ hm)
  · rw [hview, Function.update_self] at hleft
    exact List.disjoint_of_nodup_append hnodup hm (mem_withSet hleft)

theorem Fewer.trans {K K' K'' : Keyspace} (h : Fewer K K') (h' : Fewer K' K'') : Fewer K K'' :=
  fun k m hm => h k m (h' k m hm)

/-- No set of the keyspace has a member it did not have. -/
abbrev Lessens (s s' : Store) : Prop := Fewer s.view s'.view

instance : Lookups Lessens where
  refl _ _ _ h := h
  trans _ _ _ := Fewer.trans
  of_glances h k m hm := by
    rcases h.kept k with hk | hk
    · rwa [hk] at hm
    · rw [hk] at hm
      cases hm

theorem evict_lessens (key : Bytes) : Act.Within Lessens (Store.evict key) := fun _ _ _ =>
  Act.sat_mono (evict_spec key) (fun _ _ _ h => fewer_of_update h.2.2.1 fun _ hm => by cases hm)
    fun _ _ => trivial

/-- What a command shows of the set at `key`. -/
def Shows (key : Bytes) (ms : List Bytes) (K K' : Keyspace) : Prop :=
  Fewer K K' ∧ ms.Nodup ∧ ∀ m ∈ ms, m ∈ (setIn (K key)).keys ∧ m ∉ (setIn (K' key)).keys

theorem shows_nil {key : Bytes} {K K' : Keyspace} (h : Fewer K K') : Shows key [] K K' :=
  ⟨h, List.nodup_nil, fun _ hm => by cases hm⟩

theorem Shows.trans {key : Bytes} {ms : List Bytes} {K₀ K K' K₁ : Keyspace} (h : Shows key ms K K')
    (h₀ : Fewer K₀ K) (h₁ : Fewer K' K₁) : Shows key ms K₀ K₁ :=
  ⟨(h₀.trans h.1).trans h₁, h.2.1, fun m hm => ⟨h₀ key m (h.2.2 m hm).1, fun hm' =>
    (h.2.2 m hm).2 (h₁ key m hm')⟩⟩

theorem nodup_handed {count : Option Int} {taken : List Bytes} (h : taken.Nodup) :
    (handed (popReply count taken)).Nodup := by
  cases count with
  | some _ =>
    show (handed (.set (taken.map .bulk))).Nodup
    rwa [handed_set]
  | none =>
    cases taken with
    | nil => exact List.nodup_nil
    | cons x taken => exact List.nodup_singleton x

/-- **An SPOP**, whatever its arguments. -/
theorem spop_shows (argv : List Bytes) :
    Act.Sat (answer (spop argv)) e s w
      (fun reply s' _ => Shows (arg argv 1) (handed reply) s.view s'.view) (fun _ => True) := by
  rcases spop_cases argv with ⟨hlen, count, hcount, hpos⟩ | ⟨message, hspop | hspop⟩
  · refine Act.sat_mono (sat_answer (spop_counted (R := fun _ => True) (fun _ _ => trivial) hlen hcount
      hpos)) ?_ (fun _ h => h)
    rintro reply s' w' (⟨taken, rfl, -, htaken, -⟩ | ⟨rfl, -, hview⟩)
    · refine ⟨htaken.shows.1, nodup_handed ?_, fun m hm => htaken.shows.2 m (mem_handed hm)⟩
      obtain ⟨left, -, hperm, -⟩ := htaken
      exact (List.nodup_append.mp (hperm.nodup_iff.mpr (AList.keys_nodup _))).1
    · exact shows_nil (fewer_of_update hview fun m hm => mem_unlessDue hm)
  · rw [hspop]
    exact shows_nil fun _ _ h => h
  · rw [hspop]
    exact shows_nil fun _ _ h => h

/-- What comes before and after the handler takes nothing back. -/
theorem sat_after {α β : Type} {m : Run Served α} {f : α → Run Served β} {s : Served} {w : World}
    {Q : β → Served → World → Prop} (h : Act.Within (Behind (Following Lessens)) m)
    (hf : ∀ a s' w', Fewer s.app.store.view s'.app.store.view →
      Act.Sat (f a) e s' w' Q (fun _ => True)) : Act.Sat (m >>= f) e s w Q (fun _ => True) := by
  rw [Act.sat_bind]
  exact Act.sat_mono (h e s w) hf (fun _ h => h)

/-- What the gate says instead of running a command hands out nothing. -/
theorem memoryGate_hands (name : String) :
    Act.Returns (fun refusal => ∀ reply, refusal = some reply → handed reply = []) (memoryGate name) := by
  unfold memoryGate
  refine Act.returns_bind fun a => Act.returns_ite (Act.returns_pure nofun) ?_
  refine Act.returns_bind fun fits => Act.returns_pure fun reply h => ?_
  split at h
  · cases h
  · cases h
    rfl

/-- **An SPOP behind the gate and with its signals**, alone or in a transaction. -/
theorem execute_shows (exec : Run Served Response) (argv : List Bytes) (s : Served) (w : World) :
    Act.Sat (executeWith exec "SPOP" argv) e s w (fun response s' _ =>
      Shows (arg argv 1) (handed response.single) s.app.store.view s'.app.store.view)
      (fun _ => True) := by
  unfold executeWith
  refine sat_after (onApp_within (aside_within fun _ => ⟨rfl, rfl⟩)) fun _ s₁ w₁ h₁ => ?_
  rw [Act.sat_bind, Act.sat_get]
  split
  · exact shows_nil h₁
  have hgate : Act.Within (Behind (Following Lessens)) (Served.onApp (memoryGate "SPOP")) :=
    onApp_within (memoryGate_within evict_lessens)
  rw [Act.sat_bind]
  refine Act.sat_mono (Act.sat_and (hgate e s₁ w₁) (Act.returns_zoom (memoryGate_hands "SPOP") e s₁ w₁))
    ?_ (fun _ _ => trivial)
  rintro refusal s₂ w₂ ⟨h₂, hrefusal⟩
  cases refusal with
  | some refusal =>
    show Shows (arg argv 1) (handed refusal) _ _
    rw [hrefusal refusal rfl]
    exact shows_nil (h₁.trans h₂)
  | none =>
    have hrun : runWith exec "SPOP" argv = onArms (fun _ => Sets.arms) "SPOP" argv := by
      unfold runWith
      rw [show family "SPOP" = some .set by decide]
    have hpop : Act.Sat (onArms (fun _ => Sets.arms) "SPOP" argv) e s₂ w₂ (fun response s' _ =>
        Shows (arg argv 1) (handed response.single) s₂.app.store.view s'.app.store.view)
        (fun _ => True) := by
      unfold onArms
      rw [Act.sat_bind, Act.sat_get, Act.sat_bind, sat_onStore]
      exact spop_shows argv
    rw [Act.sat_bind, Act.sat_get]
    dsimp only
    rw [Act.sat_bind, hrun]
    refine Act.sat_mono hpop (fun response s₃ w₃ h₃ => ?_) (fun _ h => h)
    refine sat_after (onApp_within (countLookups_within _)) fun _ s₄ w₄ h₄ => ?_
    refine sat_after (onApp_within (signalWrites_within _)) fun _ s₅ w₅ h₅ => ?_
    exact h₃.trans (h₁.trans h₂) (h₄.trans h₅)

/-! ## Interleavings -/

/-- What happens to the server next. -/
inductive Turn where
  /-- A client's SPOP, alone or as a command of a transaction: `exec` is what its EXEC would do. -/
  | spop (exec : Run Served Response) (client : Client) (argv : List Bytes)
  /-- Anything else. -/
  | other (m : Run App Unit)

/-- What a turn showed. -/
structure Seen where
  before : Keyspace
  after : Keyspace
  /-- The key of an SPOP and the members it handed out. -/
  handed : Option (Bytes × List Bytes)

/-- A turn; an SPOP answers what it hands out. -/
def Turn.step : Turn → Run App (Option (Bytes × List Bytes))
  | .spop exec client argv => do
    let response ← serving client (executeWith exec "SPOP" argv)
    pure (some (arg argv 1, Sets.handed response.single))
  | .other m => do
    m
    pure none

/-- A turn, watched. -/
def Turn.seen (turn : Turn) : Run App Seen := do
  let a ← Act.get
  let handed ← turn.step
  let a' ← Act.get
  pure ⟨a.store.view, a'.store.view, handed⟩

/-- Turns one after the other, in any order and of any clients. -/
def Turns (turns : List Turn) : Run App (List Seen) := Act.mapList Turn.seen turns

namespace Seen

/-- An SPOP of `key` handed `m` out. -/
def Gave (c : Seen) (key m : Bytes) : Prop := ∃ ms, c.handed = some (key, ms) ∧ m ∈ ms

/-- Something else than an SPOP made `m` a member of the set at `key`. -/
def Added (c : Seen) (key m : Bytes) : Prop :=
  c.handed = none ∧ m ∉ (setIn (c.before key)).keys ∧ m ∈ (setIn (c.after key)).keys

/-- What is known of one turn. -/
def Honest (c : Seen) : Prop := ∀ key ms, c.handed = some (key, ms) → Shows key ms c.before c.after

end Seen

/-- A log of turns that follow one another. -/
def Linked : Keyspace → List Seen → Prop
  | _, [] => True
  | K, c :: log => c.before = K ∧ c.Honest ∧ Linked c.after log

/-- **Each member once**: no SPOP hands a member out twice, and no two do unless it was added again
in between. -/
def HandedOnce (log : List Seen) : Prop :=
  (∀ c ∈ log, ∀ key ms, c.handed = some (key, ms) → ms.Nodup) ∧
    ∀ (i j : Nat) (a b : Seen) (key m : Bytes), i < j → log[i]? = some a → log[j]? = some b →
      a.Gave key m → b.Gave key m → ∃ k c, i < k ∧ k < j ∧ log[k]? = some c ∧ c.Added key m

theorem seen_sat (turn : Turn) (a : App) (w : World) :
    Act.Sat turn.seen e a w (fun c a' _ => c.before = a.store.view ∧ c.after = a'.store.view ∧ c.Honest)
      (fun _ => True) := by
  unfold Turn.seen
  rw [Act.sat_bind, Act.sat_get, Act.sat_bind]
  cases turn with
  | spop exec client argv =>
    show Act.Sat (do
      let response ← serving client (executeWith exec "SPOP" argv)
      pure (some (arg argv 1, Sets.handed response.single))) e a w _ _
    unfold serving
    rw [Act.sat_bind, Act.sat_zoom]
    refine Act.sat_mono (execute_shows exec argv ⟨a, client⟩ w) (fun response s w' h => ?_) (fun _ h => h)
    refine ⟨rfl, rfl, fun key ms hms => ?_⟩
    cases hms
    exact h
  | other m =>
    show Act.Sat (do
      m
      pure none) e a w _ _
    rw [Act.sat_bind]
    refine Act.sat_mono (Act.sat_true m) (fun _ a' w' _ => ?_) (fun _ h => h)
    exact ⟨rfl, rfl, nofun⟩

/-- **A run of turns**, by induction on how many there are. -/
theorem turns_linked : ∀ (turns : List Turn) (a : App) (w : World),
    Act.Sat (Turns turns) e a w (fun log _ _ => Linked a.store.view log) (fun _ => True)
  | [], _, _ => trivial
  | turn :: turns, a, w => by
    show Act.Sat (do
      let c ← turn.seen
      let log ← Turns turns
      pure (c :: log)) e a w _ _
    rw [Act.sat_bind]
    refine Act.sat_mono (seen_sat turn a w) ?_ (fun _ h => h)
    rintro c a₁ w₁ ⟨hbefore, hafter, hhonest⟩
    rw [Act.sat_bind]
    refine Act.sat_mono (turns_linked turns a₁ w₁) (fun log a₂ w₂ hlog => ?_) (fun _ h => h)
    exact ⟨hbefore, hhonest, hafter ▸ hlog⟩

/-- A member that is not there is added before it is handed out. -/
theorem added_before {key m : Bytes} : ∀ (log : List Seen) (K : Keyspace), Linked K log →
    m ∉ (setIn (K key)).keys → ∀ (j : Nat) (b : Seen), log[j]? = some b → b.Gave key m →
      ∃ k c, k < j ∧ log[k]? = some c ∧ c.Added key m
  | [], _, _, _, j, b, hb, _ => by cases hb
  | c :: log, K, ⟨hbefore, hhonest, hlog⟩, hout, j, b, hb, hgave => by
    cases j with
    | zero =>
      cases hb
      obtain ⟨ms, hms, hm⟩ := hgave
      have hshows := hhonest key ms hms
      exact absurd (hbefore ▸ (hshows.2.2 m hm).1) hout
    | succ j =>
      by_cases hin : m ∈ (setIn (c.after key)).keys
      · refine ⟨0, c, Nat.succ_pos j, rfl, ?_, hbefore ▸ hout, hin⟩
        cases hc : c.handed with
        | none => rfl
        | some p =>
          have hfewer := (hhonest p.1 p.2 hc).1
          exact absurd (hbefore ▸ hfewer key m hin) hout
      · obtain ⟨k, c', hk, hc', hadded⟩ := added_before log c.after hlog hin j b hb hgave
        exact ⟨k + 1, c', Nat.succ_lt_succ hk, hc', hadded⟩

theorem handedOnce_of_linked : ∀ (log : List Seen) (K : Keyspace), Linked K log → HandedOnce log
  | [], _, _ => ⟨fun c hc => (by cases hc), fun i j a b key m _ ha => (by cases ha)⟩
  | c :: log, K, ⟨_, hhonest, hlog⟩ => by
    obtain ⟨hnodup, honce⟩ := handedOnce_of_linked log c.after hlog
    refine ⟨fun c' hc' key ms hms => ?_, fun i j a b key m hij ha hb hgave hgave' => ?_⟩
    · rcases List.mem_cons.mp hc' with rfl | hc'
      · exact (hhonest key ms hms).2.1
      · exact hnodup c' hc' key ms hms
    · obtain ⟨j, rfl⟩ := Nat.exists_eq_succ_of_ne_zero (Nat.ne_of_gt (Nat.zero_lt_of_lt hij))
      cases i with
      | zero =>
        cases ha
        obtain ⟨ms, hms, hm⟩ := hgave
        have hout := ((hhonest key ms hms).2.2 m hm).2
        obtain ⟨k, c', hk, hc', hadded⟩ := added_before log c.after hlog hout j b hb hgave'
        exact ⟨k + 1, c', Nat.succ_pos k, Nat.succ_lt_succ hk, hc', hadded⟩
      | succ i =>
        obtain ⟨k, c', hik, hkj, hc', hadded⟩ :=
          honce i j a b key m (Nat.lt_of_succ_lt_succ hij) ha hb hgave hgave'
        exact ⟨k + 1, c', Nat.succ_lt_succ hik, Nat.succ_lt_succ hkj, hc', hadded⟩

/-! ## The law -/

/-- Whether a deadline has passed at the `i`-th reading of the clock from now. -/
def passed (e : Env) (w : World) (d : Option SystemTime) (i : Nat) : Bool :=
  d.any fun d => decide (d ≤ e.clock (w.ticks + i))

/-- What a command finds of the set `t`, its type checked first. -/
def found (e : Env) (w : World) (t : SetValue) (d : Option SystemTime) : SetValue :=
  if passed e w d 0 || passed e w d 1 then ∅ else t

theorem unlessDue_some (t : SystemTime) (x : Value) (d : Option SystemTime) :
    unlessDue t (some (x, d)) = if d.any (fun d => decide (d ≤ t)) then none else some (x, d) := by
  unfold unlessDue
  cases d <;> rfl

theorem met_set {key : Bytes} {t : SetValue} {d : Option SystemTime}
    (hset : s.view key = some (.set t, d)) : met e s w key =
      if passed e w d 0 || passed e w d 1 then none else some (.set t, d) := by
  unfold met
  rw [hset, unlessDue_some]
  show unlessDue _ (if passed e w d 0 = true then _ else _) = _
  cases passed e w d 0 with
  | true => rfl
  | false =>
    rw [if_neg Bool.false_ne_true, unlessDue_some, Bool.false_or]
    rfl

theorem setIn_met {key : Bytes} {t : SetValue} {d : Option SystemTime}
    (hset : s.view key = some (.set t, d)) : setIn (met e s w key) = found e w t d := by
  rw [met_set hset]
  unfold found
  split <;> rfl

/-- `SPOP key n` found `t` and handed out `taken`. -/
structure Popped (t : SetValue) (n : Nat) (taken : List Bytes) (left : SetValue) : Prop where
  distinct : taken.Nodup
  number : taken.length = min n t.keys.length
  members : ∀ m ∈ taken, m ∈ t.keys
  rest : ∀ m, m ∈ left.keys ↔ m ∈ t.keys ∧ m ∉ taken

theorem popped_of_perm {t left : SetValue} {n : Nat} {taken : List Bytes}
    (hlen : taken.length = min n t.keys.length) (hperm : (taken ++ left.keys).Perm t.keys) :
    Popped t n taken left := by
  have hnodup : (taken ++ left.keys).Nodup := hperm.nodup_iff.mpr (AList.keys_nodup _)
  refine ⟨(List.nodup_append.mp hnodup).1, hlen, fun m hm => ?_, fun m => ⟨fun hm => ⟨?_, fun hm' => ?_⟩,
    fun hm => ?_⟩⟩
  · exact hperm.mem_iff.mp (List.mem_append_left _ hm)
  · exact hperm.mem_iff.mp (List.mem_append_right _ hm)
  · exact List.disjoint_of_nodup_append hnodup hm' hm
  · exact (List.mem_append.mp (hperm.mem_iff.mpr hm.1)).resolve_left hm.2

/-- What stays at the key after members were taken. -/
theorem kept_set {key : Bytes} {t left : SetValue} {d : Option SystemTime}
    (hset : s.view key = some (.set t, d)) (hleft : left.keys ⊆ (found e w t d).keys) :
    unlessEmpty (unlessDue (e.clock (w.ticks + 2)) (withSet left (met e s w key))) =
      if left.keys = [] ∨ passed e w d 2 = true then none else some (.set left, d) := by
  have hempty : left.isEmpty = true ↔ left.keys = [] := by
    rw [Assoc.isEmpty_iff, ← Assoc.pairs_fst, List.map_eq_nil_iff]
  rw [met_set hset]
  unfold found at hleft
  by_cases hgone : (passed e w d 0 || passed e w d 1) = true
  · rw [if_pos hgone] at hleft ⊢
    rw [if_pos (.inl (List.subset_nil.mp hleft))]
    rfl
  · rw [if_neg hgone]
    show unlessEmpty (unlessDue _ (some (.set left, d))) = _
    rw [unlessDue_some]
    show unlessEmpty (if passed e w d 2 = true then none else some (.set left, d)) = _
    by_cases hpassed : passed e w d 2 = true
    · rw [if_pos hpassed, if_pos (.inr hpassed)]
      rfl
    · rw [if_neg hpassed]
      show (if left.isEmpty = true then none else some (Value.set left, d)) = _
      by_cases hnil : left.keys = []
      · rw [if_pos (hempty.mpr hnil), if_pos (.inl hnil)]
      · rw [if_neg fun h => hnil (hempty.mp h), if_neg (not_or.mpr ⟨hnil, hpassed⟩)]

/-- **SPOP hands each member out once.**  With any draws of the generator and any readings of the
clock, `SPOP key n` takes `n` distinct members out of the set it finds, or all of them, and answers
these; the rest stays, and the key goes with the last member or when its deadline passes.
`SRANDMEMBER` draws distinct members, or for a negative count as many as asked for, and leaves the
set.  In any interleaving of SPOPs with each other and with anything else, a member handed out twice
was added in between. -/
theorem draws_exact (e : Env) (s : Store) (w : World) (hs : Indexed s) (key : Bytes) (t : SetValue)
    (d : Option SystemTime) (hset : s.view key = some (.set t, d)) (verb word : Bytes) (n : Int)
    (hword : parseI64 word = some n) (turns : List Turn) (a : App) :
    (0 ≤ n → Act.Sat (answer (spop [verb, key, word])) e s w (fun reply s' _ => ∃ taken left,
      reply = .set (taken.map .bulk) ∧ Popped (found e w t d) n.toNat taken left ∧
      s'.view = Function.update s.view key
        (if left.keys = [] ∨ passed e w d 2 = true then none else some (.set left, d)))
      (fun _ => False)) ∧
    Act.Sat (answer (srandmember [verb, key, word])) e s w (fun reply s' _ => ∃ picked,
      reply = .bulkArray picked ∧ (∀ m ∈ picked, m ∈ (found e w t d).keys) ∧
      (0 ≤ n → picked.Nodup ∧ picked.length = min n.toNat (found e w t d).keys.length) ∧
      (n < 0 → picked.length = if (found e w t d).keys = [] then 0 else n.natAbs) ∧
      s'.view = Function.update s.view key
        (if passed e w d 0 || passed e w d 1 then none else some (.set t, d)))
      (fun _ => False) ∧
    Act.Sat (Turns turns) e a w (fun log _ _ => HandedOnce log) (fun _ => True) := by
  have hcount : ∀ name, pickCount [verb, key, word] name = pure (some n) := fun name => by
    unfold pickCount intArg
    rw [show arg [verb, key, word] 2 = word from rfl, hword]
    rfl
  have hR : ∀ p, OutOfRange s p → False := fun p h => h.2 hs
  -- the type check cannot refuse: only a set is at the key
  have hright : ¬ ∃ x d', s.view.liveAt (e.clock w.ticks) key = some (x, d') ∧ x.typeOf ≠ .set := by
    rintro ⟨x, d', hlive, hwrong⟩
    rw [liveAt_eq, hset, unlessDue_some] at hlive
    split at hlive
    · cases hlive
    · cases hlive
      exact hwrong rfl
  refine ⟨fun hn => ?_, ?_, ?_⟩
  · have hspop := spop_counted (w := w) (e := e) (s := s) (R := fun _ => False) hR (by simp)
      (hcount "SPOP") (decide_eq_false (not_lt.mpr hn))
    refine Act.sat_mono (sat_answer hspop) ?_ (fun _ h => h)
    rintro reply s' w' (⟨taken, rfl, -, ⟨left, hlen, hperm, hview⟩, -⟩ | ⟨-, hwrong, -⟩)
    · rw [show arg [verb, key, word] 1 = key from rfl] at hlen hperm hview
      rw [setIn_met hset] at hlen hperm
      have hpopped := popped_of_perm hlen hperm
      refine ⟨taken, left, rfl, hpopped, ?_⟩
      rw [hview, kept_set hset fun m hm => ((hpopped.rest m).mp hm).1]
    · exact absurd hwrong hright
  · have hdraw := srandmember_counted (w := w) (e := e) (s := s) (R := fun _ => False) hR (by simp)
      (hcount "SRANDMEMBER")
    refine Act.sat_mono (sat_answer hdraw) ?_ (fun _ h => h)
    rintro reply s' w' (⟨picked, rfl, -, hdrawn, -⟩ | ⟨-, hwrong, -⟩)
    · have hmet : setIn (met e s w (arg [verb, key, word] 1)) = found e w t d := setIn_met hset
      refine ⟨picked, rfl, hmet ▸ hdrawn.members, hmet ▸ hdrawn.distinct, hmet ▸ hdrawn.repeated, ?_⟩
      rw [hdrawn.same, show arg [verb, key, word] 1 = key from rfl, met_set hset]
    · exact absurd hwrong hright
  · exact Act.sat_mono (turns_linked turns a w) (fun log _ _ h => handedOnce_of_linked log _ h)
      (fun _ h => h)

/-- Two members of a set of three are popped. -/
theorem draws_exact_two : ∃ s, Indexed s ∧ Act.Sat (answer (spop [[83], [107], [50]])) (stillEnv 5) s {}
    (fun reply _ _ => ∃ taken : List Bytes, reply = .set (taken.map .bulk) ∧ taken.Nodup ∧
      taken.length = 2)
    (fun _ => False) := by
  have hrun : Act.Sat (StoreOp.exec (.getOrCreateSet [107] fun _ =>
      (insertAll [[97], [98], [99]] ∅).2)) (stillEnv 5) {} {}
      (fun _ s _ => (s.view [107]).any (fun p => p.1.typeOf = .set ∧ p.2 = none ∧
        (setIn (some p)).keys.length = 3) = true) (fun _ => False) := by
    decide +kernel
  obtain ⟨_, s, _, hdone, hthere⟩ := Act.exists_of_sat hrun
  have hs : Indexed s := ((Reachable.start 0).step _ hdone).indexed
  obtain ⟨⟨x, d⟩, hx, hp⟩ := (Option.any_eq_true _ _).mp hthere
  obtain ⟨htype, rfl, hlen⟩ := of_decide_eq_true hp
  cases x with
  | set t =>
    have hcount : parseI64 [50] = some 2 := by decide +kernel
    refine ⟨s, hs, Act.sat_mono ((draws_exact (stillEnv 5) s {} hs [107] t none hx [83] [50] 2 hcount
      [] {}).1 (by decide)) ?_ (fun _ h => h)⟩
    rintro reply s' w' ⟨taken, left, hreply, hpopped, -⟩
    refine ⟨taken, hreply, hpopped.distinct, hpopped.number.trans ?_⟩
    show min 2 t.keys.length = 2
    rw [show t.keys.length = 3 from hlen]
    rfl
  | _ => cases htype

end Klyro.Sets
