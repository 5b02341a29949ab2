import Klyro.Commands.Parks
import Klyro.Commands.PlainPops

/-!
# What a parked command waits for

* `Blocking.waits`, `Blocking.pops` — the keys a blocking command waits for, read off its arguments,
  and the type it pops from.
* `Seeks` — a search that comes back with nothing has found every key of a list absent.
* `ParksOn`, `dispatch_waits` — a command parks only after it has found every one of those keys
  absent.
-/

set_option autoImplicit false

namespace Klyro

open Keyspace

namespace Blocking

open Lists (End popOne moveOne popFrom)

/-- The keys a blocking command waits for. -/
def waits (name : String) (argv : List Bytes) : List Bytes :=
  match name with
  | "BLMOVE" | "BRPOPLPUSH" => [arg argv 1]
  | "BLMPOP" | "BZMPOP" => (argv.drop 3).take (((argv[2]?).bind parseI64).getD 0).toNat
  | _ => keysBeforeTimeout argv

/-- The type a blocking command pops from. -/
def pops (name : String) : StoreType :=
  if ["BZPOPMIN", "BZPOPMAX", "BZMPOP"].contains name then .zset else .list

theorem poppable_pops (name : String) : Poppable (pops name) := by
  unfold pops
  split
  · exact .inr rfl
  · exact .inl rfl

/-! ## Searches -/

/-- None of the keys exists. -/
def Absent (keys : List Bytes) (s : Store) : Prop := ∀ k ∈ keys, s.view k = none

theorem Absent.of_quiet {e : Env} {keys : List Bytes} {s s' : Store} {w w' : World}
    (h : Absent keys s) (hq : Quiet e s w s' w') : Absent keys s' := by
  intro k hk
  rcases hq.kept k id with hkept | ⟨hkept, -⟩
  · rw [hkept, h k hk]
  · exact hkept

/-- A search that comes back with nothing has found every key absent, and wrote nothing. -/
def Seeks {α : Type} (known : List (Bytes × StoreType)) (keys : List Bytes) (m : Cmd (Option α)) :
    Prop :=
  ∀ (e : Env) (s : Store) (w : World), NonEmpty s → Typed known s →
    Act.SatE m e s w (fun found s' w' => found = none → Absent keys s' ∧ Quiet e s w s' w')
      (fun _ _ _ => True) (fun _ => True)

section seeks

variable {α : Type} {known : List (Bytes × StoreType)} {key : Bytes} {keys : List Bytes}

theorem seeks_none : Seeks known [] (pure none : Cmd (Option α)) :=
  fun _ _ _ _ _ _ => ⟨fun _ hk => (by cases hk), .refl⟩

theorem seeks_checkType {want : StoreType} {f : Unit → Cmd (Option α)}
    (hf : Seeks ((key, want) :: known) keys (f ())) : Seeks known keys (checkType key want >>= f) := by
  intro e s w hn ht
  unfold checkType
  simp only [Act.satE_bind, Act.satE_lift]
  refine Act.sat_mono (Store.peekType_spec key) ?_ (fun _ _ => trivial)
  rintro found s' w' ⟨hw, rfl, hview, hidx⟩
  have hq : Quiet e s w s' w' := .of_expire hw hview hidx
  rw [← expire_self, ← hview]
  split
  · trivial
  · rename_i hany
    have ht' : Typed ((key, want) :: known) s' := by
      intro p hp x d hx
      rcases List.mem_cons.mp hp with rfl | hp
      · rw [hx] at hany
        simpa using hany
      · exact ht.of_quiet hq p hp x d hx
    rw [Act.satE_pure]
    refine Act.satE_mono (hf e s' w' (hq.nonEmpty hn) ht') ?_ (fun _ _ _ h => h) (fun _ h => h)
    intro r s'' w'' h hnone
    exact ⟨(h hnone).1, hq.trans (h hnone).2⟩

/-- A pop that found nothing, and the search goes on. -/
theorem seeks_cons {β : Type} {pop : Run Store β} {f : β → Cmd (Option α)} (empty : β → Prop)
    (hpop : ∀ e s w, NonEmpty s → Typed known s → Act.Sat pop e s w
      (fun b s' w' => empty b → Absent [key] s' ∧ Quiet e s w s' w') (fun _ => True))
    (hfound : ∀ b, ¬ empty b → ∀ e s w, Act.SatE (f b) e s w (fun found _ _ => found ≠ none)
      (fun _ _ _ => True) (fun _ => True))
    (hrest : ∀ b, empty b → Seeks [] keys (f b)) :
    Seeks known (key :: keys) (liftM pop >>= f) := by
  intro e s w hn ht
  rw [Act.satE_bind, Act.satE_lift]
  refine Act.sat_mono (hpop e s w hn ht) ?_ (fun _ h => h)
  intro b s' w' hb
  by_cases hempty : empty b
  · obtain ⟨habsent, hq⟩ := hb hempty
    refine Act.satE_mono (hrest b hempty e s' w' (hq.nonEmpty hn) (typed_nil s')) ?_
      (fun _ _ _ h => h) (fun _ h => h)
    intro found s'' w'' h hnone
    obtain ⟨hkeys, hq'⟩ := h hnone
    refine ⟨fun k hk => ?_, hq.trans hq'⟩
    rcases List.mem_cons.mp hk with rfl | hk
    · exact habsent.of_quiet hq' _ List.mem_cons_self
    · exact hkeys k hk
  · refine Act.satE_mono (hfound b hempty e s' w') ?_ (fun _ _ _ h => h) (fun _ h => h)
    exact fun _ _ _ h hnone => absurd hnone h

end seeks

/-! ## The pops -/

section pops

variable {e : Env} {s : Store} {w : World} {key : Bytes} {known : List (Bytes × StoreType)}

/-- A list or a sorted set that is there has something to pop. -/
theorem absent_of_unpopped {t : SystemTime} {s' : Store} {want : StoreType} (hn : NonEmpty s)
    (ht : ∀ x d, s.view key = some (x, d) → x.typeOf = want)
    (hempty : ∀ x d, s.view.liveAt t key = some (x, d) → x.typeOf = want →
      x.isEmptyCollection = true)
    (hview : s'.view = s.view.expire t key) : Absent [key] s' := by
  intro k hk
  rw [List.mem_singleton] at hk
  subst hk
  rw [hview, expire_self]
  cases hlive : s.view.liveAt t k with
  | none => rfl
  | some entry =>
    obtain ⟨x, d⟩ := entry
    have hstored : s.view k = some (x, d) := by
      unfold liveAt at hlive
      split at hlive
      · cases hlive
      · exact hlive
    have hfull := nonEmpty_liveAt hn hlive
    rw [hempty x d hlive (ht x d hstored)] at hfull
    cases hfull

theorem popFrom_eq_none {l : ListValue} {side : End} (h : popFrom l side = none) : l = [] := by
  cases l with
  | nil => rfl
  | cons v l =>
    cases side with
    | left => cases h
    | right =>
      unfold popFrom at h
      rw [List.getLast?_cons] at h
      cases h

theorem popOne_seeks (side : End) (hn : NonEmpty s)
    (ht : ∀ x d, s.view key = some (x, d) → x.typeOf = .list) :
    Act.Sat (popOne key side) e s w
      (fun b s' w' => b = none → Absent [key] s' ∧ Quiet e s w s' w') (fun _ => True) := by
  refine sat_popOne (fun _ _ => trivial) ?_ ?_
  · intro s' w' hw hempty hview hidx _
    refine ⟨absent_of_unpopped hn ht (fun x d hx htype => ?_) hview, .of_expire hw hview hidx⟩
    obtain ⟨l, rfl⟩ := list_of_typeOf htype
    rw [popFrom_eq_none (hempty l d hx)]
    rfl
  · intro l l' d value s₁ w₁ _ _ _ _ _ s' w' _ _ _ h
    cases h

theorem popUpTo_seeks (side : End) {n : Nat} (hpos : 0 < n) (hn : NonEmpty s)
    (ht : ∀ x d, s.view key = some (x, d) → x.typeOf = .list) :
    Act.Sat (popUpTo key side n) e s w
      (fun b s' w' => b = [] → Absent [key] s' ∧ Quiet e s w s' w') (fun _ => True) := by
  obtain ⟨n, rfl⟩ := Nat.exists_eq_succ_of_ne_zero hpos.ne'
  unfold popUpTo
  rw [Act.sat_bind]
  refine Act.sat_mono (popOne_seeks side hn ht) ?_ (fun _ h => h)
  intro b s' w' hb
  cases b with
  | none => exact fun _ => hb rfl
  | some value =>
    rw [Act.sat_bind]
    exact Act.sat_mono (Act.sat_true _) (fun _ _ _ _ h => (by cases h)) (fun _ h => h)

theorem popOneScored_seeks (edge : Edge) {n : Nat} (hpos : 0 < n) (hn : NonEmpty s)
    (ht : ∀ x d, s.view key = some (x, d) → x.typeOf = .zset) :
    Act.Sat (popOneScored key edge n) e s w
      (fun b s' w' => b = [] → Absent [key] s' ∧ Quiet e s w s' w') (fun _ => True) := by
  refine sat_popOneScored (fun _ _ => trivial) ?_ ?_
  · intro s' w' hw hempty hview hidx _
    refine ⟨absent_of_unpopped hn ht (fun x d hx htype => ?_) hview, .of_expire hw hview hidx⟩
    obtain ⟨z, rfl⟩ := zset_of_typeOf htype
    have hpopped := congrArg List.length (hempty z d hx)
    obtain ⟨entries⟩ := z
    cases entries with
    | nil => rfl
    | cons p ps =>
      unfold Zset.pop at hpopped
      cases hedge : edge == .max with
      | true =>
        simp only [hedge, if_true, List.length_reverse, List.length_drop, List.length_nil,
          List.length_cons] at hpopped
        have : min n (ps.length + 1) ≤ ps.length + 1 := Nat.min_le_right _ _
        have hmin : 0 < Nat.min n (ps.length + 1) := Nat.lt_min.mpr ⟨hpos, Nat.succ_pos _⟩
        omega
      | false =>
        simp only [hedge, Bool.false_eq_true, if_false, List.length_take, List.length_nil,
          List.length_cons] at hpopped
        have hmin : 0 < Nat.min n (ps.length + 1) := Nat.lt_min.mpr ⟨hpos, Nat.succ_pos _⟩
        omega
  · intro z d s₁ w₁ _ _ hpop _ _ s' w' _ _ _ h
    exact absurd h hpop

/-- The type of a key that was just checked. -/
theorem typed_head {type : StoreType} (h : Typed ((key, type) :: known) s) :
    ∀ x d, s.view key = some (x, d) → x.typeOf = type := h _ List.mem_cons_self

theorem popFirstList_seeks (side : End) (keys : List Bytes) : Seeks known keys (popFirstList side keys) := by
  induction keys generalizing known with
  | nil => exact seeks_none
  | cons key keys ih =>
    refine seeks_checkType (seeks_cons (fun b => b = none)
      (fun e s w hn ht => popOne_seeks side hn (typed_head ht)) ?_ ?_)
    · rintro (_ | value) hb e s w
      · exact absurd rfl hb
      · exact fun h => (by cases h)
    · rintro _ rfl
      exact ih

theorem mpopLists_seeks (side : End) {count : Nat} (hpos : 0 < count) (keys : List Bytes) :
    Seeks known keys (mpopLists side count keys) := by
  induction keys generalizing known with
  | nil => exact seeks_none
  | cons key keys ih =>
    refine seeks_checkType (seeks_cons (fun b => b = [])
      (fun e s w hn ht => popUpTo_seeks side hpos hn (typed_head ht)) ?_ ?_)
    · rintro (_ | ⟨value, rest⟩) hb e s w
      · exact absurd rfl hb
      · exact fun h => (by cases h)
    · rintro _ rfl
      exact ih

theorem popFirstZset_seeks (edge : Edge) (keys : List Bytes) :
    Seeks known keys (popFirstZset edge keys) := by
  induction keys generalizing known with
  | nil => exact seeks_none
  | cons key keys ih =>
    refine seeks_checkType (seeks_cons (fun b => b = [])
      (fun e s w hn ht => popOneScored_seeks edge Nat.one_pos hn (typed_head ht)) ?_ ?_)
    · rintro (_ | ⟨p, rest⟩) hb e s w
      · exact absurd rfl hb
      · exact fun h => (by cases h)
    · rintro _ rfl
      exact ih

theorem mpopZsets_seeks (edge : Edge) {count : Nat} (hpos : 0 < count) (keys : List Bytes) :
    Seeks known keys (mpopZsets edge count keys) := by
  induction keys generalizing known with
  | nil => exact seeks_none
  | cons key keys ih =>
    refine seeks_checkType (seeks_cons (fun b => b = [])
      (fun e s w hn ht => popOneScored_seeks edge hpos hn (typed_head ht)) ?_ ?_)
    · rintro (_ | ⟨p, rest⟩) hb e s w
      · exact absurd rfl hb
      · exact fun h => (by cases h)
    · rintro _ rfl
      exact ih

theorem moveOne_seeks {source destination : Bytes} (takeFrom putTo : End)
    (hs : (source, StoreType.list) ∈ known) (hd : (destination, StoreType.list) ∈ known) :
    Seeks known [source] (liftM (moveOne source destination takeFrom putTo) : Cmd (Option Bytes)) := by
  intro e s w hn ht
  rw [Act.satE_lift]
  refine sat_moveOne (fun _ _ => trivial) (fun x d hx => ht _ hd x d hx) ?_ ?_
  · intro s' w' hw hempty hview hidx _
    refine ⟨absent_of_unpopped hn (ht _ hs) (fun x d hx htype => ?_) hview, .of_expire hw hview hidx⟩
    obtain ⟨l, rfl⟩ := list_of_typeOf htype
    rw [popFrom_eq_none (hempty l d hx)]
    rfl
  · intro l l' d value m dm s₁ w₁ _ _ _ _ _ _ s₂ w₂ _ _ _ s' w' _ _ _ h
    cases h

end pops

/-! ## The commands -/

section commands

variable {client : Client} {argv : List Bytes} {name : String} {keys : List Bytes}

/-- A command that parks its client for `keys` has found each of them absent. -/
def ParksOn (keys : List Bytes) (m : Cmd Response) : Prop :=
  ∀ (e : Env) (s : Store) (w : World), NonEmpty s →
    Act.SatE m e s w (fun r s' _ => ∀ block ∈ r.block, block.keys = keys ∧ Absent keys s')
      (fun _ _ _ => True) (fun _ => True)

theorem parksOn_bind {α : Type} {m : Cmd α} {f : α → Cmd Response} (hm : Looks m)
    (hf : ∀ a, ParksOn keys (f a)) : ParksOn keys (m >>= f) := by
  intro e s w hn
  rw [Act.satE_bind]
  refine Act.satE_mono (hm e s w) ?_ (fun _ _ _ _ => trivial) (fun _ _ => trivial)
  exact fun a s' w' hq => hf a e s' w' (hq.nonEmpty hn)

theorem parksOn_answer {search : Cmd (Option Reply)} {deadline : Option Instant} {onTimeout : Reply}
    (h : Seeks [] keys search) :
    ParksOn keys (search >>= fun found => pure (answer client argv found keys deadline onTimeout)) := by
  intro e s w hn
  rw [Act.satE_bind]
  refine Act.satE_mono (h e s w hn (typed_nil s)) ?_ (fun _ _ _ h => h) (fun _ h => h)
  intro found s' w' hfound
  rw [Act.satE_pure]
  unfold answer
  cases found with
  | some reply => exact fun _ hb => (by cases hb)
  | none =>
    dsimp only
    split
    · exact fun _ hb => (by cases hb)
    · rintro _ ⟨⟩
      exact ⟨rfl, (hfound rfl).1⟩

theorem parksOn_blockingMove (ends : End × End) (timeout : Bytes) :
    ParksOn [arg argv 1] (blockingMove client argv ends timeout) := by
  refine parksOn_bind (parseTimeout_looks _) fun deadline => ?_
  have hseeks : Seeks [] [arg argv 1] (do
      checkType (arg argv 1) .list
      checkType (arg argv 2) .list
      let found ← moveOne (arg argv 1) (arg argv 2) ends.1 ends.2
      pure (found.map Reply.bulk) : Cmd (Option Reply)) := by
    refine seeks_checkType (seeks_checkType fun e s w hn ht => ?_)
    rw [Act.satE_bind]
    refine Act.satE_mono (moveOne_seeks ends.1 ends.2 (List.mem_cons_of_mem _ List.mem_cons_self)
      List.mem_cons_self e s w hn ht) ?_ (fun _ _ _ h => h) (fun _ h => h)
    intro found s' w' hfound hnone
    rw [Option.map_eq_none_iff] at hnone
    exact hfound hnone
  have hparks : ParksOn [arg argv 1] ((do
      checkType (arg argv 1) .list
      checkType (arg argv 2) .list
      let found ← moveOne (arg argv 1) (arg argv 2) ends.1 ends.2
      pure (found.map Reply.bulk)) >>= fun found =>
        pure (answer client argv found [arg argv 1] deadline .nil)) := parksOn_answer hseeks
  simpa only [bind_assoc, pure_bind] using hparks

/-- The shape of the two multi-key pops that park. -/
theorem parksOn_multi {β : Type} {parse : Bytes → Option β} {search : MultiKey → β → Cmd (Option Reply)}
    {deadline : Option Instant}
    (hsearch : ∀ request b, 0 < request.count → Seeks [] request.keys (search request b)) :
    ParksOn ((argv.drop 3).take (((argv[2]?).bind parseI64).getD 0).toNat) (do
      let request ← parseMultiKey argv 2 name
      let b ← orThrow syntaxError (parse request.direction)
      let found ← search request b
      return answer client argv found request.keys deadline .nilArray) := by
  rcases parseMultiKey_fixed argv 2 name with ⟨r, hr, heq⟩ | ⟨request, count, heq, hcount, _, hkeys⟩
  · rw [heq]
    exact fun _ _ _ _ => trivial
  · have hpos : 0 < request.count := count_pos heq (stillEnv 0) {} {}
    rw [heq, pure_bind, hcount, Option.getD_some, ← hkeys]
    exact parksOn_bind (looks_orThrow rfl _) fun b => parksOn_answer (hsearch request b hpos)

theorem parksOn_arm {handler : Client → List Bytes → Cmd Response} (h : (name, handler) ∈ arms) :
    ParksOn (waits name argv) (handler client argv) := by
  have hawake : ∀ {m : Cmd Response}, Act.ReturnsE (fun r => r.block = none) m →
      ParksOn (waits name argv) m := by
    intro m hm e s w _
    refine Act.sat_mono (hm e s w) ?_ (fun _ h => h)
    rintro (r | r) s' w' hr
    · trivial
    · intro block hb
      rw [hr r rfl] at hb
      cases hb
  simp only [arms, List.mem_cons, Prod.mk.injEq, List.not_mem_nil, or_false] at h
  rcases h with ⟨rfl, rfl⟩ | ⟨rfl, rfl⟩ | ⟨rfl, rfl⟩ | ⟨rfl, rfl⟩ | ⟨rfl, rfl⟩ | ⟨rfl, rfl⟩ |
    ⟨rfl, rfl⟩ | ⟨rfl, rfl⟩ | ⟨rfl, rfl⟩ | ⟨rfl, rfl⟩
  · exact parksOn_bind (looks_minArgs _ _ _) fun _ => parksOn_bind (parseTimeout_looks _) fun _ =>
      parksOn_answer (popFirstList_seeks _ _)
  · exact parksOn_bind (looks_minArgs _ _ _) fun _ => parksOn_bind (parseTimeout_looks _) fun _ =>
      parksOn_answer (popFirstList_seeks _ _)
  · exact parksOn_bind (looks_exactArgs _ _ _) fun _ => parksOn_bind Lists.moveEnds_looks fun ends =>
      parksOn_blockingMove ends _
  · exact parksOn_bind (looks_exactArgs _ _ _) fun _ => parksOn_blockingMove _ _
  · exact hawake (Act.returnsE_bind fun _ => Act.returnsE_bind fun _ => Act.returnsE_bind fun _ =>
      Act.returnsE_bind fun _ => Act.returnsE_pure rfl)
  · exact parksOn_bind (looks_minArgs _ _ _) fun _ => parksOn_bind (parseTimeout_looks _) fun _ =>
      parksOn_multi fun request side hpos => mpopLists_seeks side hpos _
  · exact parksOn_bind (looks_minArgs _ _ _) fun _ => parksOn_bind (parseTimeout_looks _) fun _ =>
      parksOn_answer (popFirstZset_seeks _ _)
  · exact parksOn_bind (looks_minArgs _ _ _) fun _ => parksOn_bind (parseTimeout_looks _) fun _ =>
      parksOn_answer (popFirstZset_seeks _ _)
  · exact hawake (Act.returnsE_bind fun _ => Act.returnsE_bind fun _ => Act.returnsE_bind fun _ =>
      Act.returnsE_bind fun _ => Act.returnsE_pure rfl)
  · exact parksOn_bind (looks_minArgs _ _ _) fun _ => parksOn_bind (parseTimeout_looks _) fun _ =>
      parksOn_multi fun request edge hpos => mpopZsets_seeks edge hpos _

/-- **A command parks for keys it has found absent.** -/
theorem dispatch_waits (e : Env) (s : Store) (w : World) (hn : NonEmpty s) :
    Act.Sat (dispatch client name argv) e s w (fun r s' _ => ∀ block ∈ r.block,
      block.keys = waits name argv ∧ Absent (waits name argv) s') (fun _ => True) := by
  have hhandle : ParksOn (waits name argv) (handle client name argv) := by
    unfold handle
    cases harm : arms.lookup name with
    | none => exact fun _ _ _ _ _ hb => (by cases hb)
    | some handler => exact parksOn_arm (mem_of_lookup harm)
  unfold dispatch
  rw [Act.sat_bind]
  refine Act.sat_mono (hhandle e s w hn) ?_ (fun _ h => h)
  intro r s' w' hr
  cases r with
  | ok response => exact hr
  | error reply => exact fun _ hb => (by cases hb)

end commands

end Blocking

end Klyro
