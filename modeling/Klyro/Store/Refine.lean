import Klyro.Store.Runs

/-!
# The store as a plain map of live keys

The store holds keys whose deadline has passed until something meets them, and its lookups delete
as they go.  Seen through `Store.live t`, which shows only what is live at `t`, none of this is
left: at a clock that stands at `t` every operation is the map update one would expect.

* `MapOp` — the operations, and what each is meant to do to a plain map (`MapOp.apply`): the answer
  and the map it leaves.
* `MapOp.exec` — what the code runs.  A `&mut` that an operation hands out is used by an arbitrary
  function of the value; the answer shows the value that was handed out.
* `Store.Reachable` — what a run of store operations under any readings of the clocks leaves.
* `exec_refines` — the code does what is meant, from every reachable store.
-/

set_option autoImplicit false

namespace Klyro

/-- An operation that looks a key up in the store or updates it. -/
inductive MapOp where
  | setString (key value : Bytes)
  | updateString (key value : Bytes)
  | del (key : Bytes)
  | setExpireAt (key : Bytes) (deadline : Option SystemTime)
  | rename (key newKey : Bytes)
  | copy (key dest : Bytes) (replace : Bool)
  | flush
  | getOrCreateList (key : Bytes) (use : ListValue → ListValue)
  | getOrCreateHash (key : Bytes) (use : HashValue → HashValue)
  | getOrCreateSet (key : Bytes) (use : SetValue → SetValue)
  | getOrCreateZset (key : Bytes) (use : Zset → Zset)
  | writeList (key : Bytes) (use : ListValue → ListValue)
  | writeHash (key : Bytes) (use : HashValue → HashValue)
  | writeSet (key : Bytes) (use : SetValue → SetValue)
  | writeZset (key : Bytes) (use : Zset → Zset)
  | existingMemory (key : Bytes) (use : Memory → Memory)
  | deleteIfEmpty (key : Bytes)
  | createMemory (key : Bytes) (memory : Memory)
  | evict (key : Bytes)
  | find (key : Bytes)
  | hasKey (key : Bytes)
  | typeOf (key : Bytes)
  | peekType (key : Bytes)
  | hasExpiry (key : Bytes)
  | ttl (key : Bytes)
  | pttlMs (key : Bytes)
  | getString (key : Bytes)
  | readList (key : Bytes)
  | readHash (key : Bytes)
  | readSet (key : Bytes)
  | readZset (key : Bytes)
  | sweepExpired

namespace MapOp

/-- What an operation answers. -/
inductive Answer where
  | unit
  | bool (b : Bool)
  | copied (o : Option Bool)
  | entry (o : Option (Value × Option SystemTime))
  | type (o : Option StoreType)
  | int (n : Int)
  | value (o : Option Value)

/-! ## What is meant -/

/-- A key holds something with a deadline: nothing, when the deadline is not after `t`. -/
def pruned (t : SystemTime) (x : Option (Value × Option SystemTime)) :
    Option (Value × Option SystemTime) :=
  if Keyspace.due t x then none else x

/-- Milliseconds to live, `-1` without a deadline, `-2` without the key. -/
def timeLeft (t : SystemTime) : Option (Value × Option SystemTime) → Int
  | none => -2
  | some (_, none) => -1
  | some (_, some d) => Store.millisLeft d t

/-- The value of a variant that a key holds. -/
def held {τ : Type} (V : Variant τ) (x : Option (Value × Option SystemTime)) : Option τ :=
  x.bind fun p => V.unwrap p.1

/-- The bytes of a string value. -/
def textOf : Value → Option Bytes
  | .str s => some s
  | _ => none

/-- A value of a variant is changed in place. -/
def edit {τ : Type} (V : Variant τ) (key : Bytes) (use : τ → τ) (m : Keyspace) : Answer × Keyspace :=
  match m key with
  | some (x, d) =>
    match V.unwrap x with
    | some v => (.value (some x), Function.update m key (some (V.wrap (use v), d)))
    | none => (.value none, m)
  | none => (.value none, m)

/-- A value of a variant is changed in place, after an empty one is made where there is none. -/
def editOrCreate {τ : Type} (V : Variant τ) (key : Bytes) (use : τ → τ) (m : Keyspace) :
    Answer × Keyspace :=
  match m key with
  | none => (.value (some (V.wrap V.empty)),
      Function.update m key (some (V.wrap (use V.empty), none)))
  | some _ => edit V key use m

/-- What an operation at `t` is meant to answer on a map of live keys, and the map it is meant to
leave. -/
def apply (t : SystemTime) : MapOp → Keyspace → Answer × Keyspace
  | .setString key value, m => (.unit, Function.update m key (some (.str value, none)))
  | .updateString key value, m =>
    (.unit, Function.update m key (some (.str value, (m key).bind Prod.snd)))
  | .del key, m => (.bool (m key).isSome, Function.update m key none)
  | .setExpireAt key deadline, m =>
    (.bool (m key).isSome,
      Function.update m key (pruned t ((m key).map fun p => (p.1, deadline))))
  | .rename key newKey, m =>
    (.bool (m key).isSome,
      if (m key).isSome ∧ key ≠ newKey then
        Function.update (Function.update m key none) newKey (m key)
      else m)
  | .copy key dest replace, m =>
    if (m key).isNone then (.copied none, m)
    else if replace = false ∧ (m dest).isSome then (.copied (some false), m)
    else (.copied (some true), Function.update m dest (m key))
  | .flush, _ => (.unit, fun _ => none)
  | .getOrCreateList key use, m => editOrCreate .list key use m
  | .getOrCreateHash key use, m => editOrCreate .hash key use m
  | .getOrCreateSet key use, m => editOrCreate .set key use m
  | .getOrCreateZset key use, m => editOrCreate .zset key use m
  | .writeList key use, m => edit .list key use m
  | .writeHash key use, m => edit .hash key use m
  | .writeSet key use, m => edit .set key use m
  | .writeZset key use, m => edit .zset key use m
  | .existingMemory key use, m => edit .memory key use m
  | .deleteIfEmpty key, m => (.unit, Function.update m key (Store.unlessEmpty (m key)))
  | .createMemory key memory, m =>
    (.bool (m key).isNone,
      if (m key).isSome then m else Function.update m key (some (.memory memory, none)))
  | .evict key, m => (.bool (m key).isSome, Function.update m key none)
  | .find key, m => (.entry (m key), m)
  | .hasKey key, m => (.bool (m key).isSome, m)
  | .typeOf key, m => (.type ((m key).map fun p => p.1.typeOf), m)
  | .peekType key, m => (.type ((m key).map fun p => p.1.typeOf), m)
  | .hasExpiry key, m => (.bool ((m key).bind Prod.snd).isSome, m)
  | .ttl key, m =>
    (.int (if timeLeft t (m key) < 0 then timeLeft t (m key) else timeLeft t (m key) / 1000), m)
  | .pttlMs key, m => (.int (timeLeft t (m key)), m)
  | .getString key, m => (.value (((m key).bind fun p => textOf p.1).map .str), m)
  | .readList key, m => (.value ((held .list (m key)).map .list), m)
  | .readHash key, m => (.value ((held .hash (m key)).map .hash), m)
  | .readSet key, m => (.value ((held .set (m key)).map .set), m)
  | .readZset key, m => (.value ((held .zset (m key)).map .zset), m)
  | .sweepExpired, m => (.unit, m)

/-- Where an operation is meant to be used: a memory index is not copied (its clone is another
index), and what is evicted is live. -/
def Fits (m : Keyspace) : MapOp → Prop
  | .copy key _ _ => ∀ x d, m key = some (x, d) → x.typeOf ≠ .memory
  | .evict key => (m key).isSome
  | _ => True

/-! ## What the code runs -/

/-- The use of a `&mut`: the value handed out is shown and changed. -/
def handOut {τ : Type} (V : Variant τ) (use : τ → τ) : Run τ Value :=
  Act.state fun v => (V.wrap v, use v)

/-- The code of an operation. -/
def exec : MapOp → Run Store Answer
  | .setString key value => do Store.setString key value; pure .unit
  | .updateString key value => do Store.updateString key value; pure .unit
  | .del key => Answer.bool <$> Store.del key
  | .setExpireAt key deadline => Answer.bool <$> Store.setExpireAt key deadline
  | .rename key newKey => Answer.bool <$> Store.rename key newKey
  | .copy key dest replace => Answer.copied <$> Store.copy key dest replace
  | .flush => (fun _ => Answer.unit) <$> Store.flush
  | .getOrCreateList key use => Answer.value <$> Store.getOrCreateList key (handOut .list use)
  | .getOrCreateHash key use => Answer.value <$> Store.getOrCreateHash key (handOut .hash use)
  | .getOrCreateSet key use => Answer.value <$> Store.getOrCreateSet key (handOut .set use)
  | .getOrCreateZset key use => Answer.value <$> Store.getOrCreateZset key (handOut .zset use)
  | .writeList key use => Answer.value <$> Store.writeList key (handOut .list use)
  | .writeHash key use => Answer.value <$> Store.writeHash key (handOut .hash use)
  | .writeSet key use => Answer.value <$> Store.writeSet key (handOut .set use)
  | .writeZset key use => Answer.value <$> Store.writeZset key (handOut .zset use)
  | .existingMemory key use => Answer.value <$> Store.existingMemory key (handOut .memory use)
  | .deleteIfEmpty key => do Store.deleteIfEmpty key; pure .unit
  | .createMemory key memory => Answer.bool <$> Store.createMemory key memory
  | .evict key => Answer.bool <$> Store.evict key
  | .find key => (fun o => Answer.entry (o.map Store.entryView)) <$> Store.find key
  | .hasKey key => Answer.bool <$> Store.hasKey key
  | .typeOf key => Answer.type <$> Store.typeOf key
  | .peekType key => Answer.type <$> Store.peekType key
  | .hasExpiry key => Answer.bool <$> Store.hasExpiry key
  | .ttl key => Answer.int <$> Store.ttl key
  | .pttlMs key => Answer.int <$> Store.pttlMs key
  | .getString key => (fun o => Answer.value (o.map .str)) <$> Store.getString key
  | .readList key => (fun o => Answer.value (o.map .list)) <$> Store.readList key
  | .readHash key => (fun o => Answer.value (o.map .hash)) <$> Store.readHash key
  | .readSet key => (fun o => Answer.value (o.map .set)) <$> Store.readSet key
  | .readZset key => (fun o => Answer.value (o.map .zset)) <$> Store.readZset key
  | .sweepExpired => do Store.sweepExpired; pure .unit

end MapOp

namespace Store

open Keyspace MapOp

/-- The keys live at `t`, with what they hold. -/
def live (t : SystemTime) (s : Store) : Keyspace := s.view.liveAt t

/-- What a run of store operations leaves, under any readings of the clocks. -/
inductive Reachable : Store → Prop where
  | start (started : Instant) : Reachable { started := started }
  | step {s s' : Store} {e : Env} {w w' : World} (op : StoreOp) (hs : Reachable s)
      (hop : op.exec e s w = .done () s' w') : Reachable s'

/-- A run from a reachable store ends in one. -/
theorem Reachable.run {e : Env} {s' : Store} {w' : World} : ∀ {s : Store} {w : World}
    (ops : List StoreOp), Reachable s → Act.forList StoreOp.exec ops e s w = .done () s' w' →
    Reachable s' := by
  intro s w ops hs hrun
  have hall := Act.sat_forList (e := e) (R := fun _ => True) (I := fun s _ => Reachable s)
    (f := StoreOp.exec) ?_ ops s w hs
  · rwa [Act.sat_of_done hrun] at hall
  · intro op s w hs
    unfold Act.Sat
    split
    · exact .step op hs ‹_›
    · trivial

theorem Reachable.indexed {s : Store} (h : Reachable s) : Indexed s := by
  induction h with
  | start started => exact (indexed_empty { started := started }).congr rfl rfl rfl
  | @step _ _ e w _ op _ hop ih =>
    have hstep := exec_indexed (e := e) op _ w ih
    rwa [Act.sat_of_done hop] at hstep

variable {t : SystemTime} {e : Env} {s s' : Store} {w : World} {key : Bytes}

/-! ## Views and live maps -/

theorem pruned_liveAt (K : Keyspace) : pruned t (K.liveAt t key) = K.liveAt t key := by
  unfold pruned liveAt
  cases h : due t (K key) with
  | true => rfl
  | false =>
    simp only [Bool.false_eq_true, if_false]
    rw [h]
    rfl

theorem liveAt_update (K : Keyspace) (key : Bytes) (x : Option (Value × Option SystemTime)) :
    Keyspace.liveAt (Function.update K key x) t = Function.update (K.liveAt t) key (pruned t x) := by
  funext k
  unfold liveAt
  by_cases hk : k = key
  · subst hk
    rw [Function.update_self, Function.update_self]
    rfl
  · rw [Function.update_of_ne hk, Function.update_of_ne hk]

theorem liveAt_expire (K : Keyspace) (key : Bytes) : (K.expire t key).liveAt t = K.liveAt t := by
  unfold expire
  rw [liveAt_update, pruned_liveAt, Function.update_eq_self]

theorem live_update {x : Option (Value × Option SystemTime)}
    (h : s'.view = Function.update s.view key x) :
    s'.live t = Function.update (s.live t) key (pruned t x) := by
  unfold live
  rw [h, liveAt_update]

theorem live_expire (h : s'.view = s.view.expire t key) : s'.live t = s.live t := by
  unfold live
  rw [h, liveAt_expire]

/-- What is put at a key with the deadline of something live is live. -/
theorem pruned_of_live {x y : Value} {d : Option SystemTime}
    (h : s.live t key = some (y, d)) : pruned t (some (x, d)) = some (x, d) := by
  have hlive : pruned t (some (y, d)) = some (y, d) := by
    rw [← h]
    exact pruned_liveAt s.view
  cases d with
  | none => rfl
  | some d =>
    have hd : ¬ d ≤ t := by
      intro hd
      simp [pruned, due, hd] at hlive
    simp [pruned, due, hd]

theorem pruned_unlessEmpty (K : Keyspace) :
    pruned t (unlessEmpty (K.liveAt t key)) = unlessEmpty (K.liveAt t key) := by
  cases hlive : K.liveAt t key with
  | none => rfl
  | some p =>
    simp only [unlessEmpty]
    split
    · rfl
    · rw [Prod.mk.eta, ← hlive, pruned_liveAt]

/-- What is live is there. -/
theorem isSome_view_of_live (h : (s.live t key).isSome = true) : (s.view key).isSome = true := by
  unfold live liveAt at h
  split at h
  · cases h
  · exact h

/-! ## Values in place -/

section values

variable {τ : Type} {V : Variant τ} {use : τ → τ}

/-- The code's value in place is the map's. -/
theorem live_setValue {v : τ} {d : Option SystemTime} (hv : s'.view = Function.update s.view key
    (some (V.wrap v, d))) (hd : pruned t (some (V.wrap (use v), d)) = some (V.wrap (use v), d)) :
    (setValue key (V.wrap (use v)) s').live t =
      Function.update (s.live t) key (some (V.wrap (use v), d)) := by
  rw [← hd]
  apply live_update
  rw [view_setValue, hv, Function.update_self, Function.update_idem]
  rfl

theorem getOrCreate_refines (ht : e.StandsAt t) (hs : Indexed s) :
    Act.Sat (getOrCreate V key (handOut V use)) e s w
      (fun a s' _ => (Answer.value a, s'.live t) = editOrCreate V key use (s.live t))
      (fun _ => False) := by
  refine sat_getOrCreate (fun p hp => hp.2 hs) ?_ ?_
  · intro x d s' w' _ hlive hx hview _
    rw [ht] at hlive hview
    have hlive' : s.live t key = some (x, d) := hlive
    simp only [editOrCreate, edit, hlive', hx, live_expire hview]
  · intro v d s' w' _ hlive hview _
    rw [ht] at hlive
    have hcase : s.live t key = some (V.wrap v, d) ∨ s.live t key = none ∧ v = V.empty ∧ d = none :=
      hlive
    show (Answer.value (some (V.wrap v)), (setValue key (V.wrap (use v)) s').live t) = _
    rcases hcase with hfound | ⟨hmissing, rfl, rfl⟩
    · rw [live_setValue hview (pruned_of_live hfound)]
      simp only [editOrCreate, edit, hfound, V.unwrap_wrap]
    · rw [live_setValue hview rfl]
      simp only [editOrCreate, hmissing]

theorem edit_of_other (h : ∀ v d, s.live t key ≠ some (V.wrap v, d)) :
    edit V key use (s.live t) = (Answer.value none, s.live t) := by
  unfold edit
  cases hx : s.live t key with
  | none => rfl
  | some p =>
    obtain ⟨x, d⟩ := p
    rcases unwrap_none_or V x with hnone | ⟨v, rfl⟩
    · simp only [hnone]
    · exact absurd hx (h v d)

theorem edit_of_live {v : τ} {d : Option SystemTime} (hlive : s.live t key = some (V.wrap v, d))
    (hview : s'.view = s.view.expire t key) :
    (Answer.value (some (V.wrap v)), (setValue key (V.wrap (use v)) s').live t) =
      edit V key use (s.live t) := by
  have hput : s'.view = Function.update s.view key (some (V.wrap v, d)) := by
    rw [hview, ← hlive]
    rfl
  rw [live_setValue hput (pruned_of_live hlive)]
  simp only [edit, hlive, V.unwrap_wrap]

theorem write_refines (ht : e.StandsAt t) (hs : Indexed s) :
    Act.Sat (write V key (handOut V use)) e s w
      (fun a s' _ => (Answer.value a, s'.live t) = edit V key use (s.live t))
      (fun _ => False) := by
  refine sat_write (fun p hp => hp.2 hs) ?_ ?_
  · intro s' w' _ hlive hview _
    rw [ht] at hlive hview
    rw [edit_of_other hlive, live_expire hview]
  · intro v d s' w' _ hlive hview _
    rw [ht] at hlive hview
    exact edit_of_live hlive hview

theorem existingMemory_refines {use : Memory → Memory} (ht : e.StandsAt t) (hs : Indexed s) :
    Act.Sat (existingMemory key (handOut .memory use)) e s w
      (fun a s' _ => (Answer.value a, s'.live t) = edit .memory key use (s.live t))
      (fun _ => False) := by
  refine sat_existingMemory (fun p hp => hp.2 hs) ?_ ?_
  · intro s' w' _ hlive hview _
    rw [ht] at hlive hview
    rw [edit_of_other (V := .memory) hlive, live_expire hview]
  · intro m d s' w' _ hlive hview _
    rw [ht] at hlive hview
    exact edit_of_live (V := .memory) hlive hview

theorem read_refines (ht : e.StandsAt t) (hs : Indexed s) :
    Act.Sat (read V key) e s w (fun a s' _ => a = held V (s.live t key) ∧ s'.live t = s.live t)
      (fun _ => False) := by
  refine sat_read (fun p hp => hp.2 hs) ?_
  intro s' w' _ hview _
  rw [ht] at hview ⊢
  exact ⟨rfl, live_expire hview⟩

end values

/-! ## Sweeps and copies -/

/-- The keys of a list are taken away one by one. -/
theorem removeAll_spec (keys : List Bytes) : ∀ (s : Store) (w : World), Indexed s →
    Act.Sat (Act.forList (fun key => do
        let _ ← removeEntry key
        Act.modify fun s => { s with dirty := s.dirty + 1, expired := s.expired + 1 }) keys) e s w
      (fun _ s' _ => ∀ k, s'.view k = if k ∈ keys then none else s.view k) (fun _ => False) := by
  induction keys with
  | nil =>
    intro s w _ k
    simp
  | cons key keys ih =>
    intro s w hs
    unfold Act.forList
    simp only [Act.sat_bind]
    refine Act.sat_mono (removeEntry_spec key) ?_ (fun p hp => hp.2 hs)
    rintro _ s₁ w₁ ⟨-, -, hview₁, hidx₁⟩
    rw [Act.sat_modify]
    refine Act.sat_mono (ih _ _ ((hidx₁ hs).congr rfl rfl rfl)) ?_ (fun _ h => h)
    intro _ s₂ w₂ hview₂ k
    rw [hview₂ k]
    have hk : s₁.view k = if k = key then none else s.view k := by
      rw [hview₁, Function.update_apply]
    have hk' : ({ s₁ with dirty := s₁.dirty + 1, expired := s₁.expired + 1 } : Store).view k =
        s₁.view k := rfl
    rw [hk', hk]
    by_cases hkey : k = key
    · simp [hkey]
    · simp [hkey]

/-- `sweep_expired` takes away what is not live. -/
theorem sweepExpired_refines (ht : e.StandsAt t) (hs : Indexed s) :
    Act.Sat sweepExpired e s w (fun _ s' _ => s'.live t = s.live t) (fun _ => False) := by
  unfold sweepExpired
  simp only [Act.sat_bind, sat_now, Act.sat_get, ht w.ticks]
  refine Act.sat_mono (removeAll_spec _ s _ hs) ?_ (fun _ h => h)
  intro _ s' _ hview
  funext k
  unfold live liveAt
  rw [hview k]
  have hmem : k ∈ (s.map.pairs.filter fun p => !p.2.isLive t).map Prod.fst ↔ due t (s.view k) = true := by
    rw [due_view, List.mem_map]
    constructor
    · rintro ⟨p, hp, rfl⟩
      rw [List.mem_filter] at hp
      rw [Assoc.mem_pairs.mp hp.1, Option.any_some]
      exact hp.2
    · intro hdue
      rw [Option.any_eq_true] at hdue
      obtain ⟨entry, he, hdead⟩ := hdue
      exact ⟨(k, entry), List.mem_filter.mpr ⟨Assoc.mem_pairs.mpr he, hdead⟩, rfl⟩
  by_cases hdue : due t (s.view k) = true
  · rw [if_pos (hmem.mpr hdue), if_pos hdue]
    rfl
  · rw [if_neg (fun h => hdue (hmem.mp h))]

/-- A copy of a value that is not a memory index. -/
theorem copy_refines {dest : Bytes} {replace : Bool} (ht : e.StandsAt t) (hs : Indexed s)
    (hplain : ∀ x d, s.live t key = some (x, d) → x.typeOf ≠ .memory) :
    Act.Sat (copy key dest replace) e s w
      (fun a s' _ => (Answer.copied a, s'.live t) = (MapOp.copy key dest replace).apply t (s.live t))
      (fun _ => False) := by
  have htwice : ((s.view.expire t key).expire t dest).liveAt t = s.live t := by
    rw [liveAt_expire, liveAt_expire]
    rfl
  refine sat_copy (fun p hp => hp.2 hs) ?_ ?_ ?_ ?_
  · intro s' w' _ hlive hview _
    rw [ht] at hlive hview
    have hnone : s.live t key = none := hlive
    simp [apply, hnone, live_expire hview]
  · intro s' w' _ hreplace hsome htaken hview _
    rw [ht, ht, liveAt_expire] at htaken
    rw [ht, ht] at hview
    rw [ht] at hsome
    have hsome' : (s.live t key).isSome = true := hsome
    have htaken' : (s.live t dest).isSome = true := htaken
    have hsame : s'.live t = s.live t := by
      unfold live
      rw [hview]
      exact htwice
    simp [apply, hsame, hreplace, htaken', Option.isNone_eq_false_iff.mpr hsome']
  · intro hreplace hdest hsome hgone
    rw [ht, ht, liveAt_expire] at hgone
    rw [ht, hgone] at hsome
    cases hsome
  · intro x d s' w' _ hlive hview hfree _
    rw [ht] at hlive
    have hlive' : s.live t key = some (x, d) := hlive
    refine sat_cloneValue ?_ (fun m hm => absurd (by rw [hm]; rfl) (hplain x d hlive'))
    intro _
    refine ⟨rfl, fun s'' hview'' _ => ?_⟩
    have hmid : s'.live t = s.live t := by
      unfold live
      rw [hview, ht, ht]
      split
      · exact liveAt_expire s.view key
      · exact htwice
    have hput : s''.live t = Function.update (s.live t) dest (some (x, d)) := by
      rw [live_update hview'', hmid, pruned_of_live hlive']
    have hnot : ¬ (replace = false ∧ (s.live t dest).isSome = true) := by
      rintro ⟨hr, hsome⟩
      rw [← hmid] at hsome
      unfold live liveAt at hsome
      rw [(hfree hr).1] at hsome
      cases hsome
    show _ = if (s.live t key).isNone then (Answer.copied none, s.live t)
      else if replace = false ∧ (s.live t dest).isSome then (Answer.copied (some false), s.live t)
      else (Answer.copied (some true), Function.update (s.live t) dest (s.live t key))
    rw [hlive', if_neg (by simp), if_neg hnot, hput]

/-! ## Other updates and lookups -/

theorem updateString_refines (value : Bytes) (ht : e.StandsAt t) (hs : Indexed s) :
    Act.Sat (updateString key value) e s w
      (fun _ s' _ => s'.live t = Function.update (s.live t) key
        (some (.str value, (s.live t key).bind Prod.snd))) (fun _ => False) := by
  refine Act.sat_mono (updateString_spec key value) ?_ (fun p hp => hp.2 hs)
  rintro _ s' w' ⟨-, hview, -⟩
  rw [ht] at hview
  rw [live_update hview]
  congr 1
  show pruned t (some (.str value, (s.live t key).bind Prod.snd)) = _
  cases hlive : s.live t key with
  | none => rfl
  | some p => exact pruned_of_live hlive

theorem rename_refines (newKey : Bytes) (ht : e.StandsAt t) (hs : Indexed s) :
    Act.Sat (rename key newKey) e s w
      (fun a s' _ => (Answer.bool a, s'.live t) = (MapOp.rename key newKey).apply t (s.live t))
      (fun _ => False) := by
  refine Act.sat_mono (rename_spec key newKey) ?_ (fun p hp => hp.2 hs)
  rintro a s' w' ⟨-, ha, -, hview⟩
  rw [ht] at ha hview
  have hlive : s'.live t = if (s.live t key).isSome ∧ key ≠ newKey then
      Function.update (Function.update (s.live t) key none) newKey (s.live t key) else s.live t := by
    by_cases hmoves : (s.live t key).isSome ∧ key ≠ newKey
    · have hnot : ¬ (key = newKey ∨ (s.view.liveAt t key).isNone) := by
        rintro (hk | hnone)
        · exact hmoves.2 hk
        · rw [Option.isNone_iff_eq_none] at hnone
          have hsome := hmoves.1
          unfold live at hsome
          rw [hnone] at hsome
          cases hsome
      rw [if_neg hnot] at hview
      rw [if_pos hmoves]
      unfold live
      rw [hview, liveAt_update, liveAt_update, pruned_liveAt]
      rfl
    · rw [if_neg hmoves]
      have hstays : key = newKey ∨ (s.view.liveAt t key).isNone = true := by
        by_cases hk : key = newKey
        · exact .inl hk
        · right
          show (s.live t key).isNone = true
          rw [← Option.not_isSome]
          simpa using fun hsome => hmoves ⟨hsome, hk⟩
      rw [if_pos hstays] at hview
      exact live_expire hview
  rw [ha, hlive]
  rfl

theorem createMemory_refines (memory : Memory) (ht : e.StandsAt t) (hs : Indexed s) :
    Act.Sat (createMemory key memory) e s w
      (fun a s' _ => (Answer.bool a, s'.live t) = (MapOp.createMemory key memory).apply t (s.live t))
      (fun _ => False) := by
  refine Act.sat_mono (createMemory_spec key memory) ?_ (fun p hp => hp.2 hs)
  rintro a s' w' ⟨-, ha, -, hview⟩
  rw [ht] at ha hview
  have hlive : s'.live t = if (s.view.liveAt t key).isSome then s.live t
      else Function.update (s.live t) key (some (.memory memory, none)) := by
    split at hview
    · rw [if_pos ‹_›]
      exact live_expire hview
    · rw [if_neg ‹_›]
      exact live_update hview
  rw [ha, hlive]
  rfl

theorem pttlMs_refines (ht : e.StandsAt t) (hs : Indexed s) :
    Act.Sat (pttlMs key) e s w
      (fun a s' _ => a = timeLeft t (s.live t key) ∧ s'.live t = s.live t) (fun _ => False) := by
  refine Act.sat_mono (pttlMs_spec key) ?_ (fun p hp => hp.2 hs)
  rintro a s' w' ⟨hview, -, ha⟩
  rw [ht] at hview ha
  refine ⟨?_, live_expire hview⟩
  unfold live
  rcases hlive : s.view.liveAt t key with _ | ⟨x, _ | d⟩
  · rw [hlive] at ha
    exact ha.1
  · rw [hlive] at ha
    exact ha.1
  · rw [hlive] at ha
    rw [ha.1, ht]
    rfl

/-- `find` shows what is live and leaves it. -/
theorem find_refines (ht : e.StandsAt t) (hs : Indexed s) :
    Act.Sat (find key) e s w
      (fun a s' _ => a.map entryView = s.live t key ∧ s'.live t = s.live t) (fun _ => False) := by
  refine Act.sat_mono (find_spec key) ?_ (fun p hp => hp.2 hs)
  rintro a s' w' ⟨-, -, ha, hview, -⟩
  rw [ht] at ha hview
  exact ⟨ha, live_expire hview⟩

/-- A lookup that answers a function of what `find` shows. -/
theorem lookup_refines {α : Type} {f : Option Entry → α} {g : Option (Value × Option SystemTime) → α}
    (hfg : ∀ o, f o = g (o.map entryView)) (ht : e.StandsAt t) (hs : Indexed s) :
    Act.Sat (do let entry ← find key; pure (f entry)) e s w
      (fun a s' _ => a = g (s.live t key) ∧ s'.live t = s.live t) (fun _ => False) := by
  rw [Act.sat_bind]
  refine Act.sat_mono (find_refines ht hs) ?_ (fun _ h => h)
  rintro o s' w' ⟨ho, hlive⟩
  rw [Act.sat_pure, hfg, ho]
  exact ⟨rfl, hlive⟩

/-! ## The refinement -/

/-- **The store refines a plain map of live keys.**  From every reachable store, at a clock that
stands at `t`, an operation answers what it is meant to answer on the keys live at `t` and leaves the
map it is meant to leave; none of them panics. -/
theorem exec_refines (e : Env) (t : SystemTime) (ht : e.StandsAt t) (s : Store) (hs : Reachable s)
    (op : MapOp) (hop : op.Fits (s.live t)) (w : World) :
    Act.Sat op.exec e s w (fun a s' _ => (a, s'.live t) = op.apply t (s.live t)) (fun _ => False) := by
  have hi := hs.indexed
  have hR : ∀ p, OutOfRange s p → False := fun p hp => hp.2 hi
  -- a lookup answers from the live keys and leaves them
  have look : ∀ {α : Type} {m : Run Store α} {f : α → Answer} {a : α},
      Act.Sat m e s w (fun a' s' _ => a' = a ∧ s'.live t = s.live t) (fun _ => False) →
      Act.Sat (f <$> m) e s w (fun a' s' _ => (a', s'.live t) = (f a, s.live t)) (fun _ => False) := by
    intro α m f a hm
    rw [Act.sat_map]
    refine Act.sat_mono hm ?_ (fun _ h => h)
    rintro _ s' w' ⟨rfl, hlive⟩
    rw [hlive]
  cases op with
  | setString key value =>
    unfold MapOp.exec
    rw [Act.sat_bind]
    refine Act.sat_mono (setString_spec key value) ?_ hR
    rintro _ s' w' ⟨-, hview, -⟩
    rw [Act.sat_pure, live_update hview]
    rfl
  | updateString key value =>
    unfold MapOp.exec
    rw [Act.sat_bind]
    refine Act.sat_mono (updateString_refines value ht hi) ?_ (fun _ h => h)
    intro _ s' w' hlive
    rw [Act.sat_pure, hlive]
    rfl
  | del key =>
    unfold MapOp.exec
    rw [Act.sat_map]
    refine Act.sat_mono (del_spec key) ?_ hR
    rintro a s' w' ⟨-, ha, hview, -⟩
    rw [ha, ht, live_update hview]
    rfl
  | setExpireAt key deadline =>
    unfold MapOp.exec
    rw [Act.sat_map]
    refine Act.sat_mono (setExpireAt_spec key deadline) ?_ hR
    rintro a s' w' ⟨-, ha, hview, -⟩
    rw [ha, ht, live_update hview, ht]
    rfl
  | rename key newKey =>
    unfold MapOp.exec
    rw [Act.sat_map]
    exact rename_refines newKey ht hi
  | copy key dest replace =>
    unfold MapOp.exec
    rw [Act.sat_map]
    exact copy_refines ht hi hop
  | flush => rfl
  | getOrCreateList key use =>
    unfold MapOp.exec
    rw [Act.sat_map]
    exact getOrCreate_refines ht hi
  | getOrCreateHash key use =>
    unfold MapOp.exec
    rw [Act.sat_map]
    exact getOrCreate_refines ht hi
  | getOrCreateSet key use =>
    unfold MapOp.exec
    rw [Act.sat_map]
    exact getOrCreate_refines ht hi
  | getOrCreateZset key use =>
    unfold MapOp.exec
    rw [Act.sat_map]
    exact getOrCreate_refines ht hi
  | writeList key use =>
    unfold MapOp.exec
    rw [Act.sat_map]
    exact write_refines ht hi
  | writeHash key use =>
    unfold MapOp.exec
    rw [Act.sat_map]
    exact write_refines ht hi
  | writeSet key use =>
    unfold MapOp.exec
    rw [Act.sat_map]
    exact write_refines ht hi
  | writeZset key use =>
    unfold MapOp.exec
    rw [Act.sat_map]
    exact write_refines ht hi
  | existingMemory key use =>
    unfold MapOp.exec
    rw [Act.sat_map]
    exact existingMemory_refines ht hi
  | deleteIfEmpty key =>
    unfold MapOp.exec
    rw [Act.sat_bind]
    refine Act.sat_mono (deleteIfEmpty_spec key) ?_ hR
    rintro _ s' w' ⟨-, hview, -⟩
    rw [ht] at hview
    rw [Act.sat_pure, live_update hview, pruned_unlessEmpty]
    rfl
  | createMemory key memory =>
    unfold MapOp.exec
    rw [Act.sat_map]
    exact createMemory_refines memory ht hi
  | evict key =>
    unfold MapOp.exec
    rw [Act.sat_map]
    refine Act.sat_mono (evict_spec key) ?_ hR
    rintro a s' w' ⟨-, ha, hview, -⟩
    rw [ha, live_update hview, isSome_view_of_live hop]
    exact congrArg (fun b => (Answer.bool b, _)) (show (s.live t key).isSome = true from hop).symm
  | find key =>
    unfold MapOp.exec
    rw [Act.sat_map]
    refine Act.sat_mono (find_refines ht hi) ?_ (fun _ h => h)
    rintro a s' w' ⟨ha, hlive⟩
    rw [ha, hlive]
    rfl
  | hasKey key =>
    exact look (lookup_refines (g := Option.isSome) (fun o => by cases o <;> rfl) ht hi)
  | typeOf key =>
    exact look (lookup_refines (g := Option.map fun p => p.1.typeOf) (fun o => by cases o <;> rfl) ht hi)
  | peekType key =>
    apply look
    refine Act.sat_mono (peekType_spec key) ?_ hR
    rintro a s' w' ⟨-, ha, hview, -⟩
    rw [ht] at ha hview
    exact ⟨ha, live_expire hview⟩
  | hasExpiry key =>
    exact look (lookup_refines (g := fun x => (x.bind Prod.snd).isSome)
      (fun o => by cases o <;> rfl) ht hi)
  | ttl key =>
    apply look
    unfold ttl
    rw [Act.sat_bind]
    refine Act.sat_mono (pttlMs_refines ht hi) ?_ (fun _ h => h)
    rintro _ s' w' ⟨rfl, hlive⟩
    exact ⟨rfl, hlive⟩
  | pttlMs key => exact look (pttlMs_refines ht hi)
  | getString key =>
    refine look (f := fun o : Option Bytes => Answer.value (o.map .str)) ?_
    exact lookup_refines (g := fun x => x.bind fun p => textOf p.1)
      (fun o => by cases o with
        | none => rfl
        | some entry => cases h : entry.value <;> simp [entryView, textOf, h]) ht hi
  | readList key => exact look (read_refines ht hi)
  | readHash key => exact look (read_refines ht hi)
  | readSet key => exact look (read_refines ht hi)
  | readZset key => exact look (read_refines ht hi)
  | sweepExpired =>
    unfold MapOp.exec
    rw [Act.sat_bind]
    refine Act.sat_mono (sweepExpired_refines ht hi) ?_ (fun _ h => h)
    intro _ s' w' hlive
    rw [Act.sat_pure, hlive]
    rfl

/-- At 20 a key with the deadline 10 is still in the store and no longer in the map. -/
theorem exec_refines_stale :
    ∃ s, Reachable s ∧ (s.view [107]).isSome = true ∧ s.live 20 [107] = none ∧
      Act.Sat (MapOp.del [107]).exec (stillEnv 20) s {}
        (fun a s' _ => (a, s'.live 20) = (MapOp.del [107]).apply 20 (s.live 20)) (fun _ => False) := by
  have hrun : Act.Sat (Act.forList StoreOp.exec
      [.setString [107] [118], .setExpireAt [107] (some 10)]) (stillEnv 5) {} {}
      (fun _ s _ => (s.view [107]).isSome = true ∧ s.live 20 [107] = none) (fun _ => False) := by
    decide +kernel
  obtain ⟨_, s, _, hdone, hthere, hdead⟩ := Act.exists_of_sat hrun
  have hs : Reachable s := (Reachable.start 0).run _ hdone
  exact ⟨s, hs, hthere, hdead,
    exec_refines (stillEnv 20) 20 (fun _ => rfl) s hs (.del [107]) trivial {}⟩

end Store

end Klyro
