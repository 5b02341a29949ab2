import Klyro.Persist.Install

/-!
# A dump brings the keyspace back

A store of strings, lists, hashes, sets and sorted sets is saved at one moment and loaded into an
empty store at another.

* `Store.Dumpable` — every live collection holds something and is of a size that can exist, sorted
  sets are in order and deadlines fit the dump's numbers.
* `Restored` — what the loaded store shows at a key: the same value, and a deadline less than two
  milliseconds before the old one, unless it has passed.
* `dump_roundtrip` — the round trip.
-/

set_option autoImplicit false

namespace Klyro

open Store Keyspace DumpReader

/-! ## Deadlines -/

theorem wrapI64_of_range {i : Int} (h0 : 0 ≤ i) (h1 : i ≤ i64Max) : wrapI64 i = i := by
  unfold i64Max at h1
  unfold wrapI64
  omega

theorem unixMillis_eq {t : Int} (h0 : 0 ≤ t) (h1 : t / 1000000 ≤ i64Max) :
    unixMillis t = t / 1000000 := by
  have hn : ((asMillis (t - 0).toNat : Nat) : Int) = t / 1000000 := by
    unfold asMillis
    omega
  unfold unixMillis durationSince
  rw [if_pos h0]
  dsimp only
  rw [hn]
  exact wrapI64_of_range (by omega) h1

theorem millisLeft_eq {d t : Int} (h : t < d) (h1 : (d - t) / 1000000 ≤ i64Max) :
    millisLeft d t = (d - t) / 1000000 := by
  have hn : ((asMillis (d - t).toNat : Nat) : Int) = (d - t) / 1000000 := by
    unfold asMillis
    omega
  unfold millisLeft durationSince
  rw [if_pos (Int.le_of_lt h)]
  dsimp only
  rw [hn]
  exact wrapI64_of_range (by omega) h1

/-- The deadline in the dump: both the time and the time left lose what is below a millisecond. -/
theorem dumpDeadline_eq {d t : Int} (h0 : 0 ≤ t) (h : t < d) (hd : d / 1000000 ≤ i64Max) :
    dumpDeadline d t t = t / 1000000 + (d - t) / 1000000 := by
  have hm := millisLeft_eq h (by omega)
  have hu := unixMillis_eq h0 (by omega)
  unfold dumpDeadline
  rw [hm, hu, if_neg (by omega)]
  exact wrapI64_of_range (by omega) (by omega)

theorem dumpDeadline_range {d t : Int} (h0 : 0 ≤ t) (h : t < d) (hd : d / 1000000 ≤ i64Max) :
    0 ≤ dumpDeadline d t t ∧ dumpDeadline d t t ≤ i64Max := by
  rw [dumpDeadline_eq h0 h hd]
  omega

/-- The deadline a key with the deadline `d` comes back with when it is saved at `t`. -/
def writtenDeadline (d t : SystemTime) : SystemTime :=
  (fromMillis (dumpDeadline d t t).toNat : Nat)

/-- It is less than two milliseconds before `d`. -/
theorem writtenDeadline_bounds {d t : Int} (h0 : 0 ≤ t) (h : t < d)
    (hd : d / 1000000 ≤ i64Max) :
    d - 2 * nanosPerMilli < writtenDeadline d t ∧ writtenDeadline d t ≤ d := by
  unfold writtenDeadline fromMillis nanosPerMilli
  push_cast
  rw [Int.toNat_of_nonneg (dumpDeadline_range h0 h hd).1, dumpDeadline_eq h0 h hd]
  have hlow : d - 2 * 1000000 < (t / 1000000 + (d - t) / 1000000) * 1000000 := by omega
  have hhigh : (t / 1000000 + (d - t) / 1000000) * 1000000 ≤ d := by omega
  exact ⟨hlow, hhigh⟩

/-! ## Stores that can be dumped -/

/-- A value the dump format is made for; an empty collection is no value of a key. -/
def Value.Dumpable : Value → Prop
  | .str x => BlobFits x
  | .list l => l ≠ [] ∧ l.length * bytesSize ≤ isizeMax ∧ ∀ b ∈ l, BlobFits b
  | .hash h =>
    h.pairs ≠ [] ∧ h.size * pairSize ≤ isizeMax ∧ ∀ p ∈ h.pairs, BlobFits p.1 ∧ BlobFits p.2
  | .set s => s.pairs ≠ [] ∧ s.size * bytesSize ≤ isizeMax ∧ ∀ p ∈ s.pairs, BlobFits p.1
  | .zset z =>
    z.entries ≠ [] ∧ z.size * scoredSize ≤ isizeMax ∧ z.Sorted ∧ ∀ p ∈ z.entries, BlobFits p.1
  | .memory _ => False

/-- A store of strings, lists, hashes, sets and sorted sets, as far as its live keys go. -/
structure Store.Dumpable (s : Store) (t : SystemTime) : Prop where
  key : ∀ x ∈ s.liveKeys t, BlobFits x.1
  value : ∀ x ∈ s.liveKeys t, x.2.1.Dumpable
  deadline : ∀ x ∈ s.liveKeys t, ∀ d, x.2.2 = some d → d / 1000000 ≤ i64Max

/-- The same value, for a client: the order inside a hash or a set does not show. -/
def Value.Same : Value → Value → Prop
  | .hash h, .hash h' => ∀ field, h'.lookup field = h.lookup field
  | .set s, .set s' => ∀ m, s'.lookup m = s.lookup m
  | v, v' => v' = v

/-- What a load at `t'` shows at a key for which a lookup at `t` found the first argument when the
dump was written. -/
def Restored (t t' : SystemTime) :
    Option (Value × Option SystemTime) → Option (Value × Option SystemTime) → Prop
  | none, after => after = none
  | some (v, none), after => ∃ v', after = some (v', none) ∧ v.Same v'
  | some (v, some d), after =>
    d - 2 * nanosPerMilli < writtenDeadline d t ∧ writtenDeadline d t ≤ d ∧
    (writtenDeadline d t ≤ t' → after = none) ∧
    (t' < writtenDeadline d t → ∃ v', after = some (v', some (writtenDeadline d t)) ∧ v.Same v')

theorem payload_fits {v : Value} (h : v.Dumpable) (t : SystemTime) : (v.payload t t).Fits := by
  cases v with
  | str x => exact h
  | list l => exact h.2
  | hash x => exact ⟨by rw [Assoc.length_pairs]; exact h.2.1, h.2.2⟩
  | set x =>
    refine ⟨by rw [List.length_map, Assoc.length_pairs]; exact h.2.1, fun b hb => ?_⟩
    obtain ⟨p, hp, rfl⟩ := List.mem_map.mp hb
    exact h.2.2 p hp
  | zset z => exact ⟨h.2.1, fun p hp => ⟨h.2.2.2 p hp, h.2.2.1.numbers p hp⟩⟩
  | memory m => exact h.elim

/-- The value of a record is the value it was written from. -/
theorem payload_value {v : Value} (h : v.Dumpable) (t : SystemTime) (maxTerms : Nat) :
    v.Same ((v.payload t t).loaded maxTerms).value ∧
      ((v.payload t t).loaded maxTerms).value.isEmptyCollection = false := by
  cases v with
  | str x => exact ⟨rfl, rfl⟩
  | list l => exact ⟨rfl, by simpa [Value.payload, Payload.loaded, LoadedValue.value,
      Value.isEmptyCollection] using h.1⟩
  | hash x =>
    refine ⟨fun field => Assoc.lookup_insertAll_pairs x field, ?_⟩
    obtain ⟨⟨k, y⟩, hp⟩ := List.exists_mem_of_ne_nil _ h.1
    have hl := (Assoc.lookup_insertAll_pairs x k).trans (Assoc.mem_pairs.mp hp)
    rw [← Assoc.mem_pairs] at hl
    rw [Bool.eq_false_iff]
    intro hempty
    rw [Value.payload, Payload.loaded, LoadedValue.value, Value.isEmptyCollection,
      Assoc.isEmpty_iff] at hempty
    rw [hempty] at hl
    cases hl
  | set x =>
    have hpairs : ((x.pairs.map Prod.fst).map fun m => (m, ())) = x.pairs := by
      rw [List.map_map]
      exact List.map_id _
    have hvalue : (((Value.set x).payload t t).loaded maxTerms).value =
        .set (Assoc.insertAll x.pairs ∅) := by
      rw [Value.payload, Payload.loaded, LoadedValue.value, hpairs]
    rw [hvalue]
    refine ⟨fun m => Assoc.lookup_insertAll_pairs x m, ?_⟩
    obtain ⟨⟨k, y⟩, hp⟩ := List.exists_mem_of_ne_nil _ h.1
    have hl := (Assoc.lookup_insertAll_pairs x k).trans (Assoc.mem_pairs.mp hp)
    rw [← Assoc.mem_pairs] at hl
    rw [Bool.eq_false_iff]
    intro hempty
    rw [Value.isEmptyCollection, Assoc.isEmpty_iff] at hempty
    rw [hempty] at hl
    cases hl
  | zset z =>
    have hvalue : (((Value.zset z).payload t t).loaded maxTerms).value = .zset z := by
      have := Zset.addAll_sorted z.entries {} (by simpa using h.2.2.1)
      rw [Value.payload, Payload.loaded, LoadedValue.value, this]
      rfl
    rw [hvalue]
    refine ⟨rfl, ?_⟩
    have := List.length_pos_iff.mpr h.1
    simp only [Value.isEmptyCollection, Zset.size, beq_eq_false_iff_ne]
    omega
  | memory m => exact h.elim

/-! ## A save at one moment -/

section moment

variable {c : Nat → SystemTime} {t : SystemTime}

/-- The record of a key that is live at the moment of the save. -/
def momentRecord (t : SystemTime) (x : LiveKey) : Record :=
  ⟨x.1, (x.2.2.map fun d => dumpDeadline d t t).getD (-1), x.2.1.payload t t⟩

theorem recordsAt_moment (hc : ∀ i, c i = t) : ∀ {xs : List LiveKey} {i : Nat},
    (∀ x ∈ xs, ∀ d, x.2.2 = some d → t < d) → recordsAt c i xs = xs.map (momentRecord t)
  | [], _, _ => rfl
  | x :: xs, i, h => by
    have hx : recordAt c i x = some (momentRecord t x) := by
      have hlive := h x (by simp)
      obtain ⟨key, v, d⟩ := x
      cases d with
      | none => simp [recordAt, foundAt, expiryAt, hc, momentRecord]
      | some d => simp [recordAt, foundAt, expiryAt, hc, momentRecord, hlive d rfl]
    rw [recordsAt, hx, recordsAt_moment hc fun y hy => h y (List.mem_cons_of_mem _ hy)]
    rfl

end moment

/-! ## The round trip -/

theorem length_le_bytes : ∀ rs : List Record, rs.length ≤ (rs.flatMap Record.bytes).length
  | [] => Nat.le_refl 0
  | r :: rs => by
    have hr : 0 < r.bytes.length := by
      rw [r.bytes_eq, List.length_append]
      unfold wordLine Piece.bytes
      rw [List.length_append, List.length_singleton]
      omega
    have := length_le_bytes rs
    rw [List.flatMap_cons, List.length_append, List.length_cons]
    omega

/-- The entries of a whole dump. -/
theorem sat_loadEntries_dump {e : Env} {w : World} {R : Panic → Prop} {maxTerms : Nat}
    {rs : List Record} {Q : List LoadedEntry → Bytes → World → Prop}
    {E : IoError → Bytes → World → Prop} (h : ∀ r ∈ rs, r.Fits)
    (hQ : Q (rs.map (Record.loaded maxTerms)) [] w) :
    Act.SatE (loadEntries maxTerms) e (dumpBytes rs) w Q E R := by
  unfold dumpBytes
  refine sat_loadEntries ?_
  have hlen := length_le_bytes rs
  obtain ⟨fuel, hfuel⟩ : ∃ fuel, (magicBytes ++ rs.flatMap Record.bytes).length = rs.length + fuel :=
    ⟨_, (Nat.add_sub_cancel' (by rw [List.length_append]; omega)).symm⟩
  rw [hfuel]
  have hload : Act.SatE (loadV2 maxTerms (rs.length + fuel)) e (rs.flatMap Record.bytes ++ []) w
      Q E R := sat_loadV2 h (sat_loadV2_end (by simpa using hQ))
  rwa [List.append_nil] at hload

theorem momentRecord_fits {s : Store} {t : SystemTime} (h0 : 0 ≤ t) (hs : s.Dumpable t)
    {x : LiveKey} (hx : x ∈ s.liveKeys t) (hlive : ∀ d, x.2.2 = some d → t < d) :
    (momentRecord t x).Fits := by
  refine ⟨hs.key x hx, ?_, payload_fits (hs.value x hx) t⟩
  unfold momentRecord
  cases hd : x.2.2 with
  | none => exact (by decide : i64Min ≤ -1 ∧ (-1 : Int) ≤ i64Max)
  | some d =>
    obtain ⟨hlow, hhigh⟩ := dumpDeadline_range h0 (hlive d hd) (hs.deadline x hx d hd)
    exact ⟨Int.le_trans (by decide) hlow, hhigh⟩

/-- What the load shows for the record of a live key. -/
theorem restored_shown {c : Nat → SystemTime} {t t' : SystemTime} {s : Store} {maxTerms i : Nat}
    (hc : ∀ i, c i = t') (h0 : 0 ≤ t) (hs : s.Dumpable t) {x : LiveKey} (hx : x ∈ s.liveKeys t)
    (hlive : ∀ d, x.2.2 = some d → t < d) :
    Restored t t' (some x.2) (((momentRecord t x).loaded maxTerms).shown c i) := by
  obtain ⟨hsame, hne⟩ := payload_value (hs.value x hx) t maxTerms
  obtain ⟨key, v, d⟩ := x
  unfold LoadedEntry.shown shownAt
  rw [hc]
  cases d with
  | none => exact ⟨_, by simp [momentRecord, Record.loaded, LoadedEntry.deadline, due, hne], hsame⟩
  | some d =>
    have hfit := hs.deadline _ hx d rfl
    have hlt := hlive d rfl
    obtain ⟨hlow, hhigh⟩ := writtenDeadline_bounds h0 hlt hfit
    have hdead : ((momentRecord t (key, v, some d)).loaded maxTerms).deadline =
        some (writtenDeadline d t) := by
      unfold LoadedEntry.deadline
      rw [if_pos]
      · rfl
      · exact (dumpDeadline_range h0 hlt hfit).1
    rw [hdead]
    refine ⟨hlow, hhigh, fun hle => ?_, fun hlt' => ⟨_, ?_, hsame⟩⟩
    · simp [due, hle]
    · have hdue : due t' (some ((((momentRecord t (key, v, some d)).loaded maxTerms).value.value),
          some (writtenDeadline d t))) = false := by
        simp [due, hlt']
      rw [hdue]
      simp [momentRecord, Record.loaded, hne]

theorem shownAll_mem {c : Nat → SystemTime} : ∀ {es : List LoadedEntry} {i : Nat} {entry : LoadedEntry},
    entry ∈ es → ∃ j, (entry.key, entry.shown c j) ∈ shownAll c i es
  | other :: es, i, entry, h => by
    rcases List.mem_cons.mp h with rfl | h
    · exact ⟨i, by simp [shownAll]⟩
    · obtain ⟨j, hj⟩ := shownAll_mem (c := c) (i := i + other.readings + 1) h
      exact ⟨j, by simp [shownAll, hj]⟩

theorem liveKeys_liveAt {s : Store} {t : SystemTime} {key : Bytes} {x : Value × Option SystemTime} :
    (key, x) ∈ s.liveKeys t ↔ s.view.liveAt t key = some x := by
  unfold liveAt
  rw [due_view]
  unfold Store.liveKeys Store.liveEntries Store.view
  rw [List.mem_map]
  constructor
  · rintro ⟨⟨k, entry⟩, hp, he⟩
    obtain ⟨hmem, hlive⟩ := List.mem_filter.mp hp
    cases he
    rw [Assoc.mem_pairs] at hmem
    rw [hmem]
    simp [show entry.isLive t = true from hlive]
  · intro h
    cases hl : s.map.lookup key with
    | none => simp [hl] at h
    | some entry =>
      rw [hl] at h
      cases hlive : entry.isLive t with
      | false => simp [hlive] at h
      | true =>
        simp only [Option.any_some, hlive, Bool.not_true, Bool.false_eq_true, if_false, Option.map_some,
          Option.some.injEq] at h
        exact ⟨(key, entry), List.mem_filter.mpr ⟨Assoc.mem_pairs.mpr hl, hlive⟩, by rw [← h]⟩

theorem lt_of_liveKeys {s : Store} {t d : SystemTime} {x : LiveKey} (hx : x ∈ s.liveKeys t)
    (hd : x.2.2 = some d) : t < d := by
  obtain ⟨key, v, d'⟩ := x
  cases hd
  have hlive := liveKeys_liveAt.mp hx
  unfold liveAt at hlive
  split at hlive
  · cases hlive
  · rename_i hdue
    rw [hlive] at hdue
    simpa [due] using hdue

/-- The records of a save at one instant. -/
theorem records_moment {e : Env} {t : SystemTime} (ht : ∀ i, e.clock i = t) (s : Store) (i : Nat) :
    s.records e.clock i = (s.liveKeys t).map (momentRecord t) := by
  unfold Store.records
  rw [ht]
  exact recordsAt_moment ht fun x hx d => lt_of_liveKeys hx

theorem indexed_new (started : Instant) : Indexed { started := started } where
  keys_nodup := List.nodup_nil
  mem_keys := by simp
  slot := by simp
  volatile_nodup := List.nodup_nil
  mem_volatile := by simp
  volatile_slot := by simp
  stable := by simp

/-- **The dump round trip.**  What a save at `t` leaves in the file, a load at `t'` into an empty
store brings back: at every key the loaded store shows what `Restored` says. -/
theorem dump_roundtrip (e e' : Env) (path : String) (s : Store) (w : World) (started : Instant)
    (maxTerms : Nat) (t t' : SystemTime) (ht : ∀ i, e.clock i = t) (ht' : ∀ i, e'.clock i = t')
    (hidx : Indexed s) (hs : s.Dumpable t) :
    Act.SatE (saveInner path) e s w
      (fun _ _ w' => ∀ w₁ : World, w₁.files.lookup path = w'.files.lookup path →
        Act.Sat (Persist.load ⟨path, none⟩ maxTerms) e' { started := started } w₁
          (fun _ s' _ => ∀ key, Restored t t' (s.view.liveAt t key) (s'.view key)) (fun _ => False))
      (fun _ _ _ => ∃ i, e.disk i = false) (fun _ => False) := by
  have h0 : 0 ≤ t := by
    rw [← ht 0]
    exact e.epoch 0
  refine Act.satE_mono (saveInner_spec path) ?_ (fun _ _ _ h => h.1) (fun p hp => absurd hidx hp.2)
  rintro _ s₁ w₁ ⟨hfile, -⟩ w₂ hw₂
  have hlive : ∀ x ∈ s.liveKeys t, ∀ d, x.2.2 = some d → t < d := fun x hx d => lt_of_liveKeys hx
  rw [hfile, records_moment ht] at hw₂
  refine sat_load hw₂ (sat_loadEntries_dump ?_ ?_)
  · intro r hr
    obtain ⟨x, hx, rfl⟩ := List.mem_map.mp hr
    exact momentRecord_fits h0 hs hx (hlive x hx)
  · have hkeys : (((s.liveKeys t).map (momentRecord t)).map (Record.loaded maxTerms)).map
        LoadedEntry.key = (s.liveKeys t).map Prod.fst := by
      rw [List.map_map, List.map_map]
      rfl
    refine Act.sat_mono (installAll_spec ?_ ?_ ?_) ?_ (fun p hp => absurd (indexed_new started) hp.2)
    · rw [hkeys]
      exact liveKeys_nodup s t
    · intro entry _
      rfl
    · intro entry hentry
      obtain ⟨r, hr, rfl⟩ := List.mem_map.mp hentry
      obtain ⟨x, hx, rfl⟩ := List.mem_map.mp hr
      exact (momentRecord_fits h0 hs hx (hlive x hx)).expireAt.2
    · rintro _ s₃ w₃ ⟨hshown, hothers, -⟩ key
      cases hl : s.view.liveAt t key with
      | none =>
        show s₃.view key = none
        rw [hothers key]
        · rfl
        · rw [hkeys]
          intro hk
          obtain ⟨x, hx, rfl⟩ := List.mem_map.mp hk
          rw [liveKeys_liveAt.mp hx] at hl
          cases hl
      | some x =>
        have hx := liveKeys_liveAt.mpr hl
        obtain ⟨j, hj⟩ := shownAll_mem (c := e'.clock) (i := w₂.ticks)
          (List.mem_map_of_mem (f := Record.loaded maxTerms) (List.mem_map_of_mem (f := momentRecord t) hx))
        have hview := hshown _ hj
        dsimp only at hview
        rw [show ((momentRecord t (key, x)).loaded maxTerms).key = key from rfl] at hview
        rw [hview]
        exact restored_shown ht' h0 hs hx (hlive _ hx)

/-- A string that is a newline, with a deadline of 20 milliseconds, and a sorted set. -/
def smallStore : Store where
  map := ((∅ : Assoc Bytes Entry).insert [107] ⟨.str [10], some 20000000, 0, some 0, Access.new 0 0⟩).insert
    [122] ⟨.zset ⟨[([97], lit "1.5"), ([], lit "inf")]⟩, none, 1, none, Access.new 0 0⟩
  keys := [[107], [122]]
  volatile := [[107]]

theorem smallStore_liveKeys : smallStore.liveKeys 5000000 =
    [([122], .zset ⟨[([97], lit "1.5"), ([], lit "inf")]⟩, none), ([107], .str [10], some 20000000)] := by
  decide +kernel

theorem smallStore_dumpable : smallStore.Dumpable 5000000 := by
  refine ⟨?_, ?_, ?_⟩
  · rw [smallStore_liveKeys]
    unfold BlobFits
    decide
  · rw [smallStore_liveKeys]
    have hz : Zset.Sorted ⟨[([97], lit "1.5"), ([], lit "inf")]⟩ :=
      ⟨by decide +kernel, by decide, by decide +kernel⟩
    intro x hx
    simp only [List.mem_cons, List.not_mem_nil, or_false] at hx
    rcases hx with rfl | rfl
    · refine ⟨by simp, by decide, hz, ?_⟩
      unfold BlobFits
      decide
    · exact (by decide : [(10 : UInt8)].length ≤ isizeMax)
  · rw [smallStore_liveKeys]
    intro x hx d hd
    simp only [List.mem_cons, List.not_mem_nil, or_false] at hx
    rcases hx with rfl | rfl
    · cases hd
    · cases hd
      decide

section instances

-- a concrete run is not to be evaluated while a statement about it is elaborated
attribute [local irreducible] Act.SatE Act.Sat

theorem dump_roundtrip_small :
    Indexed smallStore ∧ smallStore.Dumpable 5000000 ∧
    Act.SatE (saveInner "dump") (stillEnv 5000000) smallStore {}
      (fun _ _ w' => ∀ w₁ : World, w₁.files.lookup "dump" = w'.files.lookup "dump" →
        Act.Sat (Persist.load ⟨"dump", none⟩ 8) (stillEnv 7000000) { started := 0 } w₁
          (fun _ s' _ => ∀ key,
            Restored 5000000 7000000 (smallStore.view.liveAt 5000000 key) (s'.view key))
          (fun _ => False))
      (fun _ _ _ => ∃ i, (stillEnv 5000000).disk i = false) (fun _ => False) := by
  have hidx : Indexed smallStore := by decide +kernel
  exact ⟨hidx, smallStore_dumpable, dump_roundtrip (stillEnv 5000000) (stillEnv 7000000) "dump"
    smallStore {} 0 8 5000000 7000000 (fun _ => rfl) (fun _ => rfl) hidx smallStore_dumpable⟩

end instances

end Klyro
