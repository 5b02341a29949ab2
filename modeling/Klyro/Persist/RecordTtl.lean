import Klyro.Persist.Expiry
import Klyro.Persist.Reload
import Klyro.Persist.RoundTrip
import Klyro.Types.Memory.Added

/-!
# Deadlines of memory records

A record gets its deadline from a number of seconds, reports it in milliseconds that are left and is
saved with it in milliseconds since the epoch.

* `DeadlineKept` — a record carries a deadline, reports it and keeps it over a reload.
* `TtlExact` — an addition or an `MEM.EXPIRE` at `t` leaves such a record.
* `ttlExact_iff` — exactly the deadlines whose milliseconds fit an `i64` are kept.
-/

set_option autoImplicit false

namespace Klyro

open Store

namespace Memory

variable {e : Env} {w : World} {m : Memory} {id : Bytes} {d : Option SystemTime} {t : SystemTime}

/-- A deadline without what is below a millisecond. -/
def wholeMillis (d : SystemTime) : SystemTime := d / 1000000 * 1000000

/-- The milliseconds to report at `t`: those that are left, or -1 without a deadline. -/
def LeftAt (d : Option SystemTime) (t : SystemTime) (left : Int) : Prop :=
  match d with
  | none => left = -1
  | some x => left = (x - t) / 1000000 ∧ 0 ≤ left

/-- The deadline has not passed at `t`. -/
def Ahead (d : Option SystemTime) (t : SystemTime) : Prop := ∀ x, d = some x → t < x

/-- The record `id` has the deadline `d`, reports it, and has it again after a reload. -/
structure DeadlineKept (m : Memory) (id : Bytes) (d : Option SystemTime) : Prop where
  filed : ∃ r, m.records.lookup id = some r ∧ r.expireAt = d
  reported : ∀ (e : Env) (w : World), Ahead d (e.clock w.ticks) →
    Act.Sat (recordPttl id) e m w (fun left _ _ => LeftAt d (e.clock w.ticks) left) (fun _ => False)
  reloaded : m.Written → ∀ (maxTerms : Nat) (e : Env) (w : World), Ahead d (e.clock w.ticks) →
    Ahead d (e.clock (w.ticks + 1)) →
    Act.Sat (reload maxTerms) e m w (fun loaded _ _ => ∃ m' r, loaded = some m' ∧
      m'.records.lookup id = some r ∧ r.expireAt = d.map wholeMillis) (· = .capacity)

/-- The time to live that `MEM.EXPIRE` makes of its seconds: zero clears the deadline. -/
def ttlOf (seconds : Nat) : Option Duration := if seconds = 0 then none else some (fromSecs seconds)

/-- The deadline of a time to live set at `t`. -/
def deadlineOf (t : SystemTime) (ttl : Option Duration) : Option SystemTime :=
  ttl.map fun ttl : Duration => t + (ttl : Int)

/-- A record that is added at `t` with `seconds` to live, or that `MEM.EXPIRE` gives them, has its
deadline computed without overflow, and keeps it. -/
structure TtlExact (t : SystemTime) (seconds : Nat) : Prop where
  added : 1 ≤ seconds → ∀ (e : Env) (m : Memory) (w : World), e.clock w.ticks = t → m.Keyed →
    ∀ (request : AddRequest) (maxTerms maxRecords : Nat), request.ttl = some (fromSecs seconds) →
    Act.Sat (add request maxTerms maxRecords) e m w
      (fun r m' _ => ∀ id, r = .ok id → m'.DeadlineKept id (some (t + (fromSecs seconds : Nat))))
      (· ≠ .overflow)
  expired : ∀ (e : Env) (m : Memory) (w : World), e.clock w.ticks = t → m.Keyed → ∀ id : Bytes,
    Act.Sat (setRecordTtl id (ttlOf seconds)) e m w
      (fun r m' _ => r = .ok () → m'.DeadlineKept id (deadlineOf t (ttlOf seconds)))
      (· ≠ .overflow)

/-- The milliseconds of a deadline fit an `i64`. -/
def MillisFit (d : Option SystemTime) : Prop := ∀ x, d = some x → 0 ≤ x ∧ x / 1000000 ≤ i64Max

/-! ## Reporting -/

theorem left_range {x t : Int} (ht : 0 ≤ t) (hlt : t < x) (hmax : x / 1000000 ≤ i64Max) :
    0 ≤ (x - t) / 1000000 ∧ (x - t) / 1000000 ≤ i64Max := by
  omega

theorem wrapI64_eq_iff {i : Int} (h : 0 ≤ i) : wrapI64 i = i ↔ i ≤ i64Max := by
  unfold wrapI64 i64Max
  omega

theorem isLive_of_ahead {r : MemoryRecord} (h : Ahead r.expireAt t) : r.isLive t = true := by
  unfold MemoryRecord.isLive
  cases hd : r.expireAt with
  | none => rfl
  | some x => exact decide_eq_true (h x hd)

theorem sat_recordPttl {r : MemoryRecord} {Q : Int → Memory → World → Prop} {R : Panic → Prop}
    (hr : m.records.lookup id = some r) (hlive : r.isLive (e.clock w.ticks) = true)
    (hQ : Q (match r.expireAt with
      | none => -1
      | some x => match durationSince x (e.clock w.ticks) with
        | some left => wrapI64 (asMillis left)
        | none => 0) m { w with ticks := w.ticks + 1 }) :
    Act.Sat (recordPttl id) e m w Q R := by
  unfold recordPttl
  rw [Act.sat_bind, sat_now, Act.sat_bind, Act.sat_get, Act.sat_pure]
  have hfound : m.liveRecord id (e.clock w.ticks) = some r := by
    unfold liveRecord
    rw [hr]
    exact Option.filter_eq_some_iff.mpr ⟨rfl, hlive⟩
  rw [hfound]
  exact hQ

/-- A deadline whose milliseconds fit is reported as it is. -/
theorem reported_of_fits {r : MemoryRecord} (hr : m.records.lookup id = some r)
    (hfit : MillisFit r.expireAt) (h : Ahead r.expireAt (e.clock w.ticks)) :
    Act.Sat (recordPttl id) e m w (fun left _ _ => LeftAt r.expireAt (e.clock w.ticks) left)
      (fun _ => False) := by
  refine sat_recordPttl hr (isLive_of_ahead h) ?_
  unfold LeftAt
  cases hd : r.expireAt with
  | none => rfl
  | some x =>
    obtain ⟨-, hmax⟩ := hfit x hd
    have hlt := h x hd
    obtain ⟨hnonneg, hle⟩ := left_range (e.epoch w.ticks) hlt hmax
    have hleft : millisLeft x (e.clock w.ticks) = (x - e.clock w.ticks) / 1000000 :=
      millisLeft_eq hlt hle
    have hmillis : (match durationSince x (e.clock w.ticks) with
        | some left => wrapI64 (asMillis left)
        | none => 0) = millisLeft x (e.clock w.ticks) := by
      unfold millisLeft durationSince
      rw [if_pos (Int.le_of_lt hlt)]
    dsimp only
    rw [hmillis, hleft]
    exact ⟨rfl, hnonneg⟩

/-- At the epoch a deadline is reported as it is only if its milliseconds fit. -/
theorem fits_of_reported {x : SystemTime} (hpos : 0 < x) (h : m.DeadlineKept id (some x)) :
    MillisFit (some x) := by
  obtain ⟨r, hr, hd⟩ := h.filed
  have hahead : Ahead (some x) 0 := by
    rintro y hy
    cases hy
    exact hpos
  have hlive : r.isLive 0 = true := isLive_of_ahead (by rw [hd]; exact hahead)
  have hreport := h.reported (stillEnv 0) {} hahead
  have hactual : Act.Sat (recordPttl id) (stillEnv 0) m {}
      (fun left _ _ => left = wrapI64 (x / 1000000)) (fun _ => True) := by
    refine sat_recordPttl hr hlive ?_
    rw [hd]
    have hsince : durationSince x 0 = some (x - 0).toNat := if_pos (Int.le_of_lt hpos)
    have hmillis : ((asMillis (x - 0).toNat : Nat) : Int) = x / 1000000 := by
      unfold asMillis
      push_cast
      rw [Int.toNat_of_nonneg (Int.le_of_lt (by simpa using hpos)), Int.sub_zero]
    change (match durationSince x 0 with
      | some left => wrapI64 (asMillis left)
      | none => 0) = _
    rw [hsince]
    exact congrArg wrapI64 hmillis
  intro y hy
  cases hy
  refine ⟨Int.le_of_lt hpos, ?_⟩
  by_contra hover
  refine Act.not_sat_false _ (Act.sat_mono (Act.sat_and hreport hactual) ?_ (fun _ h => h.1))
  rintro left _ _ ⟨⟨hleft, hnonneg⟩, hwrap⟩
  change left = (x - 0) / 1000000 at hleft
  rw [Int.sub_zero] at hleft
  rw [hwrap] at hleft
  exact hover ((wrapI64_eq_iff (Int.ediv_nonneg (Int.le_of_lt hpos) (by decide))).mp hleft)

/-! ## Saving and loading -/

/-- The deadline of a record as it is read back. -/
theorem reparsed_expireAt (p : MemoryRecord × Option (List F32)) : (reparsed p).expireAt =
    if 0 ≤ (p.1.expireAt.map unixMillis).getD (-1) then
      some (fromUnixMillis ((p.1.expireAt.map unixMillis).getD (-1)))
    else none := by
  have hrange : i64Min ≤ (p.1.expireAt.map unixMillis).getD (-1) ∧
      (p.1.expireAt.map unixMillis).getD (-1) ≤ i64Max := by
    cases p.1.expireAt with
    | none => decide
    | some x =>
      rw [Option.map_some, Option.getD_some]
      unfold unixMillis
      cases durationSince x 0 with
      | none => decide
      | some left =>
        dsimp only
        unfold wrapI64 i64Min i64Max
        omega
  unfold reparsed
  rw [MemoryRecord.setMetaAll_eq]
  unfold parseRecord Payload.recordWords
  simp only [List.getD_cons_zero, List.getD_cons_succ, Text.parseInt_showInt hrange, Option.getD_some]

/-- A deadline whose milliseconds fit comes back whole. -/
theorem reparsed_of_fits {p : MemoryRecord × Option (List F32)} (h : MillisFit p.1.expireAt) :
    (reparsed p).expireAt = p.1.expireAt.map wholeMillis := by
  rw [reparsed_expireAt]
  cases hd : p.1.expireAt with
  | none => rfl
  | some x =>
    obtain ⟨h0, hmax⟩ := h x hd
    have hmillis : unixMillis x = x / 1000000 := unixMillis_eq h0 hmax
    have hnonneg : 0 ≤ x / 1000000 := Int.ediv_nonneg h0 (by decide)
    rw [Option.map_some, Option.getD_some, hmillis, if_pos hnonneg, Option.map_some]
    unfold fromUnixMillis fromMillis wholeMillis nanosPerMilli
    congr 1
    push_cast
    rw [Int.toNat_of_nonneg hnonneg]

/-- A record whose deadline fits keeps it. -/
theorem deadlineKept_of_fits (hkeyed : m.Keyed) {r : MemoryRecord} (hr : m.records.lookup id = some r)
    (hd : r.expireAt = d) (hfit : MillisFit d) : m.DeadlineKept id d := by
  subst hd
  refine ⟨⟨r, hr, rfl⟩, fun e w h => reported_of_fits hr hfit h, ?_⟩
  intro hwritten maxTerms e w h₀ h₁
  have hid := hkeyed id r hr
  have hmem : (r, m.vectorOf r) ∈ m.dumpAt (e.clock w.ticks) (e.clock (w.ticks + 1)) :=
    (mem_dumpAt hkeyed).mpr ⟨by rw [hid]; exact hr, isLive_of_ahead h₀, isLive_of_ahead h₁, rfl⟩
  refine Act.sat_mono (sat_reload hwritten maxTerms) ?_ (fun _ h => h)
  rintro loaded m' w' ⟨rfl, rfl, -⟩
  obtain ⟨slot, hslot⟩ := rebuilt_mem hkeyed hmem m'.config m'.nextId
  rw [show (r, m'.vectorOf r).1.id = id from hid] at hslot
  exact ⟨_, _, rfl, hslot, reparsed_of_fits hfit⟩

/-! ## Giving a record its deadline -/

theorem inTimeRange_of_fits {x : Int} (h0 : 0 ≤ x) (hmax : x / 1000000 ≤ i64Max) :
    inTimeRange x = true := by
  unfold inTimeRange i64Min
  unfold i64Max at hmax ⊢
  rw [decide_eq_true_eq]
  omega

theorem keyed_insert (hkeyed : m.Keyed) {r : MemoryRecord} (hid : r.id = id) :
    (m.withRecord id r).Keyed := by
  intro id' r' hr'
  have hl : (m.records.insert id r).lookup id' = some r' := hr'
  rw [Assoc.lookup_insert_eq] at hl
  split at hl
  · cases hl
    rw [hid]
    exact (‹id' = id›).symm
  · exact hkeyed id' r' hl

/-- An addition with a deadline that fits. -/
theorem add_keeps (hkeyed : m.Keyed) {request : AddRequest} {seconds : Nat}
    (httl : request.ttl = some (fromSecs seconds))
    (hfit : MillisFit (some (e.clock w.ticks + (fromSecs seconds : Nat)))) (maxTerms maxRecords : Nat) :
    Act.Sat (add request maxTerms maxRecords) e m w
      (fun r m' _ => ∀ id, r = .ok id →
        m'.DeadlineKept id (some (e.clock w.ticks + (fromSecs seconds : Nat))))
      (· ≠ .overflow) := by
  obtain ⟨h0, hmax⟩ := hfit _ rfl
  have hkeyed' : (m.numbered request).Keyed := by
    rw [numbered_eq]
    exact hkeyed
  refine sat_add (fun error _ id h => by cases h) fun _ => sat_addChecked ?_ ?_
  · intro ttl h hrange
    cases httl.symm.trans h
    rw [inTimeRange_of_fits h0 hmax] at hrange
    cases hrange
  · refine Act.sat_mono (Act.sat_and (placeVector_vector _ request.vector)
      (placeVector_panics _ request.vector)) ?_ (fun _ h => h.2)
    rintro r' m' w' ⟨⟨hr, hm, -, -⟩, -⟩ id hid
    cases hid
    obtain ⟨hid, -⟩ := addedRecord_same hkeyed' request (m.addedId request) (e.clock w.ticks)
    have hshape : r'.id = m.addedId request ∧
        r'.expireAt = some (e.clock w.ticks + (fromSecs seconds : Nat)) := by
      rw [hr]
      unfold added
      rw [httl]
      exact ⟨hid, rfl⟩
    have hfiled : ((m'.filed (m.addedId request)
        (((m.numbered request).records.lookup (m.addedId request)).map MemoryRecord.text) r' maxTerms).Keyed) := by
      have hkept := keyed_insert hkeyed' hshape.1
      rw [hm]
      exact hkept
    exact deadlineKept_of_fits hfiled (AList.lookup_insert _) hshape.2 hfit

/-- A change of a deadline to one that fits. -/
theorem setRecordTtl_keeps (hkeyed : m.Keyed) (id : Bytes) (ttl : Option Duration)
    (hfit : MillisFit (deadlineOf (e.clock w.ticks) ttl)) :
    Act.Sat (setRecordTtl id ttl) e m w
      (fun r m' _ => r = .ok () → m'.DeadlineKept id (deadlineOf (e.clock w.ticks) ttl))
      (· ≠ .overflow) := by
  refine sat_onLive (fun _ h => by cases h) fun r hr => ?_
  have hid : r.id = id := hkeyed id r (liveRecord_some hr).1
  cases ttl with
  | none =>
    intro _
    exact deadlineKept_of_fits (keyed_insert hkeyed hid) (AList.lookup_insert _) rfl hfit
  | some ttl =>
    obtain ⟨h0, hmax⟩ := hfit _ rfl
    have hrange : inTimeRange (e.clock w.ticks + (ttl : Int)) = true := inTimeRange_of_fits h0 hmax
    simp only [addDuration, hrange, if_true, Act.sat_bind, Act.sat_pure]
    intro _
    exact deadlineKept_of_fits (keyed_insert hkeyed hid) (AList.lookup_insert _) rfl hfit

/-- An index with one record, `d`, that has no deadline. -/
def openIndex : Memory :=
  { new (MemoryConfig.new .search 0 .cosine) with
    records := (∅ : Assoc Bytes MemoryRecord).insert [100] (MemoryRecord.new [100] [] 0) }

theorem openIndex_lookup {id : Bytes} {r : MemoryRecord} (h : openIndex.records.lookup id = some r) :
    id = [100] ∧ r = MemoryRecord.new [100] [] 0 := by
  have hmem : (id, r) ∈ openIndex.records.pairs := Assoc.mem_pairs.mpr h
  rw [show openIndex.records.pairs = [([100], MemoryRecord.new [100] [] 0)] from rfl,
    List.mem_singleton] at hmem
  exact Prod.mk.inj hmem

theorem openIndex_keyed : openIndex.Keyed := by
  intro id r hr
  obtain ⟨rfl, rfl⟩ := openIndex_lookup hr
  rfl

/-- A time to live that is exact has a deadline that fits. -/
theorem fits_of_ttlExact {seconds : Nat} (h : TtlExact (e.clock w.ticks) seconds) :
    MillisFit (deadlineOf (e.clock w.ticks) (ttlOf seconds)) := by
  unfold ttlOf
  by_cases hzero : seconds = 0
  · rw [if_pos hzero]
    rintro x ⟨⟩
  · rw [if_neg hzero]
    have hkept := h.expired e openIndex w rfl openIndex_keyed [100]
    unfold ttlOf at hkept
    rw [if_neg hzero] at hkept
    unfold setRecordTtl onLive at hkept
    have hlive : openIndex.liveRecord [100] (e.clock w.ticks) = some (MemoryRecord.new [100] [] 0) := rfl
    simp only [Act.sat_bind, sat_now, Act.sat_get, hlive, addDuration, Act.sat_ite, Act.sat_pure,
      Act.sat_panic, Act.sat_modify] at hkept
    have hpos : 0 < fromSecs seconds := Nat.mul_pos (by omega) (by decide)
    have hdeadline : 0 < e.clock w.ticks + (fromSecs seconds : Nat) :=
      Int.add_pos_of_nonneg_of_pos (e.epoch _) (by exact_mod_cast hpos)
    by_cases hrange : inTimeRange (e.clock w.ticks + (fromSecs seconds : Nat)) = true
    · exact fits_of_reported hdeadline (hkept.1 hrange trivial)
    · exact absurd rfl (hkept.2 hrange)

/-- **When the deadline of a record is exact.**  The deadline that a time to live of `seconds` gives
a record at a moment is computed, reported and saved faithfully exactly when its milliseconds fit an
`i64`. -/
theorem ttlExact_iff (e : Env) (w : World) (seconds : Nat) : TtlExact (e.clock w.ticks) seconds ↔
    MillisFit (deadlineOf (e.clock w.ticks) (ttlOf seconds)) := by
  refine ⟨fits_of_ttlExact, fun hfit => ⟨?_, ?_⟩⟩
  · intro hone e' m w' hclock hkeyed request maxTerms maxRecords httl
    unfold ttlOf at hfit
    rw [if_neg (by omega)] at hfit
    rw [← hclock] at hfit ⊢
    exact add_keeps hkeyed httl hfit maxTerms maxRecords
  · intro e' m w' hclock hkeyed id
    rw [← hclock] at hfit ⊢
    exact setRecordTtl_keeps hkeyed id (ttlOf seconds) hfit

/-- At the epoch the longest time to live is accepted, and its milliseconds are cut off. -/
theorem not_ttlExact : ¬ ∀ (e : Env) (w : World) (seconds : Nat), (seconds : Int) ≤ i64Max →
    TtlExact (e.clock w.ticks) seconds := by
  intro h
  have hexact : TtlExact ((stillEnv 0).clock ({} : World).ticks) 9223372036854775807 :=
    h (stillEnv 0) {} _ (by decide)
  have hfit := fits_of_ttlExact hexact
  have hdeadline : deadlineOf ((stillEnv 0).clock ({} : World).ticks) (ttlOf 9223372036854775807) =
      some 9223372036854775807000000000 := by
    decide +kernel
  obtain ⟨-, hmax⟩ := hfit _ hdeadline
  exact absurd hmax (by decide +kernel)

end Memory

end Klyro
