import Klyro.Persist.Basic
import Klyro.Store.Spec

/-!
# What a save writes

`save_inner` lists the live keys once and then looks at each of them again: its time to live is
read at one, two or three readings of the clock, its value at another.  The records it writes are
a function of the entries that were live at the start and of those readings.

* `recordAt`, `Store.records` — that function.
* `recordOf_spec` — one key.
* `saveInner_spec` — a save that succeeds leaves `dumpBytes` of the records at its path, one that
  fails leaves the file at its path as it was.
-/

set_option autoImplicit false

namespace Klyro

open Store Keyspace

/-! ## The records, from the readings of the clock -/

/-- The records of an index that a dump holds, from two readings of the clock. -/
def Memory.dumpAt (m : Memory) (t t' : SystemTime) : List (MemoryRecord × Option (List F32)) :=
  (((sortBy cmpBytes (m.liveIds t')).filterMap fun id => m.records.lookup id).filter fun r =>
    r.isLive t).map fun r => (r, m.vectorOf r)

/-- What a record says about a value; a memory index reads the clock twice. -/
def Value.payload (t t' : SystemTime) : Value → Payload
  | .str s => .str s
  | .list l => .list l
  | .hash h => .hash h.pairs
  | .set s => .set (s.pairs.map Prod.fst)
  | .zset z => .zset z.entries
  | .memory m => .memory m.config m.nextId (m.dumpAt t t')

/-- How often writing a value reads the clock. -/
def Value.readings : Value → Nat
  | .memory _ => 2
  | _ => 0

/-- The deadline `d` in the dump: the time left at `t`, added to the time `t'`. -/
def dumpDeadline (d t t' : SystemTime) : Int :=
  if millisLeft d t < 0 then -1 else wrapI64 (unixMillis t' + millisLeft d t)

/-- How often the time to live of a key reads the clock, from reading `i` on. -/
def expiryReadings (c : Nat → SystemTime) (i : Nat) : Option SystemTime → Nat
  | none => 1
  | some d => if c i < d then (if millisLeft d (c (i + 1)) < 0 then 2 else 3) else 1

/-- The deadline written for a key, from reading `i` on. -/
def expiryAt (c : Nat → SystemTime) (i : Nat) : Option SystemTime → Int
  | none => -1
  | some d => if c i < d then dumpDeadline d (c (i + 1)) (c (i + 2)) else -1

/-- Whether the value of a key is still there when it is read. -/
def foundAt (c : Nat → SystemTime) (i : Nat) : Option SystemTime → Bool
  | none => true
  | some d => decide (c i < d) && decide (c (i + expiryReadings c i (some d)) < d)

/-- A key with its value and its deadline. -/
abbrev LiveKey := Bytes × Value × Option SystemTime

/-- The record written for a key that is looked at from reading `i` on. -/
def recordAt (c : Nat → SystemTime) (i : Nat) (x : LiveKey) : Option Record :=
  let j := i + expiryReadings c i x.2.2
  if foundAt c i x.2.2 then some ⟨x.1, expiryAt c i x.2.2, x.2.1.payload (c (j + 1)) (c (j + 2))⟩
  else if x.2.1.typeOf = .string then some ⟨x.1, expiryAt c i x.2.2, .str []⟩
  else none

/-- How often a key reads the clock, from reading `i` on. -/
def recordReadings (c : Nat → SystemTime) (i : Nat) (x : LiveKey) : Nat :=
  expiryReadings c i x.2.2 + 1 + if foundAt c i x.2.2 then x.2.1.readings else 0

/-- The records written for a list of keys. -/
def recordsAt (c : Nat → SystemTime) : Nat → List LiveKey → List Record
  | _, [] => []
  | i, x :: xs => (recordAt c i x).toList ++ recordsAt c (i + recordReadings c i x) xs

/-- The keys live at `t`. -/
def Store.liveKeys (s : Store) (t : SystemTime) : List LiveKey :=
  (s.liveEntries t).map fun p => (p.1, p.2.value, p.2.expireAt)

/-- The records a save writes, from reading `i` of the clock on. -/
def Store.records (s : Store) (c : Nat → SystemTime) (i : Nat) : List Record :=
  recordsAt c (i + 1) (s.liveKeys (c i))

/-- The magic line. -/
def magicBytes : Bytes := (Piece.line (Text.bytes dumpMagic)).bytes

/-- A dump of records. -/
def dumpBytes (rs : List Record) : Bytes := magicBytes ++ rs.flatMap Record.bytes

/-! ## One key -/

section one

variable {e : Env} {s : Store} {w : World}

theorem expireAtOf_spec {σ : Type} {t : σ} (ttl : Int) :
    Act.Sat (expireAtOf ttl) e t w
      (fun r t' w' => t' = t ∧ (if ttl < 0 then r = -1 ∧ Later 0 w w'
        else r = wrapI64 (unixMillis (e.clock w.ticks) + ttl) ∧ Later 1 w w'))
      (fun _ => False) := by
  unfold expireAtOf unixMillisNow
  simp only [Act.sat_ite, Act.sat_pure, Act.sat_bind, sat_now]
  refine ⟨fun h => ?_, fun h => ?_⟩
  · rw [if_pos h]
    exact ⟨trivial, trivial, .refl _⟩
  · rw [if_neg h]
    exact ⟨trivial, trivial, .tick _⟩

theorem liveAt_eq {K : Keyspace} {t : SystemTime} {key : Bytes} {v : Value} {d : Option SystemTime}
    (h : K key = some (v, d)) (hd : ∀ x, d = some x → t < x) : K.liveAt t key = some (v, d) := by
  unfold liveAt
  rw [h]
  cases d with
  | none => rfl
  | some x => simp [due, not_le.mpr (hd x rfl)]

theorem liveAt_due {K : Keyspace} {t : SystemTime} {key : Bytes} {v : Value} {x : SystemTime}
    (h : K key = some (v, some x)) (hd : x ≤ t) : K.liveAt t key = none := by
  unfold liveAt
  rw [h]
  simp [due, hd]

theorem liveAt_none {K : Keyspace} {t : SystemTime} {key : Bytes} (h : K key = none) :
    K.liveAt t key = none := by
  simp [liveAt, h, due]

/-- The time to live and the deadline of a key, up to the reading of its value. -/
theorem expiry_spec {key : Bytes} {v : Value} {d : Option SystemTime}
    (hkey : s.view key = some (v, d)) :
    Act.Sat (do let ttl ← pttlMs key; expireAtOf ttl) e s w
      (fun r s' w' => r = expiryAt e.clock w.ticks d ∧
        Later (expiryReadings e.clock w.ticks d) w w' ∧
        s'.view = s.view.expire (e.clock w.ticks) key ∧ (Indexed s → Indexed s'))
      (OutOfRange s) := by
  rw [Act.sat_bind]
  refine Act.sat_mono (pttlMs_spec key) ?_ (fun _ h => h)
  rintro ttl s₁ w₁ ⟨hview, hidx, httl⟩
  refine Act.sat_mono (expireAtOf_spec ttl) ?_ (fun _ h => h.elim)
  rintro r s₂ w₂ ⟨rfl, hr⟩
  cases d with
  | none =>
    rw [liveAt_eq hkey (by simp)] at httl
    rw [if_pos (by omega)] at hr
    exact ⟨hr.1, httl.2.trans hr.2, hview, hidx⟩
  | some x =>
    by_cases hx : e.clock w.ticks < x
    · rw [liveAt_eq hkey (by simpa using hx)] at httl
      obtain ⟨rfl, hw⟩ := httl
      simp only [expiryAt, expiryReadings, dumpDeadline, hx, if_true]
      by_cases hneg : millisLeft x (e.clock (w.ticks + 1)) < 0
      · rw [if_pos hneg] at hr ⊢
        rw [if_pos hneg]
        exact ⟨hr.1, hw.trans hr.2, hview, hidx⟩
      · rw [if_neg hneg, hw.ticks] at hr
        rw [if_neg hneg, if_neg hneg]
        exact ⟨hr.1, hw.trans hr.2, hview, hidx⟩
    · rw [liveAt_due hkey (not_lt.mp hx)] at httl
      rw [if_pos (by omega)] at hr
      simp only [expiryAt, expiryReadings, hx, if_false]
      exact ⟨hr.1, httl.2.trans hr.2, hview, hidx⟩

theorem recordsForDump_spec {m : Memory} :
    Act.Sat Memory.recordsForDump e m w
      (fun r m' w' => r = m.dumpAt (e.clock w.ticks) (e.clock (w.ticks + 1)) ∧ m' = m ∧ Later 2 w w')
      (fun _ => False) := by
  unfold Memory.recordsForDump Memory.sortedIds
  simp only [Act.sat_bind, sat_now, Act.sat_get, Act.sat_pure]
  exact ⟨rfl, trivial, rfl, rfl, rfl⟩

/-- What the lookup of a value leaves: no other key is touched. -/
structure Looked (e : Env) (key : Bytes) (n : Nat) (s : Store) (w : World) (s' : Store) (w' : World) :
    Prop where
  later : Later n w w'
  others : ∀ k, k ≠ key → s'.view k = s.view k
  indexed : Indexed s → Indexed s'

theorem read_looked {τ : Type} (V : Variant τ) (key : Bytes) :
    Act.Sat (Store.read V key) e s w
      (fun r s' w' => r = ((s.view.liveAt (e.clock w.ticks) key).bind fun p => V.unwrap p.1) ∧
        Looked e key 1 s w s' w') (OutOfRange s) := by
  refine sat_read (fun _ h => h) ?_
  intro s' w' hw hview hidx
  exact ⟨rfl, hw, fun k hk => by rw [hview, expire_of_ne hk], hidx⟩

theorem getString_looked (key : Bytes) :
    Act.Sat (getString key) e s w
      (fun r s' w' => r = ((s.view.liveAt (e.clock w.ticks) key).bind fun p => match p.1 with
          | .str x => some x
          | _ => none) ∧
        Looked e key 1 s w s' w') (OutOfRange s) := by
  unfold getString
  simp only [Act.sat_bind]
  refine sat_find (fun _ h => h) ?_ ?_
  · intro s' w' hw hlive hview hidx
    rw [Act.sat_pure, hlive]
    exact ⟨rfl, hw, fun k hk => by rw [hview, expire_of_ne hk], hidx⟩
  · intro entry s' w' hw hlive hview hidx _
    rw [Act.sat_pure, hlive]
    exact ⟨by cases h : entry.value <;> simp [h], hw, fun k hk => by rw [hview, expire_of_ne hk], hidx⟩

/-- A value that is found is written as it is. -/
theorem payloadOf_found {key : Bytes} {v : Value} {d : Option SystemTime}
    (hlive : s.view.liveAt (e.clock w.ticks) key = some (v, d)) :
    Act.Sat (payloadOf key v.typeOf) e s w
      (fun r s' w' => r = some (v.payload (e.clock (w.ticks + 1)) (e.clock (w.ticks + 2))) ∧
        Looked e key (1 + v.readings) s w s' w') (OutOfRange s) := by
  cases v with
  | str x =>
    refine Act.sat_bind.mpr (Act.sat_mono (getString_looked key) ?_ fun _ h => h)
    rintro r s' w' ⟨rfl, hs⟩
    rw [hlive]
    exact ⟨rfl, hs⟩
  | list x =>
    refine Act.sat_bind.mpr (Act.sat_mono (read_looked .list key) ?_ fun _ h => h)
    rintro r s' w' ⟨rfl, hs⟩
    rw [hlive]
    exact ⟨rfl, hs⟩
  | hash x =>
    refine Act.sat_bind.mpr (Act.sat_mono (read_looked .hash key) ?_ fun _ h => h)
    rintro r s' w' ⟨rfl, hs⟩
    rw [hlive]
    exact ⟨rfl, hs⟩
  | set x =>
    refine Act.sat_bind.mpr (Act.sat_mono (read_looked .set key) ?_ fun _ h => h)
    rintro r s' w' ⟨rfl, hs⟩
    rw [hlive]
    exact ⟨rfl, hs⟩
  | zset x =>
    refine Act.sat_bind.mpr (Act.sat_mono (read_looked .zset key) ?_ fun _ h => h)
    rintro r s' w' ⟨rfl, hs⟩
    rw [hlive]
    exact ⟨rfl, hs⟩
  | memory m =>
    refine sat_existingMemory (fun _ h => h) ?_ ?_
    · intro s' w' _ hno
      exact absurd hlive (hno m d)
    · intro m' d' s' w' hw hm hview hidx
      rw [hlive, Option.some.injEq, Prod.mk.injEq] at hm
      obtain ⟨hm, rfl⟩ := hm
      cases hm
      rw [Act.sat_bind]
      refine Act.sat_mono recordsForDump_spec ?_ (fun _ h => h.elim)
      rintro r m' w'' ⟨rfl, rfl, hw'⟩
      rw [Act.sat_bind, Act.sat_get, Act.sat_pure]
      refine ⟨?_, hw.trans hw', fun k hk => ?_, fun h => (hidx h).setValue⟩
      · rw [hw.ticks]
        rfl
      · rw [view_setValue, Function.update_of_ne hk, hview, expire_of_ne hk]

/-- A string that has gone is written as an empty one, any other value is not written. -/
theorem payloadOf_gone {key : Bytes} (ty : StoreType)
    (hlive : s.view.liveAt (e.clock w.ticks) key = none) :
    Act.Sat (payloadOf key ty) e s w
      (fun r s' w' => r = (if ty = .string then some (.str []) else none) ∧
        Looked e key 1 s w s' w') (OutOfRange s) := by
  cases ty with
  | string =>
    refine Act.sat_bind.mpr (Act.sat_mono (getString_looked key) ?_ fun _ h => h)
    rintro r s' w' ⟨rfl, hs⟩
    rw [hlive]
    exact ⟨rfl, hs⟩
  | list =>
    refine Act.sat_bind.mpr (Act.sat_mono (read_looked .list key) ?_ fun _ h => h)
    rintro r s' w' ⟨rfl, hs⟩
    rw [hlive]
    exact ⟨rfl, hs⟩
  | hash =>
    refine Act.sat_bind.mpr (Act.sat_mono (read_looked .hash key) ?_ fun _ h => h)
    rintro r s' w' ⟨rfl, hs⟩
    rw [hlive]
    exact ⟨rfl, hs⟩
  | set =>
    refine Act.sat_bind.mpr (Act.sat_mono (read_looked .set key) ?_ fun _ h => h)
    rintro r s' w' ⟨rfl, hs⟩
    rw [hlive]
    exact ⟨rfl, hs⟩
  | zset =>
    refine Act.sat_bind.mpr (Act.sat_mono (read_looked .zset key) ?_ fun _ h => h)
    rintro r s' w' ⟨rfl, hs⟩
    rw [hlive]
    exact ⟨rfl, hs⟩
  | memory =>
    refine sat_existingMemory (fun _ h => h) ?_ ?_
    · intro s' w' hw _ hview hidx
      exact ⟨rfl, hw, fun k hk => by rw [hview, expire_of_ne hk], hidx⟩
    · intro m' d' s' w' _ hm
      rw [hlive] at hm
      cases hm

/-- **The record of a key** is the one its value, its deadline and the readings of the clock give. -/
theorem recordOf_spec {key : Bytes} {v : Value} {d : Option SystemTime}
    (hkey : s.view key = some (v, d)) :
    Act.Sat (recordOf key v.typeOf) e s w
      (fun r s' w' => r = recordAt e.clock w.ticks (key, v, d) ∧
        Looked e key (recordReadings e.clock w.ticks (key, v, d)) s w s' w') (OutOfRange s) := by
  unfold recordOf
  have h := expiry_spec (e := e) (w := w) hkey
  rw [Act.sat_bind] at h ⊢
  refine Act.sat_mono h ?_ (fun _ h => h)
  intro ttl s₀ w₀ h₀
  rw [Act.sat_bind]
  refine Act.sat_mono h₀ ?_ (fun _ h => h)
  rintro expireAt s₁ w₁ ⟨rfl, hw₁, hview₁, hidx₁⟩
  have hothers : ∀ k, k ≠ key → s₁.view k = s.view k := by
    intro k hk
    rw [hview₁, expire_of_ne hk]
  have hself : s₁.view key = s.view.liveAt (e.clock w.ticks) key := by rw [hview₁, expire_self]
  rw [Act.sat_bind]
  by_cases hfound : foundAt e.clock w.ticks d = true
  · have hlive : s₁.view.liveAt (e.clock w₁.ticks) key = some (v, d) := by
      have h₁ : s₁.view key = some (v, d) := by
        rw [hself]
        refine liveAt_eq hkey ?_
        rintro x rfl
        simp only [foundAt, Bool.and_eq_true, decide_eq_true_eq] at hfound
        exact hfound.1
      refine liveAt_eq h₁ ?_
      rintro x rfl
      simp only [foundAt, Bool.and_eq_true, decide_eq_true_eq] at hfound
      rw [hw₁.ticks]
      exact hfound.2
    refine Act.sat_mono (payloadOf_found hlive) ?_ (fun _ h => h.of_indexed hidx₁)
    rintro r s₂ w₂ ⟨rfl, hs₂⟩
    rw [Act.sat_pure]
    refine ⟨?_, ?_, fun k hk => (hs₂.others k hk).trans (hothers k hk), fun h => hs₂.indexed (hidx₁ h)⟩
    · simp only [recordAt, hfound, if_true, Option.map_some, hw₁.ticks]
    · simp only [recordReadings, hfound, if_true, Nat.add_assoc]
      exact hw₁.trans hs₂.later
  · have hlive : s₁.view.liveAt (e.clock w₁.ticks) key = none := by
      cases d with
      | none => exact absurd rfl hfound
      | some x =>
        simp only [foundAt, Bool.and_eq_true, decide_eq_true_eq, not_and] at hfound
        by_cases hx : e.clock w.ticks < x
        · rw [liveAt_eq hkey (by simpa using hx)] at hself
          refine liveAt_due hself ?_
          rw [hw₁.ticks]
          exact not_lt.mp (hfound hx)
        · rw [liveAt_due hkey (not_lt.mp hx)] at hself
          exact liveAt_none hself
    refine Act.sat_mono (payloadOf_gone v.typeOf hlive) ?_ (fun _ h => h.of_indexed hidx₁)
    rintro r s₂ w₂ ⟨rfl, hs₂⟩
    rw [Act.sat_pure]
    refine ⟨?_, ?_, fun k hk => (hs₂.others k hk).trans (hothers k hk), fun h => hs₂.indexed (hidx₁ h)⟩
    · simp only [recordAt, hfound, Bool.false_eq_true, if_false]
      split <;> rfl
    · simp only [recordReadings, hfound, Bool.false_eq_true, if_false, Nat.add_zero]
      exact hw₁.trans hs₂.later

end one

/-! ## The whole pass -/

section pass

variable {e : Env} {w : World} {R : Panic → Prop}

/-- While a file is written: what it holds so far, and the other files as they were. -/
structure Writing (tmp : String) (F : String → Option Bytes) (content : Bytes) (w : World) : Prop where
  file : w.files.lookup tmp = some content
  others : ∀ p, p ≠ tmp → w.files.lookup p = F p

/-- A save that the disk failed on the way: only the temporary file may have changed. -/
structure GivenUp (e : Env) (tmp : String) (F : String → Option Bytes) (w : World) : Prop where
  disk : ∃ i, e.disk i = false
  others : ∀ p, p ≠ tmp → w.files.lookup p = F p

theorem sat_fileOp {σ : Type} {s : σ} {f : Assoc String Bytes → Assoc String Bytes}
    {Q : Unit → σ → World → Prop} {E : IoError → σ → World → Prop}
    (hQ : ∀ w', w'.ticks = w.ticks → w'.files = f w.files → Q () s w')
    (hE : ∀ w', (∃ i, e.disk i = false) → w'.files = w.files → E .failed s w') :
    Act.SatE (fileOp f) e s w Q E R := by
  unfold fileOp
  simp only [Act.satE_bind, Act.satE_lift, sat_diskOk, Act.satE_ite, Act.satE_throw]
  exact ⟨fun _ => hQ _ rfl rfl, fun h => hE _ ⟨_, eq_false_of_ne_true h⟩ rfl⟩

theorem sat_appendTo {σ : Type} {s : σ} {tmp : String} {F : String → Option Bytes}
    {content bytes : Bytes} {Q : Unit → σ → World → Prop} {E : IoError → σ → World → Prop}
    (h : Writing tmp F content w)
    (hQ : ∀ w', w'.ticks = w.ticks → Writing tmp F (content ++ bytes) w' → Q () s w')
    (hE : ∀ w', GivenUp e tmp F w' → E .failed s w') :
    Act.SatE (appendTo tmp bytes) e s w Q E R := by
  refine sat_fileOp (fun w' ht hf => hQ w' ht ⟨?_, fun p hp => ?_⟩)
    fun w' hd hf => hE w' ⟨hd, fun p hp => ?_⟩
  · rw [hf, AList.lookup_insert, h.file, Option.getD_some]
  · rw [hf, AList.lookup_insert_ne hp, h.others p hp]
  · rw [hf, h.others p hp]

theorem sat_writePieces {σ : Type} {s : σ} {tmp : String} {F : String → Option Bytes} :
    ∀ {ps : List Piece} {w : World} {content : Bytes} {Q : Unit → σ → World → Prop}
      {E : IoError → σ → World → Prop}, Writing tmp F content w →
      (∀ w', w'.ticks = w.ticks → Writing tmp F (content ++ ps.flatMap Piece.bytes) w' → Q () s w') →
      (∀ w', GivenUp e tmp F w' → E .failed s w') → Act.SatE (writePieces tmp ps) e s w Q E R
  | [], w, content, Q, E, h, hQ, _ => hQ w rfl (by simpa using h)
  | p :: ps, w, content, Q, E, h, hQ, hE => by
    unfold writePieces
    rw [Act.satE_bind]
    refine sat_appendTo h (fun w₁ ht₁ h₁ => ?_) hE
    refine sat_writePieces h₁ (fun w₂ ht₂ h₂ => hQ w₂ (ht₂.trans ht₁) ?_) hE
    rwa [List.flatMap_cons, ← List.append_assoc]

/-- The loop of `save_inner` writes the records of the keys it is given. -/
theorem saveEntries_spec {tmp : String} {F : String → Option Bytes} :
    ∀ {xs : List LiveKey} {s : Store} {w : World} {content : Bytes},
      (xs.map Prod.fst).Nodup → (∀ x ∈ xs, s.view x.1 = some x.2) → Writing tmp F content w →
      Act.SatE (saveEntries tmp (xs.map fun x => (x.1, x.2.1.typeOf))) e s w
        (fun _ s' w' =>
          Writing tmp F (content ++ (recordsAt e.clock w.ticks xs).flatMap Record.bytes) w' ∧
          (Indexed s → Indexed s'))
        (fun _ _ w' => GivenUp e tmp F w') (OutOfRange s)
  | [], s, w, content, _, _, h => ⟨by simpa [recordsAt] using h, id⟩
  | (key, v, d) :: xs, s, w, content, hn, hx, h => by
    rw [List.map_cons, List.nodup_cons] at hn
    rw [List.map_cons, saveEntries]
    simp only [Act.satE_bind, Act.satE_lift]
    refine Act.sat_mono (recordOf_spec (hx (key, v, d) (by simp))) ?_ (fun _ h => h)
    rintro r s₁ w₁ ⟨rfl, hs₁⟩
    have hx₁ : ∀ x ∈ xs, s₁.view x.1 = some x.2 := by
      intro x hm
      have hk : x.1 ≠ key := by
        intro hk
        exact hn.1 (List.mem_map.mpr ⟨x, hm, hk⟩)
      rw [hs₁.others x.1 hk]
      exact hx x (List.mem_cons_of_mem _ hm)
    have h₁ : Writing tmp F content w₁ := by
      refine ⟨?_, fun p hp => ?_⟩
      · rw [hs₁.later.files, h.file]
      · rw [hs₁.later.files, h.others p hp]
    rw [recordsAt, List.flatMap_append, ← List.append_assoc, ← hs₁.later.ticks]
    have hrest : ∀ w₂, w₂.ticks = w₁.ticks → Writing tmp F
        (content ++ ((recordAt e.clock w.ticks (key, v, d)).toList).flatMap Record.bytes) w₂ →
        Act.SatE (saveEntries tmp (xs.map fun x => (x.1, x.2.1.typeOf))) e s₁ w₂
          (fun _ s' w' => Writing tmp F
            ((content ++ ((recordAt e.clock w.ticks (key, v, d)).toList).flatMap Record.bytes) ++
              (recordsAt e.clock w₁.ticks xs).flatMap Record.bytes) w' ∧ (Indexed s → Indexed s'))
          (fun _ _ w' => GivenUp e tmp F w') (OutOfRange s) := by
      intro w₂ ht₂ h₂
      refine Act.satE_mono (saveEntries_spec hn.2 hx₁ h₂) ?_ (fun _ _ _ h => h)
        (fun _ h => h.of_indexed hs₁.indexed)
      rintro _ s₃ w₃ ⟨h₃, hidx₃⟩
      rw [ht₂] at h₃
      exact ⟨h₃, fun h => hidx₃ (hs₁.indexed h)⟩
    cases hr : recordAt e.clock w.ticks (key, v, d) with
    | none =>
      rw [hr] at hrest
      exact hrest w₁ rfl (by simpa using h₁)
    | some r =>
      rw [hr] at hrest
      dsimp only
      rw [Act.satE_bind]
      refine sat_writePieces h₁ ?_ ?_
      · intro w₂ ht₂ h₂
        exact hrest w₂ ht₂ (by simpa [Record.bytes] using h₂)
      · exact fun _ h => h

theorem liveKeys_view {s : Store} {t : SystemTime} {x : LiveKey} (h : x ∈ s.liveKeys t) :
    s.view x.1 = some x.2 := by
  unfold Store.liveKeys Store.liveEntries at h
  obtain ⟨⟨k, entry⟩, hp, rfl⟩ := List.mem_map.mp h
  have hlook := Assoc.mem_pairs.mp (List.mem_filter.mp hp).1
  simp [Store.view, hlook]

theorem liveKeys_nodup (s : Store) (t : SystemTime) : ((s.liveKeys t).map Prod.fst).Nodup := by
  unfold Store.liveKeys Store.liveEntries
  rw [List.map_map]
  exact s.map.nodup_pairs_fst.sublist (List.filter_sublist.map _)

theorem tmpPath_ne (path : String) : path ≠ tmpPath path := by
  intro h
  have := congrArg String.length h
  unfold tmpPath at this
  rw [String.length_append] at this
  have h4 : ".tmp".length = 4 := rfl
  omega

/-- **What a save leaves in the file system**: the dump of its records when it succeeds, the old
dump when it fails. -/
theorem saveInner_spec {s : Store} (path : String) :
    Act.SatE (saveInner path) e s w
      (fun _ s' w' => w'.files.lookup path = some (dumpBytes (s.records e.clock w.ticks)) ∧
        (∀ p, p ≠ path → p ≠ tmpPath path → w'.files.lookup p = w.files.lookup p) ∧
        (Indexed s → Indexed s'))
      (fun _ _ w' => (∃ i, e.disk i = false) ∧ w'.files.lookup path = w.files.lookup path)
      (OutOfRange s) := by
  have hne := tmpPath_ne path
  have hgiven : ∀ w', GivenUp e (tmpPath path) (fun p => w.files.lookup p) w' →
      (∃ i, e.disk i = false) ∧ w'.files.lookup path = w.files.lookup path :=
    fun w' h => ⟨h.disk, h.others path hne⟩
  unfold saveInner
  simp only [Act.satE_bind]
  refine sat_fileOp (fun w₁ ht₁ hf₁ => ?_) fun w' hd hf => ⟨hd, by rw [hf]⟩
  have h₁ : Writing (tmpPath path) (fun p => w.files.lookup p) [] w₁ := by
    refine ⟨?_, fun p hp => ?_⟩
    · rw [hf₁, AList.lookup_insert]
    · rw [hf₁, AList.lookup_insert_ne hp]
  refine sat_appendTo h₁ (fun w₂ ht₂ h₂ => ?_) hgiven
  unfold foreachEntry
  simp only [Act.satE_lift, Act.sat_bind, sat_now, Act.sat_get, Act.sat_pure]
  have hticks : w₂.ticks = w.ticks := ht₂.trans ht₁
  rw [hticks]
  have hentries : ((s.liveEntries (e.clock w.ticks)).map fun p => (p.1, p.2.value.typeOf)) =
      (s.liveKeys (e.clock w.ticks)).map fun x => (x.1, x.2.1.typeOf) := by
    unfold Store.liveKeys
    rw [List.map_map]
    rfl
  rw [hentries]
  have hmagic : Writing (tmpPath path) (fun p => w.files.lookup p) magicBytes
      { w₂ with ticks := w.ticks + 1 } := ⟨h₂.file, h₂.others⟩
  refine Act.satE_mono (saveEntries_spec (liveKeys_nodup s _) (fun x hx => liveKeys_view hx) hmagic)
    ?_ (fun _ _ w' h => hgiven w' h) (fun _ h => h)
  rintro _ s₃ w₃ ⟨h₃, hidx₃⟩
  refine sat_fileOp (fun w₄ _ hf₄ => ?_) fun w' hd hf => ⟨hd, ?_⟩
  · refine sat_fileOp (fun w₅ _ hf₅ => ?_) fun w' hd hf => ⟨hd, ?_⟩
    · have hlook : w₄.files.lookup (tmpPath path) = some (dumpBytes (s.records e.clock w.ticks)) := by
        rw [hf₄]
        exact h₃.file
      refine ⟨?_, fun p hp hp' => ?_, fun h => (hidx₃ h).congr rfl rfl rfl⟩
      · rw [hf₅, renameFile, hlook]
        exact AList.lookup_insert _
      · rw [hf₅, renameFile, hlook]
        dsimp only
        rw [AList.lookup_insert_ne hp, AList.lookup_erase_ne hp', hf₄]
        exact h₃.others p hp'
    · rw [hf, hf₄]
      exact h₃.others path hne
  · rw [hf]
    exact h₃.others path hne

end pass

end Klyro
