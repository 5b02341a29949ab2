import Klyro.Commands.Generic
import Klyro.Commands.Standing
import Klyro.Commands.Strings
import Klyro.Persist.Truncated

/-!
# Deadlines of keys

A client's 64-bit amount becomes a deadline, is reported as the milliseconds that are left, and is
saved as the sum of these and of the milliseconds since the epoch.

* `TtlForm` — the twelve forms of a command that gives a key a deadline.
* `KeyDeadlineKept` — a deadline is reported exactly and comes back from a dump.
* `TtlForm.gives` — what each form leaves at its key.
* `keyTtlExact_iff` — exactly the deadlines whose milliseconds fit an `i64` are kept.
-/

set_option autoImplicit false

namespace Klyro

open Store Keyspace

/-! ## The forms -/

/-- A command with its way of writing a time to live: in seconds or in milliseconds, from now or
from the epoch. -/
inductive TtlForm where
  /-- `EXPIRE`, `PEXPIRE`, `EXPIREAT`, `PEXPIREAT`. -/
  | expire (seconds absolute : Bool)
  /-- `SET` with `EX`, `PX`, `EXAT`, `PXAT`. -/
  | set (seconds absolute : Bool)
  /-- `SETEX`, `PSETEX`. -/
  | setex (seconds : Bool)
  /-- `GETEX` with `EX`, `PX`. -/
  | getex (seconds : Bool)
deriving DecidableEq

namespace TtlForm

/-- The name of the command. -/
def name : TtlForm → String
  | expire true false => "EXPIRE"
  | expire false false => "PEXPIRE"
  | expire true true => "EXPIREAT"
  | expire false true => "PEXPIREAT"
  | set _ _ => "SET"
  | setex true => "SETEX"
  | setex false => "PSETEX"
  | getex _ => "GETEX"

/-- The arms it is found among. -/
def arms (config : Config) : TtlForm → Arms
  | expire _ _ => Generic.arms config
  | _ => Strings.arms config

/-- The option in front of the amount. -/
def option : TtlForm → Option String
  | set true false | getex true => some "EX"
  | set false false | getex false => some "PX"
  | set true true => some "EXAT"
  | set false true => some "PXAT"
  | _ => none

/-- Where the amount stands. -/
def position : TtlForm → Nat
  | expire _ _ | setex _ => 2
  | set _ _ => 4
  | getex _ => 3

/-- How many words the command has. -/
def words : TtlForm → Nat
  | expire _ _ => 3
  | setex _ | getex _ => 4
  | set _ _ => 5

/-- Whether the amount counts seconds. -/
def seconds : TtlForm → Bool
  | expire s _ | set s _ | setex s | getex s => s

/-- Whether the amount counts from the epoch. -/
def absolute : TtlForm → Bool
  | expire _ a | set _ a => a
  | _ => false

/-- The milliseconds in one of the amount. -/
def unit (form : TtlForm) : Int := if form.seconds then 1000 else 1

/-- The amounts that are accepted. -/
def Accepts (form : TtlForm) (amount : Int) : Prop :=
  match form with
  | expire _ _ => True
  | _ => form.absolute = false → 0 < amount

/-- The amount in milliseconds. -/
def millis (form : TtlForm) (amount : Int) : Int := saturatingMul amount form.unit

/-- The deadline that an amount means at `t`. -/
def deadline (form : TtlForm) (amount : Int) (t : SystemTime) : SystemTime :=
  if form.absolute then max (form.millis amount) 0 * 1000000 else t + form.millis amount * 1000000

/-- An argument vector of the form, with an amount that it accepts. -/
structure Reads (form : TtlForm) (argv : List Bytes) (amount : Int) : Prop where
  length : argv.length = form.words
  spelled : ∀ o, form.option = some o → eqIgnoreCase (arg argv (form.position - 1)) o = true
  parsed : parseI64 (arg argv form.position) = some amount
  accepted : form.Accepts amount

/-- The value that the key has afterwards; without one, there is nothing to give a deadline to. -/
def value (form : TtlForm) (K : Keyspace) (argv : List Bytes) : Option Value :=
  match form with
  | expire _ _ => (K (arg argv 1)).map Prod.fst
  | set _ _ => some (.str (arg argv 2))
  | setex _ => some (.str (arg argv 3))
  | getex _ => ((K (arg argv 1)).map Prod.fst).filter fun v => v.typeOf = .string

end TtlForm

/-! ## The property -/

/-- A key with the deadline `d` reports exactly the milliseconds that are left, its record in a dump
is written without overflow, and a load at the same instant gives it a deadline that is not later
and at most two milliseconds earlier. -/
structure KeyDeadlineKept (d : SystemTime) : Prop where
  reported : ∀ (e : Env) (u : SystemTime) (s : Store) (w : World) (key : Bytes) (v : Value),
    e.StandsAt u → Indexed s → s.view key = some (v, some d) → u < d →
    Act.Sat (pttlMs key) e s w (fun left _ _ => left = (d - u) / 1000000) (fun _ => False)
  saved : ∀ (e : Env) (u : SystemTime) (s : Store) (w : World) (key : Bytes) (v : Value),
    e.StandsAt u → Indexed s → s.view key = some (v, some d) → u < d →
    Act.Sat (recordOf key v.typeOf) e s w
      (fun r _ _ => ∃ record, r = some record ∧
        record.expireAt = u / 1000000 + (d - u) / 1000000) (fun _ => False)
  reloaded : ∀ (e e' : Env) (u : SystemTime) (s : Store) (w : World) (key : Bytes) (v : Value),
    e.StandsAt u → e'.StandsAt u → Indexed s → s.Sized u → s.view key = some (v, some d) → u < d →
    ∀ (path : String) (started : Instant) (maxTerms : Nat),
    Act.SatE (saveInner path) e s w
      (fun _ _ w' => ∀ w₁ : World, w₁.files.lookup path = w'.files.lookup path →
        Act.Sat (Persist.load ⟨path, none⟩ maxTerms) e' { started := started } w₁
          (fun _ s' _ => ∃ d', d - 2 * nanosPerMilli ≤ d' ∧ d' ≤ d ∧
            s'.view key = shownAt u (((v.payload u u).loaded maxTerms).value, some d'))
          (fun _ => False))
      (fun _ _ _ => ∃ i, e.disk i = false) (fun _ => False)

/-- An amount that is accepted at `t` gives the key its deadline without overflow, and the deadline
is kept. -/
structure KeyTtlExact (config : Config) (form : TtlForm) (amount : Int) (t : SystemTime) : Prop where
  computed : ∀ (e : Env) (K : Keyspace) (argv : List Bytes) (v : Value), e.StandsAt t →
    form.Reads argv amount → form.value K argv = some v →
    ∃ reply, GivesE e t K ((form.arms config).run form.name argv) (.ok reply)
      (Function.update K (arg argv 1)
        (MapOp.pruned t (some (v, some (form.deadline amount t)))))
  kept : KeyDeadlineKept (form.deadline amount t)

/-! ## Deadlines that are kept -/

theorem standing_nonneg {e : Env} {t : SystemTime} (ht : e.StandsAt t) : 0 ≤ t := by
  rw [← ht 0]
  exact e.epoch 0

/-- A store with a string that has the deadline `d`. -/
theorem exists_withDeadline (d : SystemTime) :
    ∃ s : Store, Indexed s ∧ s.view [107] = some (.str [], some d) := by
  obtain ⟨-, s, w, -, -, hview, hidx⟩ := Act.exists_of_sat
    (Act.sat_mono (setString_spec (e := stillEnv 0) (w := {}) [107] []) (fun _ _ _ h => h)
      (fun p hp => hp.2 (indexed_new 0)))
  have hs := hidx (indexed_new 0)
  obtain ⟨-, s', -, -, -, -, hview', hidx'⟩ := Act.exists_of_sat
    (Act.sat_mono (setExpireAt_spec (e := stillEnv 0) (w := w) [107] (some d)) (fun _ _ _ h => h)
      (fun p hp => hp.2 hs))
  refine ⟨s', hidx' hs, ?_⟩
  rw [hview', Function.update_self, liveAt_eq (by rw [hview, Function.update_self]) (by simp)]
  rfl

theorem left_le {d u : Int} (h0 : 0 ≤ u) (hfit : d / 1000000 ≤ i64Max) :
    (d - u) / 1000000 ≤ i64Max := by
  omega

section kept

variable {e e' : Env} {s : Store} {w : World} {u d : SystemTime} {key : Bytes} {v : Value}

theorem expiryAt_standing (hu : e.StandsAt u) (hlt : u < d) (i : Nat) :
    expiryAt e.clock i (some d) = dumpDeadline d u u := by
  unfold expiryAt
  dsimp only
  rw [hu, hu, hu, if_pos hlt]

theorem recordOf_standing (hu : e.StandsAt u) (hs : Indexed s)
    (hkey : s.view key = some (v, some d)) (hlt : u < d) :
    Act.Sat (recordOf key v.typeOf) e s w
      (fun r _ _ => ∃ record, r = some record ∧ record.expireAt = dumpDeadline d u u)
      (fun _ => False) := by
  refine Act.sat_mono (recordOf_spec hkey) ?_ (fun p hp => hp.2 hs)
  rintro _ _ _ ⟨rfl, -⟩
  have hfound : foundAt e.clock w.ticks (some d) = true := by
    unfold foundAt
    simp [hu _, hlt]
  refine ⟨⟨key, expiryAt e.clock w.ticks (some d), _⟩, if_pos hfound, expiryAt_standing hu hlt _⟩

/-- A deadline whose milliseconds fit is reported as it is. -/
theorem pttlMs_exact (hu : e.StandsAt u) (hs : Indexed s) (hkey : s.view key = some (v, some d))
    (hlt : u < d) (hfit : d / 1000000 ≤ i64Max) :
    Act.Sat (pttlMs key) e s w (fun left _ _ => left = (d - u) / 1000000) (fun _ => False) := by
  refine Act.sat_mono (pttlMs_spec key) ?_ (fun p hp => hp.2 hs)
  rintro left _ _ ⟨-, -, hleft⟩
  have hlive : s.view.liveAt u key = some (v, some d) :=
    liveAt_eq hkey fun x hx => by cases hx; exact hlt
  rw [hu, hu, hlive] at hleft
  obtain ⟨rfl, -⟩ := hleft
  exact millisLeft_eq hlt (left_le (standing_nonneg hu) hfit)

/-- It comes back from a dump that is loaded at the instant of the save. -/
theorem reload_exact (hu : e.StandsAt u) (hu' : e'.StandsAt u) (hidx : Indexed s) (hs : s.Sized u)
    (hkey : s.view key = some (v, some d)) (hlt : u < d) (hfit : d / 1000000 ≤ i64Max)
    (path : String) (started : Instant) (maxTerms : Nat) :
    Act.SatE (saveInner path) e s w
      (fun _ _ w' => ∀ w₁ : World, w₁.files.lookup path = w'.files.lookup path →
        Act.Sat (Persist.load ⟨path, none⟩ maxTerms) e' { started := started } w₁
          (fun _ s' _ => s'.view key =
            shownAt u (((v.payload u u).loaded maxTerms).value, some (writtenDeadline d u)))
          (fun _ => False))
      (fun _ _ _ => ∃ i, e.disk i = false) (fun _ => False) := by
  have h0 := standing_nonneg hu
  refine Act.satE_mono (saveInner_spec path) ?_ (fun _ _ _ h => h.1) (fun p hp => absurd hidx hp.2)
  rintro _ s₁ w₁ ⟨hfile, -⟩ w₂ hw₂
  rw [hfile] at hw₂
  have hfits : ∀ r ∈ s.records e.clock w.ticks, r.Fits := fun r hr =>
    (recordsAt_fits (fun x hx => by rw [hu] at hx; exact ⟨hs.key x hx, hs.value x hx⟩) r hr).1
  have hkeys : ((s.records e.clock w.ticks).map Record.key).Nodup :=
    (liveKeys_nodup s _).sublist recordsAt_keys
  have hloaded : ((s.records e.clock w.ticks).map (Record.loaded maxTerms)).map LoadedEntry.key =
      (s.records e.clock w.ticks).map Record.key := by
    rw [List.map_map]
    rfl
  refine sat_load hw₂ (sat_loadEntries_dump hfits ?_)
  refine Act.sat_mono (installAll_spec ?_ (fun _ _ => rfl) ?_) ?_
    (fun p hp => absurd (indexed_new started) hp.2)
  · rw [hloaded]
    exact hkeys
  · intro entry hentry
    obtain ⟨r, hr, rfl⟩ := List.mem_map.mp hentry
    exact (hfits r hr).expireAt.2
  · rintro _ s₃ w₃ ⟨hshown, -⟩
    have hlive : s.view.liveAt u key = some (v, some d) :=
      liveAt_eq hkey fun x hx => by cases hx; exact hlt
    have hmem : momentRecord u (key, v, some d) ∈ s.records e.clock w.ticks := by
      rw [records_moment hu]
      exact List.mem_map_of_mem (liveKeys_liveAt.mpr hlive)
    obtain ⟨j, hj⟩ := shownAll_mem (c := e'.clock) (i := w₂.ticks)
      (List.mem_map_of_mem (f := Record.loaded maxTerms) hmem)
    have hview := hshown _ hj
    dsimp only at hview
    rw [show ((momentRecord u (key, v, some d)).loaded maxTerms).key = key from rfl] at hview
    rw [hview]
    unfold LoadedEntry.shown
    rw [hu']
    have hdead : ((momentRecord u (key, v, some d)).loaded maxTerms).deadline =
        some (writtenDeadline d u) := by
      unfold LoadedEntry.deadline
      rw [if_pos]
      · rfl
      · exact (dumpDeadline_range h0 hlt hfit).1
    rw [hdead]
    rfl

/-- **A deadline is kept exactly when its milliseconds fit**, or when it is never ahead. -/
theorem keyDeadlineKept_iff : KeyDeadlineKept d ↔ (0 < d → d / 1000000 ≤ i64Max) := by
  constructor
  · intro h hpos
    obtain ⟨s, hs, hkey⟩ := exists_withDeadline d
    have hstands : (stillEnv 0).StandsAt 0 := fun _ => rfl
    have hsaved := h.saved (stillEnv 0) 0 s {} [107] _ hstands hs hkey hpos
    obtain ⟨r, -, -, -, ⟨record, rfl, hexact⟩, other, hsame, hactual⟩ := Act.exists_of_sat
      (Act.sat_mono (Act.sat_and hsaved (recordOf_standing hstands hs hkey hpos)) (fun _ _ _ h => h)
        (fun _ h => h.1))
    cases hsame
    have hrange := expiryAt_range (stillEnv 0).clock 0 (some d)
    rw [expiryAt_standing hstands hpos, ← hactual, hexact] at hrange
    simpa using hrange.2
  · intro hfit
    refine ⟨?_, ?_, ?_⟩
    · intro e u s w key v hu hs hkey hlt
      exact pttlMs_exact hu hs hkey hlt (hfit (lt_of_le_of_lt (standing_nonneg hu) hlt))
    · intro e u s w key v hu hs hkey hlt
      have h0 := standing_nonneg hu
      refine Act.sat_mono (recordOf_standing hu hs hkey hlt) ?_ (fun _ h => h)
      rintro r _ _ ⟨record, hr, hdump⟩
      exact ⟨record, hr, hdump.trans (dumpDeadline_eq h0 hlt (hfit (lt_of_le_of_lt h0 hlt)))⟩
    · intro e e' u s w key v hu hu' hidx hs hkey hlt path started maxTerms
      have h0 := standing_nonneg hu
      have hmax := hfit (lt_of_le_of_lt h0 hlt)
      obtain ⟨hlow, hhigh⟩ := writtenDeadline_bounds h0 hlt hmax
      refine Act.satE_mono (reload_exact hu hu' hidx hs hkey hlt hmax path started maxTerms) ?_
        (fun _ _ _ h => h) (fun _ h => h)
      intro _ _ _ hload w₁ hw₁
      refine Act.sat_mono (hload w₁ hw₁) ?_ (fun _ h => h)
      intro _ s' _ hview
      exact ⟨_, Int.le_of_lt hlow, hhigh, hview⟩

end kept

/-! ## Deadlines that are computed -/

theorem saturatingMul_range (a b : Int) :
    i64Min ≤ saturatingMul a b ∧ saturatingMul a b ≤ i64Max := by
  unfold saturatingMul i64Min i64Max
  omega

theorem saturatingMul_one {a : Int} (h0 : i64Min ≤ a) (h1 : a ≤ i64Max) :
    saturatingMul a 1 = a := by
  unfold saturatingMul
  omega

theorem arg_drop (argv : List Bytes) (n i : Nat) : arg (argv.drop n) i = arg argv (n + i) := by
  unfold arg
  rw [List.getD_eq_getElem?_getD, List.getElem?_drop, List.getD_eq_getElem?_getD]

theorem fromMillis_toNat {m : Int} (h : 0 ≤ m) : ((fromMillis m.toNat : Nat) : Int) = m * 1000000 := by
  unfold fromMillis nanosPerMilli
  push_cast
  rw [Int.toNat_of_nonneg h]

section computed

variable {e : Env} {t : SystemTime} {K : Keyspace} {argv : List Bytes}

theorem gives_addDuration {a : SystemTime} {n : Duration} (h : inTimeRange (a + n) = true) :
    Gives e t K (addDuration a n : Run Store SystemTime) (a + n) K := by
  unfold addDuration
  rw [if_pos h]
  exact gives_pure _

theorem gives_epochPlusMillis {m : Int} (h0 : 0 ≤ m) (hmax : m ≤ i64Max) :
    Gives e t K (epochPlusMillis m.toNat) (m * 1000000) K := by
  have hrange : inTimeRange (0 + (fromMillis m.toNat : Nat)) = true := by
    rw [fromMillis_toNat h0]
    unfold inTimeRange i64Min
    unfold i64Max at hmax ⊢
    rw [decide_eq_true_eq]
    omega
  have hsum : (0 : SystemTime) + (fromMillis m.toNat : Nat) = m * 1000000 := by
    rw [fromMillis_toNat h0, Int.zero_add]
  unfold epochPlusMillis addDuration
  rw [if_pos hrange, hsum]
  exact gives_pure _

-- the sum is not to be evaluated while a statement about it is elaborated
attribute [local irreducible] epochPlusMillis

theorem gives_deadlineAtUnixMillis {m : Int} (hmax : m ≤ i64Max) :
    Gives e t K (deadlineAtUnixMillis m) (max m 0 * 1000000) K := by
  unfold deadlineAtUnixMillis
  by_cases hm : m ≤ 0
  · rw [if_pos hm, max_eq_right hm]
    exact gives_pure _
  · have hpos : 0 ≤ m := by omega
    rw [if_neg hm, max_eq_left hpos]
    exact gives_epochPlusMillis hpos hmax

/-- From a moment after the epoch, a deadline in the range of the clock is computed as it is. -/
theorem gives_deadlineAfterMillis (ht : e.StandsAt t) {m : Int}
    (hrange : inTimeRange (t + m * 1000000) = true) :
    Gives e t K (deadlineAfterMillis m) (t + m * 1000000) K := by
  unfold deadlineAfterMillis
  have hnow : Gives e t K (now : Run Store SystemTime) t K := fun _ _ hs hK => ⟨ht _, hs, hK⟩
  refine gives_bind hnow ?_
  by_cases hm : 0 ≤ m
  · rw [if_pos hm, ← fromMillis_toNat hm]
    rw [← fromMillis_toNat hm] at hrange
    exact gives_addDuration hrange
  · rw [if_neg hm]
    have hback : t - ((fromMillis m.natAbs : Nat) : Int) = t + m * 1000000 := by
      unfold fromMillis nanosPerMilli
      push_cast
      rw [abs_of_neg (by omega)]
      ring
    dsimp only
    rw [hback, if_pos hrange]
    exact gives_pure _

/-! ## The forms -/

namespace TtlForm

variable {form : TtlForm} {amount : Int} {config : Config} {v : Value} {d : Option SystemTime}

/-- What a form leaves: the value of its key, with the deadline. -/
def left (form : TtlForm) (K : Keyspace) (key : Bytes) (v : Value) (amount : Int) (t : SystemTime) :
    Keyspace :=
  Function.update K key (MapOp.pruned t (some (v, some (form.deadline amount t))))

/-- A deadline from now on. -/
theorem gives_relative (ht : e.StandsAt t) (hrel : form.absolute = false)
    (hfit : inTimeRange (form.deadline amount t) = true) :
    Gives e t K (deadlineAfterMillis (form.millis amount)) (form.deadline amount t) K := by
  have hdeadline : form.deadline amount t = t + form.millis amount * 1000000 := by
    unfold deadline
    rw [hrel, if_neg Bool.false_ne_true]
  rw [hdeadline] at hfit ⊢
  exact gives_deadlineAfterMillis ht hfit

theorem deadline_absolute (habs : form.absolute = true) :
    form.deadline amount t = max (form.millis amount) 0 * 1000000 := if_pos habs

theorem gives_expireVariant (ht : e.StandsAt t) (hlen : argv.length = 3)
    (hparse : parseI64 (arg argv 2) = some amount) (hkey : K (arg argv 1) = some (v, d))
    {toDeadline : Int → Run Store SystemTime}
    (hdeadline : Gives e t K (toDeadline amount) (form.deadline amount t) K) (name : String) :
    GivesE e t K (Generic.expireVariant name toDeadline argv) (.ok (.bool true))
      (form.left K (arg argv 1) v amount t) := by
  unfold Generic.expireVariant
  rw [exactArgs_eq hlen, pure_bind, intArg_eq hparse, pure_bind]
  refine givesE_bind (givesE_lift hdeadline) ?_
  exact givesE_bind (givesE_lift (gives_setExpireAt ht hkey _)) (givesE_pure _)

theorem expire_gives (ht : e.StandsAt t) {seconds absolute : Bool} (hlen : argv.length = 3)
    (hparse : parseI64 (arg argv 2) = some amount) (hkey : K (arg argv 1) = some (v, d))
    (hmin : i64Min ≤ amount) (hmax : amount ≤ i64Max)
    (hfit : inTimeRange ((expire seconds absolute).deadline amount t) = true) :
    GivesE e t K ((Generic.arms config).run (expire seconds absolute).name argv) (.ok (.bool true))
      ((expire seconds absolute).left K (arg argv 1) v amount t) := by
  have hone : (expire false absolute).millis amount = amount := saturatingMul_one hmin hmax
  have hrange := (saturatingMul_range amount (expire seconds absolute).unit).2
  cases absolute with
  | false =>
    have hdeadline := gives_relative (K := K) ht rfl hfit
    cases seconds with
    | true => exact gives_expireVariant ht hlen hparse hkey hdeadline "EXPIRE"
    | false =>
      rw [hone] at hdeadline
      exact gives_expireVariant ht hlen hparse hkey hdeadline "PEXPIRE"
  | true =>
    have hdeadline : Gives e t K (deadlineAtUnixMillis ((expire seconds true).millis amount))
        ((expire seconds true).deadline amount t) K := by
      rw [deadline_absolute rfl]
      exact gives_deadlineAtUnixMillis hrange
    cases seconds with
    | true => exact gives_expireVariant ht hlen hparse hkey hdeadline "EXPIREAT"
    | false =>
      rw [hone] at hdeadline
      exact gives_expireVariant ht hlen hparse hkey hdeadline "PEXPIREAT"

/-- A string that was just put at the key is given the deadline. -/
theorem gives_deadlineOfString (ht : e.StandsAt t) (key value : Bytes) :
    Gives e t (Function.update K key (some (Value.str value, none)))
      (setExpireAt key (some (form.deadline amount t))) true
      (form.left K key (.str value) amount t) := by
  have hset : Function.update K key (some (Value.str value, none)) key = some (.str value, none) :=
    Function.update_self _ _ _
  have hleft := gives_setExpireAt ht hset (some (form.deadline amount t))
  rwa [Function.update_idem] at hleft

theorem setex_gives (ht : e.StandsAt t) {seconds : Bool} (hlen : argv.length = 4)
    (hparse : parseI64 (arg argv 2) = some amount) (hpos : 0 < amount)
    (hfit : inTimeRange ((setex seconds).deadline amount t) = true) :
    GivesE e t K ((Strings.arms config).run (setex seconds).name argv) (.ok .ok)
      ((setex seconds).left K (arg argv 1) (.str (arg argv 3)) amount t) := by
  have hunit : GivesE e t K (Strings.setex (setex seconds).name (setex seconds).unit argv) (.ok .ok)
      ((setex seconds).left K (arg argv 1) (.str (arg argv 3)) amount t) := by
    unfold Strings.setex
    rw [exactArgs_eq hlen, pure_bind, intArg_eq hparse, pure_bind, if_neg (by omega)]
    refine givesE_bind (givesE_lift (gives_setString _ _)) ?_
    refine givesE_bind (givesE_lift (gives_relative ht rfl hfit)) ?_
    exact givesE_bind (givesE_lift (gives_deadlineOfString ht _ _)) (givesE_pure _)
  cases seconds with
  | true => exact hunit
  | false => exact hunit

/-- The write of a `SET` with an expiry. -/
theorem gives_setWithDeadline (ht : e.StandsAt t) (key value : Bytes) :
    Gives e t K (Strings.store key value (.at (form.deadline amount t))) ()
      (form.left K key (.str value) amount t) := by
  unfold Strings.store
  refine gives_bind (gives_setString key value) ?_
  exact gives_bind (gives_deadlineOfString ht key value) (gives_pure ())

/-- The one option of a `SET` asks for an expiry. -/
theorem setOptions_expiry {seconds absolute : Bool} {o word : Bytes}
    (h : ∀ name, (set seconds absolute).option = some name → eqIgnoreCase o name = true) :
    Strings.setOptions 2 [o, word] {} = (do
      let expiry ← Strings.takesArgument [word] (set seconds absolute).unit absolute
      return { expiry := expiry }) := by
  cases seconds <;> cases absolute
  all_goals
    simp only [Strings.setOptions, eqIgnoreCase_of (h _ rfl)]
    rfl

theorem takesArgument_gives (ht : e.StandsAt t) {seconds absolute : Bool} {word : Bytes}
    (hparse : parseI64 word = some amount) (haccept : absolute = false → 0 < amount)
    (hfit : inTimeRange ((set seconds absolute).deadline amount t) = true) :
    GivesE e t K (Strings.takesArgument [word] (set seconds absolute).unit absolute)
      (.ok (.at ((set seconds absolute).deadline amount t))) K := by
  have hrange := (saturatingMul_range amount (set seconds absolute).unit).2
  unfold Strings.takesArgument
  dsimp only
  rw [intArg_eq hparse, pure_bind]
  cases absolute with
  | false =>
    have hpos := haccept rfl
    rw [if_neg (by simp; omega)]
    exact givesE_bind (givesE_lift (gives_relative ht rfl hfit)) (givesE_pure _)
  | true =>
    rw [if_neg (by simp)]
    have hdeadline : Gives e t K (epochPlusMillis (max ((set seconds true).millis amount) 0).toNat)
        ((set seconds true).deadline amount t) K := by
      rw [deadline_absolute rfl]
      exact gives_epochPlusMillis (le_max_right _ _) (max_le hrange (by decide))
    exact givesE_bind (givesE_lift hdeadline) (givesE_pure _)

theorem set_gives (ht : e.StandsAt t) {seconds absolute : Bool} (hlen : argv.length = 5)
    (hspelled : ∀ name, (set seconds absolute).option = some name →
      eqIgnoreCase (arg argv 3) name = true)
    (hparse : parseI64 (arg argv 4) = some amount) (haccept : absolute = false → 0 < amount)
    (hfit : inTimeRange ((set seconds absolute).deadline amount t) = true) :
    GivesE e t K ((Strings.arms config).run (set seconds absolute).name argv) (.ok .ok)
      ((set seconds absolute).left K (arg argv 1) (.str (arg argv 2)) amount t) := by
  have hdrop : argv.drop 3 = [arg argv 3, arg argv 4] := by
    obtain ⟨o, word, htail⟩ := List.length_eq_two.mp
      (show (argv.drop 3).length = 2 by rw [List.length_drop, hlen])
    have ho : arg argv 3 = o := by
      rw [← arg_drop argv 3 0, htail]
      rfl
    have hword : arg argv 4 = word := by
      rw [← arg_drop argv 3 1, htail]
      rfl
    rw [ho, hword, htail]
  show GivesE e t K (Strings.set argv) _ _
  unfold Strings.set
  rw [minArgs_eq (by omega), pure_bind, hdrop]
  have hoptions : GivesE e t K (Strings.setOptions 2 [arg argv 3, arg argv 4] {})
      (.ok { expiry := .at ((set seconds absolute).deadline amount t) }) K := by
    rw [setOptions_expiry hspelled]
    exact givesE_bind (takesArgument_gives ht hparse haccept hfit) (givesE_pure _)
  refine givesE_bind hoptions ?_
  refine givesE_bind (givesE_pure _) ?_
  refine givesE_bind (givesE_lift (gives_hasKey ht _)) ?_
  exact givesE_bind (givesE_lift (gives_setWithDeadline ht _ _)) (givesE_pure _)

theorem getex_gives (ht : e.StandsAt t) {seconds : Bool} {value : Bytes} (hlen : argv.length = 4)
    (hspelled : ∀ name, (getex seconds).option = some name → eqIgnoreCase (arg argv 2) name = true)
    (hparse : parseI64 (arg argv 3) = some amount) (hpos : 0 < amount)
    (hmin : i64Min ≤ amount) (hmax : amount ≤ i64Max)
    (hkey : K (arg argv 1) = some (.str value, d))
    (hfit : inTimeRange ((getex seconds).deadline amount t) = true) :
    GivesE e t K ((Strings.arms config).run (getex seconds).name argv) (.ok (.bulk value))
      ((getex seconds).left K (arg argv 1) (.str value) amount t) := by
  show GivesE e t K (Strings.getex argv) _ _
  unfold Strings.getex
  rw [minArgs_eq (by omega), pure_bind]
  have hmillis : (if eqIgnoreCase (arg argv 2) "EX" then saturatingMul amount 1000 else amount) =
      (getex seconds).millis amount := by
    cases seconds with
    | true => rw [if_pos (hspelled _ rfl)]; rfl
    | false =>
      rw [eqIgnoreCase_of (hspelled _ rfl)]
      exact (saturatingMul_one hmin hmax).symm
  have hexpiry : GivesE e t K (Strings.getexExpiry argv)
      (.ok (.at ((getex seconds).deadline amount t))) K := by
    unfold Strings.getexExpiry
    dsimp only
    rw [if_neg (by omega), if_neg (by omega), if_pos, intArg_eq hparse, pure_bind, if_neg (by omega),
      hmillis]
    · exact givesE_bind (givesE_lift (gives_relative ht rfl hfit)) (givesE_pure _)
    · cases seconds with
      | true => exact ⟨hlen, .inl (hspelled _ rfl)⟩
      | false => exact ⟨hlen, .inr (hspelled _ rfl)⟩
  refine givesE_bind hexpiry (givesE_bind (givesE_checkType ht fun x d' hx => ?_) ?_)
  · cases hkey.symm.trans hx
    rfl
  · refine givesE_bind (givesE_lift (gives_getString ht hkey)) ?_
    exact givesE_bind (givesE_lift (gives_setExpireAt ht hkey _)) (givesE_pure _)

/-- **What each form leaves at its key**, when its deadline is in the range of the clock. -/
theorem gives (ht : e.StandsAt t) (hmin : i64Min ≤ amount) (hmax : amount ≤ i64Max)
    (hfit : inTimeRange (form.deadline amount t) = true) (hreads : form.Reads argv amount)
    (hvalue : form.value K argv = some v) :
    ∃ reply, GivesE e t K ((form.arms config).run form.name argv) (.ok reply)
      (form.left K (arg argv 1) v amount t) := by
  obtain ⟨hlen, hspelled, hparse, haccept⟩ := hreads
  cases form with
  | expire seconds absolute =>
    obtain ⟨⟨x, d⟩, hkey, rfl⟩ := Option.map_eq_some_iff.mp hvalue
    exact ⟨_, expire_gives ht hlen hparse hkey hmin hmax hfit⟩
  | set seconds absolute =>
    cases hvalue
    exact ⟨_, set_gives ht hlen hspelled hparse haccept hfit⟩
  | setex seconds =>
    cases hvalue
    exact ⟨_, setex_gives ht hlen hparse (haccept rfl) hfit⟩
  | getex seconds =>
    obtain ⟨hmap, htype⟩ := Option.filter_eq_some_iff.mp hvalue
    obtain ⟨⟨x, d⟩, hkey, rfl⟩ := Option.map_eq_some_iff.mp hmap
    cases x with
    | str value =>
      exact ⟨_, getex_gives ht hlen hspelled hparse (haccept rfl) hmin hmax hkey hfit⟩
    | _ => simp [Value.typeOf] at htype

/-- The milliseconds of the deadline fit: always when the amount counts from the epoch. -/
theorem deadline_fits_iff :
    (0 < form.deadline amount t → form.deadline amount t / 1000000 ≤ i64Max) ↔
      (form.absolute = false → t / 1000000 + form.millis amount ≤ i64Max) := by
  obtain ⟨-, hmillis⟩ : i64Min ≤ form.millis amount ∧ form.millis amount ≤ i64Max :=
    saturatingMul_range _ _
  unfold deadline
  generalize form.millis amount = m at hmillis ⊢
  have h : i64Max = 9223372036854775807 := rfl
  cases form.absolute with
  | true =>
    rw [if_pos rfl, Int.mul_ediv_cancel _ (by decide)]
    exact ⟨fun _ => nofun, fun _ _ => max_le hmillis (by decide)⟩
  | false =>
    rw [if_neg Bool.false_ne_true, Int.add_mul_ediv_right _ _ (by decide)]
    have hpos : ∀ t m : Int, ¬ 0 < t + m * 1000000 → t / 1000000 + m ≤ 0 := by omega
    refine ⟨fun hfit _ => ?_, fun hfit _ => hfit rfl⟩
    by_cases hd : 0 < t + m * 1000000
    · exact hfit hd
    · exact Int.le_trans (hpos t m hd) (by decide)

theorem deadline_inRange (h0 : 0 ≤ t)
    (hfit : form.absolute = false → t / 1000000 + form.millis amount ≤ i64Max) :
    inTimeRange (form.deadline amount t) = true := by
  obtain ⟨hmin, hmax⟩ : i64Min ≤ form.millis amount ∧ form.millis amount ≤ i64Max :=
    saturatingMul_range _ _
  unfold deadline inTimeRange
  generalize form.millis amount = m at hmin hmax hfit ⊢
  have h : i64Max = 9223372036854775807 := rfl
  have h' : i64Min = -9223372036854775808 := rfl
  rw [decide_eq_true_eq]
  cases hrel : form.absolute with
  | true =>
    rw [if_pos rfl]
    omega
  | false =>
    rw [if_neg Bool.false_ne_true]
    have hsum := hfit hrel
    have hlow : ∀ t m : Int, 0 ≤ t → -9223372036854775808 ≤ m →
        -9223372036854775808 * 1000000000 ≤ t + m * 1000000 := by omega
    have hhigh : ∀ t m : Int, t / 1000000 + m ≤ 9223372036854775807 →
        t + m * 1000000 < (9223372036854775807 + 1) * 1000000000 := by omega
    rw [h, h'] at *
    exact ⟨hlow t m h0 hmin, hhigh t m hsum⟩

end TtlForm

end computed

/-- **Where the arithmetic of a key's time to live is exact**: an amount that counts from the epoch
always, one that counts from now exactly when the milliseconds of its deadline fit an `i64`. -/
theorem keyTtlExact_iff (config : Config) (form : TtlForm) (amount : Int) (t : SystemTime)
    (h0 : 0 ≤ t) (hmin : i64Min ≤ amount) (hmax : amount ≤ i64Max) :
    KeyTtlExact config form amount t ↔
      (form.absolute = false → t / 1000000 + form.millis amount ≤ i64Max) := by
  constructor
  · exact fun h => TtlForm.deadline_fits_iff.mp (keyDeadlineKept_iff.mp h.kept)
  · intro hfit
    refine ⟨?_, keyDeadlineKept_iff.mpr (TtlForm.deadline_fits_iff.mpr hfit)⟩
    intro e K argv v ht hreads hvalue
    exact TtlForm.gives ht hmin hmax (TtlForm.deadline_inRange h0 hfit) hreads hvalue

/-- `PEXPIRE key 1500` at five seconds after the epoch. -/
theorem keyTtlExact_iff_pexpire :
    KeyTtlExact {} (.expire false false) 1500 5000000000 ↔
      ((TtlForm.expire false false).absolute = false →
        (5000000000 : Int) / 1000000 + (TtlForm.expire false false).millis 1500 ≤ i64Max) :=
  keyTtlExact_iff {} (.expire false false) 1500 5000000000 (by decide) (by decide) (by decide)

/-- `PEXPIRE key 9223372036854775807`, a millisecond after the epoch: the amount is accepted, and
the sum of the time and of the milliseconds left does not fit. -/
theorem not_keyTtlExact_largest :
    (TtlForm.expire false false).Accepts i64Max ∧
      ¬ KeyTtlExact {} (.expire false false) i64Max 1000000 := by
  refine ⟨trivial, fun h => ?_⟩
  have hfit := keyDeadlineKept_iff.mp h.kept
  revert hfit
  decide

end Klyro
