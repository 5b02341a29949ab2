import Klyro.Commands.Generic
import Klyro.Commands.Memories
import Klyro.Evict.Rounds
import Klyro.Util.Order

/-!
# Extreme settings

A parameter takes any positive number of 64 bits, and the scans and the eviction add to it, slice by
it and allocate for it.

* `Avoids p` — a run does not end in the panic `p`.
* `Parses` — a part of a handler that only reads its arguments.
* `Fits` — a scan's addition stays in range, or there is nothing left to show.
* `accepts` — a run of `CONFIG SET`s that are all answered OK.
* `accepts_crashesExactly` — which scans and evictions panic under accepted settings.
-/

set_option autoImplicit false

namespace Klyro

open Store Keyspace

/-! ## Runs without a panic -/

section avoids

variable {σ α β : Type} {p : Panic} {e : Env} {s : σ} {w : World}

/-- The run does not end in the panic `p`. -/
def Avoids (p : Panic) (m : Run σ α) (e : Env) (s : σ) (w : World) : Prop :=
  Act.Sat m e s w (fun _ _ _ => True) (· ≠ p)

/-- A run that ends in the panic exactly when `C` fails. -/
theorem avoids_iff {m : Run σ α} {C : Prop}
    (h : Act.Sat m e s w (fun _ _ _ => C) (fun q => q = p ↔ ¬ C)) : Avoids p m e s w ↔ C := by
  constructor
  · intro hm
    have hboth := Act.sat_and hm h
    by_contra hC
    refine Act.not_sat_false _ (Act.sat_mono hboth (fun _ _ _ h => hC h.2) ?_)
    exact fun _ h => h.1 (h.2.mpr hC)
  · intro hC
    exact Act.sat_mono h (fun _ _ _ _ => trivial) (fun _ h hq => h.mp hq hC)

/-- A part of a handler that only reads its arguments: it has a result or refuses them. -/
def Parses (m : Cmd α) : Prop := (∃ a, m = pure a) ∨ ∃ reply, m = throw reply

theorem parses_pure (a : α) : Parses (pure a) := .inl ⟨a, rfl⟩

theorem parses_throw (reply : Reply) : Parses (throw reply : Cmd α) := .inr ⟨reply, rfl⟩

theorem parses_bind {m : Cmd α} {f : α → Cmd β} (hm : Parses m) (hf : ∀ a, Parses (f a)) :
    Parses (m >>= f) := by
  rcases hm with ⟨a, rfl⟩ | ⟨reply, rfl⟩
  · rw [pure_bind]
    exact hf a
  · exact .inr ⟨reply, rfl⟩

theorem parses_ite {c : Prop} [Decidable c] {m n : Cmd α} (hm : Parses m) (hn : Parses n) :
    Parses (if c then m else n) := by
  split
  · exact hm
  · exact hn

theorem parses_orThrow (refusal : Reply) (o : Option α) : Parses (orThrow refusal o) := by
  cases o with
  | none => exact parses_throw refusal
  | some a => exact parses_pure a

theorem pure_injective {a b : α} (h : (pure a : Cmd α) = pure b) : a = b := by
  have hrun := congrFun (congrFun (congrFun (congrArg ExceptT.run h) (stillEnv 0)) {}) {}
  injection hrun with hrun
  injection hrun

theorem throw_ne_pure {reply : Reply} {a : α} : (throw reply : Cmd α) ≠ pure a := by
  intro h
  have hrun := congrFun (congrFun (congrFun (congrArg ExceptT.run h) (stillEnv 0)) {}) {}
  injection hrun with hrun
  cases hrun

/-- Arguments that are taken are taken part by part. -/
theorem parsed_bind {m : Cmd α} {f : α → Cmd β} {b : β} (hm : Parses m) (h : m >>= f = pure b) :
    ∃ a, m = pure a ∧ f a = pure b := by
  rcases hm with ⟨a, rfl⟩ | ⟨reply, rfl⟩
  · exact ⟨a, rfl, by rwa [pure_bind] at h⟩
  · exact absurd h throw_ne_pure

/-- What comes after the arguments are read matters only when they are taken. -/
theorem avoids_parsed {m : Cmd α} {f : α → Cmd β} {s : Store} (hm : Parses m) :
    Avoids p (m >>= f).run e s w ↔ ∀ a, m = pure a → Avoids p (f a).run e s w := by
  rcases hm with ⟨b, rfl⟩ | ⟨reply, rfl⟩
  · rw [pure_bind]
    constructor
    · intro h a ha
      rw [← pure_injective ha]
      exact h
    · exact fun h => h b rfl
  · exact ⟨fun _ a ha => absurd ha throw_ne_pure, fun _ => trivial⟩

/-- The answer made of a result cannot end in a panic. -/
theorem avoids_answered {m : Cmd α} {f : α → β} {s : Store} :
    Avoids p (m >>= fun a => pure (f a)).run e s w ↔ Avoids p m.run e s w := by
  unfold Avoids
  rw [ExceptT.run_bind, Act.sat_bind]
  constructor
  · exact fun h => Act.sat_mono h (fun _ _ _ _ => trivial) (fun _ h => h)
  · intro h
    refine Act.sat_mono h ?_ (fun _ h => h)
    rintro (reply | a) _ _ _
    · trivial
    · trivial

theorem avoids_lift {m : Run Store α} {s : Store} :
    Avoids p (liftM m : Cmd α).run e s w ↔ Avoids p m e s w := by
  unfold Avoids
  rw [ExceptT.run_liftM, Act.sat_map]

theorem parses_minArgs (argv : List Bytes) (name : String) (n : Nat) :
    Parses (minArgs argv name n) :=
  parses_ite (parses_pure ()) (parses_throw _)

theorem minArgs_eq_pure {argv : List Bytes} {name : String} {n : Nat} {u : Unit} :
    minArgs argv name n = pure u ↔ n < argv.length := by
  unfold minArgs
  constructor
  · intro h
    by_contra hlen
    rw [if_neg hlen] at h
    exact throw_ne_pure h
  · exact fun hlen => if_pos hlen

theorem intArg_eq_pure {word : Bytes} {n : Int} : intArg word = pure n ↔ parseI64 word = some n := by
  unfold intArg
  cases parseI64 word with
  | none => exact ⟨fun h => absurd h throw_ne_pure, nofun⟩
  | some m =>
    exact ⟨fun h => congrArg some (pure_injective h), fun h => congrArg pure (Option.some.inj h)⟩

theorem parseI64_bounds {word : Bytes} {n : Int} (h : parseI64 word = some n) :
    i64Min ≤ n ∧ n ≤ i64Max := by
  obtain ⟨text, -, htext⟩ := Option.bind_eq_some_iff.mp h
  exact of_decide_eq_true (Option.filter_eq_some_iff.mp htext).2

end avoids

/-! ## Scans -/

/-- There is nothing left to show, or the end of the slice is within range. -/
def Fits (len cursor count : Nat) : Prop := len ≤ cursor ∨ cursor + Nat.max count 1 ≤ u64Max

section scans

variable {e : Env} {w : World} {cursor count : Nat}

/-- The wrapped end of a slice lies before its start exactly when the addition overflowed. -/
theorem stop_lt_iff {len : Nat} (hcount : count ≤ u64Max) (hcursor : cursor ≤ u64Max)
    (hlen : cursor < len) :
    Nat.min ((cursor + Nat.max count 1) % (u64Max + 1)) len < cursor ↔
      ¬ cursor + Nat.max count 1 ≤ u64Max := by
  have hstep : 1 ≤ Nat.max count 1 ∧ Nat.max count 1 ≤ u64Max := by
    show 1 ≤ max count 1 ∧ max count 1 ≤ u64Max
    have hmax : 1 ≤ u64Max := by decide
    omega
  generalize Nat.max count 1 = step at hstep ⊢
  show min _ _ < _ ↔ _
  by_cases hfits : cursor + step ≤ u64Max
  · rw [Nat.mod_eq_of_lt (by omega)]
    omega
  · have hwrap : (cursor + step) % (u64Max + 1) = cursor + step - (u64Max + 1) := by
      rw [Nat.mod_eq_sub_mod (by omega), Nat.mod_eq_of_lt (by omega)]
    omega

theorem storeScan_fits (hcount : count ≤ u64Max) (hcursor : cursor ≤ u64Max) (s : Store) :
    Avoids .bounds (Store.scan cursor count) e s w ↔
      Fits (s.liveEntries (e.clock w.ticks)).length cursor count := by
  refine avoids_iff ?_
  unfold Store.scan Fits
  simp only [Act.sat_bind, sat_now, Act.sat_get, Act.sat_ite, Act.sat_pure, Act.sat_panic]
  have hlen : (sortBy cmpBytes ((s.liveEntries (e.clock w.ticks)).map Prod.fst)).length =
      (s.liveEntries (e.clock w.ticks)).length := by
    rw [(sortBy_perm _ _).length_eq, List.length_map]
  rw [hlen]
  refine ⟨fun h => .inl h, fun h => ?_⟩
  have hstop := stop_lt_iff hcount hcursor (not_le.mp h)
  refine ⟨fun hlt => ?_, fun hlt => .inr ?_⟩
  · have hover := hstop.mp hlt
    simp only [true_iff, not_or]
    exact ⟨h, hover⟩
  · by_contra hover
    exact hlt (hstop.mpr hover)

theorem memoryScan_fits (hcount : count ≤ u64Max) (hcursor : cursor ≤ u64Max) (m : Memory)
    (filter : Filter) : Act.Sat (Memory.scan cursor count filter) e m w
      (fun _ _ _ => Fits (m.liveIds (e.clock (w.ticks + 1))).length cursor count)
      (fun p => p = .bounds ∧ ¬ Fits (m.liveIds (e.clock (w.ticks + 1))).length cursor count) := by
  unfold Memory.scan Memory.sortedIds Fits
  simp only [Act.sat_bind, sat_now, Act.sat_get, Act.sat_ite, Act.sat_pure, Act.sat_panic]
  refine ⟨fun h => .inl h, fun h => ?_⟩
  have hstop := stop_lt_iff hcount hcursor (not_le.mp h)
  refine ⟨fun hlt => ⟨trivial, not_or.mpr ⟨h, hstop.mp hlt⟩⟩, fun hlt => .inr ?_⟩
  by_contra hover
  exact hlt (hstop.mpr hover)

/-! ## SCAN -/

theorem parses_scanCursor (word : Bytes) : Parses (Generic.scanCursor word) := by
  unfold Generic.scanCursor
  split
  · exact parses_ite (parses_pure _) (parses_throw _)
  · exact parses_throw _

theorem scanCursor_le {word : Bytes} (h : Generic.scanCursor word = pure cursor) :
    (cursor : Int) ≤ i64Max := by
  unfold Generic.scanCursor at h
  split at h
  · rename_i c hc
    split at h
    · rw [← pure_injective h, Int.toNat_of_nonneg ‹0 ≤ c›]
      exact (parseI64_bounds hc).2
    · exact absurd h throw_ne_pure
  · exact absurd h throw_ne_pure

theorem parses_scanOptions (fuel : Nat) (words : List Bytes) (options : Option Bytes × Int) :
    Parses (Generic.scanOptions fuel words options) := by
  induction fuel generalizing words options with
  | zero => exact parses_pure options
  | succ fuel ih =>
    match words with
    | [] => exact parses_pure options
    | [_] => exact parses_throw _
    | word :: value :: rest =>
      refine parses_ite (ih _ _) (parses_ite ?_ (parses_throw _))
      exact parses_bind (parses_orThrow _ _) fun c => parses_ite (ih _ _) (parses_throw _)

/-- The cursor and the count of a `SCAN` that is taken. -/
structure ScanRequest (c : Config) (argv : List Bytes) (cursor count : Nat) : Prop where
  words : 1 < argv.length
  cursor : Generic.scanCursor (arg argv 1) = pure cursor
  count : ∃ pattern n, Generic.scanOptions (argv.drop 2).length (argv.drop 2)
    (none, wrapI64 c.scanDefaultCount) = pure (pattern, n) ∧ count = (n % (u64Max + 1)).toNat

theorem scan_fits (c : Config) (argv : List Bytes) (s : Store) :
    Avoids .bounds (Generic.scan c argv).run e s w ↔
      ∀ cursor count, ScanRequest c argv cursor count →
        Fits (s.liveEntries (e.clock w.ticks)).length cursor count := by
  have hstore : ∀ {cursor : Nat} {n : Int}, Generic.scanCursor (arg argv 1) = pure cursor →
      (Avoids .bounds (Store.scan cursor (n % (u64Max + 1)).toNat) e s w ↔
        Fits (s.liveEntries (e.clock w.ticks)).length cursor (n % (u64Max + 1)).toNat) := by
    intro cursor n hcursor
    have hle := scanCursor_le hcursor
    refine storeScan_fits ?_ ?_ s
    · unfold u64Max
      omega
    · unfold i64Max at hle
      unfold u64Max
      omega
  unfold Generic.scan
  rw [avoids_parsed (parses_minArgs _ _ _)]
  constructor
  · rintro h cursor count ⟨hwords, hcursor, pattern, n, hoptions, rfl⟩
    have h' := (avoids_parsed (parses_scanCursor _)).mp (h () (minArgs_eq_pure.mpr hwords)) _ hcursor
    have h'' := (avoids_parsed (parses_scanOptions _ _ _)).mp h' _ hoptions
    exact (hstore hcursor).mp (avoids_lift.mp (avoids_answered.mp h''))
  · intro h u hwords
    refine (avoids_parsed (parses_scanCursor _)).mpr fun cursor hcursor => ?_
    refine (avoids_parsed (parses_scanOptions _ _ _)).mpr ?_
    rintro ⟨pattern, n⟩ hoptions
    refine avoids_answered.mpr (avoids_lift.mpr ((hstore hcursor).mpr ?_))
    exact h cursor _ ⟨minArgs_eq_pure.mp hwords, hcursor, pattern, n, hoptions, rfl⟩

/-! ## MEM.SCAN -/

theorem parses_value (words : List Bytes) : Parses (Memories.value words) := by
  cases words with
  | nil => exact parses_throw _
  | cons word rest => exact parses_pure (word, rest)

theorem parses_readFilterClause (words : List Bytes) : Parses (Memories.readFilterClause words) := by
  cases words with
  | nil => exact parses_pure none
  | cons word rest =>
    refine parses_ite (parses_bind (parses_ite (parses_throw _) (parses_pure _)) fun words => ?_)
      (parses_pure none)
    split
    · exact parses_pure _
    · exact parses_throw _

theorem parses_memScanOptions (fuel : Nat) (words : List Bytes) (o : Nat × Filter) :
    Parses (Memories.scanOptions fuel words o) := by
  induction fuel generalizing words o with
  | zero => exact parses_pure o
  | succ fuel ih =>
    cases words with
    | nil => exact parses_pure o
    | cons word rest =>
      refine parses_ite ?_ ?_
      · refine parses_bind (parses_value rest) fun head => ?_
        refine parses_bind (parses_orThrow _ _) fun n => ?_
        exact parses_ite (parses_bind (parses_throw _) fun _ => ih _ _) (ih _ _)
      · refine parses_bind (parses_readFilterClause _) fun found => ?_
        cases found with
        | none => exact parses_throw _
        | some clause => exact ih _ _

/-- The cursor and the count of a `MEM.SCAN` that is taken. -/
structure MemScanRequest (c : Config) (argv : List Bytes) (cursor count : Nat) (filter : Filter) :
    Prop where
  words : 2 < argv.length
  cursor : parseI64 (arg argv 2) = some (cursor : Int)
  count : Memories.scanOptions (argv.drop 3).length (argv.drop 3) (c.scanDefaultCount, []) =
    pure (count, filter)

/-- The index found twice fits. -/
def FitsAt (e : Env) (w : World) (s : Store) (key : Bytes) (cursor count : Nat) : Prop :=
  ∀ m d, s.view.liveAt (e.clock w.ticks) key = some (.memory m, d) →
    s.view.liveAt (e.clock (w.ticks + 1)) key = some (.memory m, d) →
    Fits (m.liveIds (e.clock (w.ticks + 3))).length cursor count

theorem eq_of_liveAt {K : Keyspace} {t : SystemTime} {key : Bytes} {x : Value × Option SystemTime}
    (h : K.liveAt t key = some x) : K key = some x := by
  unfold liveAt at h
  split at h
  · cases h
  · exact h

theorem liveAt_expire {K : Keyspace} {t t' : SystemTime} {key : Bytes}
    {x : Value × Option SystemTime} (h : K.liveAt t key = some x) :
    (K.expire t key).liveAt t' key = K.liveAt t' key := by
  unfold expire
  rw [h, ← eq_of_liveAt h, Function.update_eq_self]

theorem indexScan_fits {s : Store} (hs : Indexed s) {key : Bytes} {filter : Filter}
    (hcount : count ≤ u64Max) (hcursor : cursor ≤ u64Max) :
    Avoids .bounds (Memories.index key (Memory.scan cursor count filter)).run e s w ↔
      FitsAt e w s key cursor count := by
  refine avoids_iff ?_
  unfold Memories.index
  rw [ExceptT.run_bind, ExceptT.run_liftM, Act.sat_bind, Act.sat_map]
  refine Act.sat_mono (peekType_spec key) ?_ (fun p hp => absurd hs hp.2)
  rintro _ s₁ w₁ ⟨hw₁, rfl, hview₁, hidx₁⟩
  cases hlive : s.view.liveAt (e.clock w.ticks) key with
  | none =>
    intro m d h
    cases hlive.symm.trans h
  | some x =>
    obtain ⟨value, d⟩ := x
    have hother : value.typeOf ≠ .memory → FitsAt e w s key cursor count := by
      intro htype m d' h
      cases hlive.symm.trans h
      exact absurd rfl htype
    cases value with
    | memory m =>
      show Act.Sat (ExceptT.run (liftM (existingMemory key _) >>= _)) _ _ _ _ _
      rw [ExceptT.run_bind, ExceptT.run_liftM, Act.sat_bind, Act.sat_map]
      have hkey : s₁.view.liveAt (e.clock w₁.ticks) key =
          s.view.liveAt (e.clock (w.ticks + 1)) key := by
        rw [hview₁, liveAt_expire hlive, hw₁.ticks]
      refine sat_existingMemory (fun p hp => absurd (hidx₁ hs) hp.2) ?_ ?_
      · -- the index was due at the second reading, and the command panics in its own way
        intro s₂ w₂ _ hgone _ _
        have hfits : FitsAt e w s key cursor count := by
          intro m' d' _ h
          exact absurd (hkey.trans h) (hgone m' d')
        exact ⟨nofun, fun h => absurd hfits h⟩
      · intro m' d' s₂ w₂ hw₂ hlive₂ _ _
        rw [hkey] at hlive₂
        have hticks : w₂.ticks + 1 = w.ticks + 3 := by
          rw [hw₂.ticks, hw₁.ticks]
        cases (eq_of_liveAt hlive).symm.trans (eq_of_liveAt hlive₂)
        have hfits : FitsAt e w s key cursor count ↔
            Fits (m.liveIds (e.clock (w₂.ticks + 1))).length cursor count := by
          rw [hticks]
          constructor
          · exact fun h => h m d hlive hlive₂
          · intro h m' d' hfirst _
            cases hlive.symm.trans hfirst
            exact h
        refine Act.sat_mono (memoryScan_fits hcount hcursor m filter) ?_ ?_
        · exact fun _ _ _ h => hfits.mpr h
        · exact fun p h => ⟨fun _ => hfits.not.mpr h.2, fun _ => h.1⟩
    | _ => exact hother (by simp [Value.typeOf])

/-- The count is the one given or the one of a `COUNT`. -/
theorem memScanOptions_count {fuel : Nat} {words : List Bytes} {o : Nat × Filter} {filter : Filter}
    (h : Memories.scanOptions fuel words o = pure (count, filter)) :
    count = o.1 ∨ (count : Int) ≤ i64Max := by
  induction fuel generalizing words o with
  | zero => exact .inl (congrArg Prod.fst (pure_injective h)).symm
  | succ fuel ih =>
    cases words with
    | nil => exact .inl (congrArg Prod.fst (pure_injective h)).symm
    | cons word rest =>
      unfold Memories.scanOptions at h
      split at h
      · obtain ⟨head, -, h⟩ := parsed_bind (parses_value rest) h
        obtain ⟨n, hn, h⟩ := parsed_bind (parses_orThrow _ _) h
        split at h
        · exact absurd h throw_ne_pure
        · have hle := (parseI64_bounds (intArg_eq_pure.mp hn)).2
          rcases ih h with hcount | hcount
          · right
            rw [hcount]
            dsimp only
            omega
          · exact .inr hcount
      · obtain ⟨found, -, h⟩ := parsed_bind (parses_readFilterClause _) h
        cases found with
        | none => exact absurd h throw_ne_pure
        | some clause =>
          have hrest := ih h
          exact hrest

theorem memScan_fits {c : Config} (hdefault : c.scanDefaultCount ≤ u64Max) (argv : List Bytes)
    {s : Store} (hs : Indexed s) :
    Avoids .bounds (Memories.scan c argv).run e s w ↔
      ∀ cursor count filter, MemScanRequest c argv cursor count filter →
        FitsAt e w s (arg argv 1) cursor count := by
  have hindex : ∀ {cursor count : Nat} {filter : Filter},
      MemScanRequest c argv cursor count filter →
      (Avoids .bounds (Memories.index (arg argv 1) (Memory.scan cursor count filter)).run e s w ↔
        FitsAt e w s (arg argv 1) cursor count) := by
    intro cursor count filter h
    have hcursor := (parseI64_bounds h.cursor).2
    have hmax : i64Max ≤ (u64Max : Int) := by decide
    refine indexScan_fits hs ?_ (by omega)
    rcases memScanOptions_count h.count with hcount | hcount
    · exact hcount.trans_le hdefault
    · omega
  unfold Memories.scan
  rw [avoids_parsed (parses_minArgs _ _ _)]
  constructor
  · intro h cursor count filter hrequest
    have hcursor := intArg_eq_pure.mpr hrequest.cursor
    have h₁ := (avoids_parsed (parses_orThrow _ _)).mp
      (h () (minArgs_eq_pure.mpr hrequest.words)) _ hcursor
    rw [if_neg (by omega)] at h₁
    have h₂ := (avoids_parsed (parses_memScanOptions _ _ _)).mp h₁ _ hrequest.count
    exact (hindex hrequest).mp (avoids_answered.mp h₂)
  · intro h u hwords
    refine (avoids_parsed (parses_orThrow _ _)).mpr fun n hn => ?_
    by_cases hneg : n < 0
    · rw [if_pos hneg]
      exact trivial
    · rw [if_neg hneg]
      refine (avoids_parsed (parses_memScanOptions _ _ _)).mpr ?_
      rintro ⟨count, filter⟩ hcount
      have hrequest : MemScanRequest c argv n.toNat count filter := by
        refine ⟨minArgs_eq_pure.mp hwords, ?_, hcount⟩
        rw [intArg_eq_pure.mp hn, Int.toNat_of_nonneg (by omega)]
      exact avoids_answered.mpr ((hindex hrequest).mpr (h _ _ _ hrequest))

/-- The count of a `SCAN` is the configured one or the one of a `COUNT`. -/
theorem scanOptions_count {fuel : Nat} {words : List Bytes} {o : Option Bytes × Int}
    {pattern : Option Bytes} {n : Int}
    (h : Generic.scanOptions fuel words o = pure (pattern, n)) : n = o.2 ∨ 0 < n ∧ n ≤ i64Max := by
  induction fuel generalizing words o with
  | zero => exact .inl (congrArg Prod.snd (pure_injective h)).symm
  | succ fuel ih =>
    match words with
    | [] => exact .inl (congrArg Prod.snd (pure_injective h)).symm
    | [_] => exact absurd h throw_ne_pure
    | word :: value :: rest =>
      unfold Generic.scanOptions at h
      dsimp only at h
      split at h
      · have hrest := ih h
        exact hrest
      · split at h
        · obtain ⟨m, hm, h⟩ := parsed_bind (parses_orThrow _ _) h
          split at h
          · rcases ih h with hn | hn
            · exact .inr ⟨hn ▸ ‹0 < m›, hn ▸ (parseI64_bounds (intArg_eq_pure.mp hm)).2⟩
            · exact .inr hn
          · exact absurd h throw_ne_pure
        · exact absurd h throw_ne_pure

end scans

/-! ## Settings -/

/-- A run of `CONFIG SET`s, all answered OK. -/
def accepts : List (String × String) → Config → Option Config
  | [], c => some c
  | (name, value) :: sets, c =>
    match c.set name value false with
    | (none, c) => accepts sets c
    | (some _, _) => none

/-- The sizes of a configuration are numbers of 64 bits. -/
def Sized (c : Config) : Prop := 0 < c.scanDefaultCount ∧ c.scanDefaultCount ≤ u64Max

theorem sized_store {α : Type} {c : Config} {value : Option α} {put : α → Config} (hc : Sized c)
    (hput : ∀ a, value = some a → Sized (put a)) : Sized (c.store value put).2 := by
  cases value with
  | none => exact hc
  | some a => exact hput a rfl

theorem positive_bounds {value : String} {n : Nat} (h : positive value = some n) :
    0 < n ∧ n ≤ u64Max := by
  obtain ⟨hn, hpos⟩ := Option.filter_eq_some_iff.mp h
  exact ⟨of_decide_eq_true hpos, of_decide_eq_true (Option.filter_eq_some_iff.mp hn).2⟩

theorem sized_set {c : Config} (hc : Sized c) (name value : String) :
    Sized (c.set name value false).2 := by
  unfold Config.set
  split
  -- the arms in their order: only one parameter is the count
  iterate 2 exact hc
  iterate 7 exact sized_store hc fun _ _ => hc
  · exact sized_store hc fun _ h => positive_bounds h
  iterate 12 exact sized_store hc fun _ _ => hc
  exact hc

theorem sized_accepts {sets : List (String × String)} {c c' : Config} (hc : Sized c)
    (h : accepts sets c = some c') : Sized c' := by
  induction sets generalizing c with
  | nil =>
    cases h
    exact hc
  | cons p sets ih =>
    unfold accepts at h
    have hset := sized_set hc p.1 p.2
    split at h
    · rename_i c₁ hc₁
      rw [hc₁] at hset
      exact ih hset h
    · cases h

/-! ## Eviction -/

section eviction

variable {e : Env} {a : App} {w : World}

/-- No eviction is called for, or its sample may be allocated. -/
def Affords (e : Env) (a : App) (w : World) : Prop :=
  a.config.maxmemory = 0 ∨ e.used w.probes ≤ a.config.maxmemory ∨
    a.config.maxmemoryPolicy.evicts = false ∨ a.pool = [] ∨
    a.config.maxmemorySamples * candidateSize ≤ isizeMax

theorem sample_tooLarge (hpool : a.pool ≠ [])
    (hlarge : isizeMax < a.config.maxmemorySamples * candidateSize) :
    Act.Sat (Store.sample a.config.maxmemoryPolicy.volatileOnly a.config.maxmemorySamples) e a.store w
      (fun _ _ _ => False) (· = .capacity) := by
  have hempty : (if a.config.maxmemoryPolicy.volatileOnly then a.store.volatile
      else a.store.keys).isEmpty = false := by
    rw [Bool.eq_false_iff]
    exact fun h => hpool (List.isEmpty_iff.mp h)
  have hcount : a.config.maxmemorySamples ≠ 0 := by
    intro h
    rw [h] at hlarge
    omega
  unfold Store.sample minute
  simp only [Act.sat_bind, Act.sat_get, Act.sat_ite, Act.sat_pure, sat_now, sat_instantNow,
    Act.sat_panic, hempty, hcount, hlarge]
  simp

/-- Without keys to draw from a pass ends at once. -/
theorem evictLoop_noPool (hpool : a.pool = []) (hevicts : a.config.maxmemoryPolicy.evicts = true)
    (n : Nat) : Act.Sat (App.evictLoop a.config.maxmemoryPolicy n) e a w (fun _ _ _ => True)
      (fun _ => False) := by
  cases n with
  | zero => trivial
  | succ n =>
    have hempty : (if a.config.maxmemoryPolicy.volatileOnly then a.store.volatile
        else a.store.keys).isEmpty = true := List.isEmpty_iff.mpr hpool
    unfold App.evictLoop
    simp only [Act.sat_bind, Act.sat_get, Act.sat_ite, Act.sat_pure]
    refine ⟨fun _ => trivial, fun _ => ?_⟩
    simp only [App.onStore, Act.sat_zoom]
    unfold Store.sample
    simp only [Act.sat_bind, Act.sat_get]
    rw [if_pos (.inl hempty), Act.sat_pure, (choose_none_iff hevicts).mpr rfl]
    trivial

theorem evictLoop_affords (hs : Indexed a.store) (hevicts : a.config.maxmemoryPolicy.evicts = true)
    (n : Nat) : Act.Sat (App.evictLoop a.config.maxmemoryPolicy (n + 1)) e a w
      (fun _ _ _ => a.pool = [] ∨ a.config.maxmemorySamples * candidateSize ≤ isizeMax)
      (fun p => p = .capacity ∧
        ¬ (a.pool = [] ∨ a.config.maxmemorySamples * candidateSize ≤ isizeMax)) := by
  by_cases hpool : a.pool = []
  · exact Act.sat_mono (evictLoop_noPool hpool hevicts (n + 1)) (fun _ _ _ _ => .inl hpool)
      (fun _ h => h.elim)
  · by_cases hlarge : isizeMax < a.config.maxmemorySamples * candidateSize
    · unfold App.evictLoop
      simp only [Act.sat_bind, Act.sat_get, Act.sat_ite, Act.sat_pure]
      refine ⟨fun h => absurd ?_ hpool, fun _ => ?_⟩
      · unfold App.pool
        rw [if_pos h.1]
        exact List.isEmpty_iff.mp h.2
      · simp only [App.onStore, Act.sat_zoom]
        refine Act.sat_mono (sample_tooLarge hpool hlarge) (fun _ _ _ h => h.elim) (fun _ h => ?_)
        exact ⟨h, not_or.mpr ⟨hpool, not_le.mpr hlarge⟩⟩
    · exact Act.sat_mono (evictLoop_took (n + 1) a w hs hevicts)
        (fun _ _ _ _ => .inr (not_lt.mp hlarge)) (fun _ h => absurd h.2 hlarge)

theorem makeRoom_affords (hs : Indexed a.store) :
    Avoids .capacity App.makeRoom e a w ↔ Affords e a w := by
  have hends : Act.Sat App.makeRoom e a w (fun _ _ _ => Affords e a w)
      (fun p => p = .capacity ∧ ¬ Affords e a w) := by
    unfold App.makeRoom App.withinLimit Affords
    simp only [Act.sat_bind, Act.sat_get, Act.sat_ite, Act.sat_pure, sat_usedBytes]
    refine ⟨fun hzero => ⟨fun _ => .inl hzero, fun h => absurd trivial h⟩,
      fun hlimit => ⟨fun hused => ?_, fun hused => ⟨fun hevicts => ?_, fun hevicts => ?_⟩⟩⟩
    · exact .inr (.inl (of_decide_eq_true hused))
    · exact .inr (.inr (.inl (by simpa using hevicts)))
    · have hpolicy : a.config.maxmemoryPolicy.evicts = true := by simpa using hevicts
      have hover : ¬ e.used w.probes ≤ a.config.maxmemory := by simpa using hused
      refine Act.sat_mono (evictLoop_affords hs hpolicy 9999)
        (fun _ _ _ h => .inr (.inr (.inr h))) (fun p h => ⟨h.1, ?_⟩)
      rintro (h' | h' | h' | h')
      · exact hlimit h'
      · exact hover h'
      · rw [hpolicy] at h'
        cases h'
      · exact h.2 h'
  refine avoids_iff (Act.sat_mono hends (fun _ _ _ h => h) ?_)
  exact fun p h => ⟨fun _ => h.2, fun _ => h.1⟩

end eviction

/-! ## All of it -/

/-- Nothing that a configuration is read for panics. -/
def NeverCrashes (c : Config) : Prop :=
  (∀ argv e s w, Indexed s → Avoids .bounds (Generic.scan c argv).run e s w) ∧
    (∀ argv e s w, Indexed s → Avoids .bounds (Memories.scan c argv).run e s w) ∧
    ∀ e a w, Indexed a.store → a.config = c → Avoids .capacity App.makeRoom e a w

/-- Exactly which scans and evictions a configuration makes panic. -/
structure CrashesExactly (c : Config) : Prop where
  scan : ∀ argv e s w, Indexed s → (Avoids .bounds (Generic.scan c argv).run e s w ↔
    ∀ cursor count, ScanRequest c argv cursor count →
      Fits (s.liveEntries (e.clock w.ticks)).length cursor count)
  memScan : ∀ argv e s w, Indexed s → (Avoids .bounds (Memories.scan c argv).run e s w ↔
    ∀ cursor count filter, MemScanRequest c argv cursor count filter →
      FitsAt e w s (arg argv 1) cursor count)
  makeRoom : ∀ e a w, Indexed a.store → a.config = c →
    (Avoids .capacity App.makeRoom e a w ↔ Affords e a w)
  /-- A request with a `COUNT` fits. -/
  scanDefault : ∀ argv cursor count len, ScanRequest c argv cursor count → ¬ Fits len cursor count →
    count = c.scanDefaultCount
  memScanDefault : ∀ argv cursor count filter len, MemScanRequest c argv cursor count filter →
    ¬ Fits len cursor count → count = c.scanDefaultCount

theorem fits_of_le {len cursor count : Nat} (hcursor : (cursor : Int) ≤ i64Max)
    (hcount : (count : Int) ≤ i64Max) : Fits len cursor count := by
  refine .inr ?_
  show cursor + max count 1 ≤ u64Max
  have hmax : i64Max + i64Max ≤ (u64Max : Int) ∧ 1 ≤ i64Max := by decide
  omega

theorem ScanRequest.count_eq {c : Config} (hc : Sized c) {argv : List Bytes} {cursor count len : Nat}
    (h : ScanRequest c argv cursor count) (hfits : ¬ Fits len cursor count) :
    count = c.scanDefaultCount := by
  obtain ⟨pattern, n, hoptions, rfl⟩ := h.count
  rcases scanOptions_count hoptions with hn | ⟨hpos, hle⟩
  · have hsized := hc.2
    rw [hn]
    unfold wrapI64
    unfold u64Max at *
    omega
  · refine absurd (fits_of_le (scanCursor_le h.cursor) ?_) hfits
    have hmax : i64Max < (u64Max : Int) + 1 := by decide
    rw [Int.emod_eq_of_lt (by omega) (by omega), Int.toNat_of_nonneg (by omega)]
    exact hle

/-- **Which accepted settings crash the server.**  A scan that leaves `COUNT` out adds the
configured one to the cursor unchecked, and a sample is allocated unchecked; nothing else panics. -/
theorem accepts_crashesExactly {sets : List (String × String)} {c₀ c : Config} (hc₀ : Sized c₀)
    (h : accepts sets c₀ = some c) : CrashesExactly c := by
  have hc := sized_accepts hc₀ h
  refine ⟨fun argv e s w _ => scan_fits c argv s, fun argv e s w hs => memScan_fits hc.2 argv hs,
    fun e a w hs _ => makeRoom_affords hs,
    fun argv cursor count len h hfits => h.count_eq hc hfits, ?_⟩
  intro argv cursor count filter len h hfits
  refine (memScanOptions_count h.count).resolve_right fun hle => hfits ?_
  exact fits_of_le (parseI64_bounds h.cursor).2 hle

/-- The largest count a `CONFIG SET` takes. -/
def largestCount : List (String × String) := [("scan-default-count", "18446744073709551615")]

theorem accepts_largestCount :
    accepts largestCount {} = some { scanDefaultCount := u64Max : Config } := by
  decide +kernel

theorem accepts_crashesExactly_largest : CrashesExactly { scanDefaultCount := u64Max } :=
  accepts_crashesExactly ⟨by decide, by decide⟩ accepts_largestCount

/-- `SCAN 1` over two keys. -/
theorem scan_largestCount : Act.Sat (Generic.scan { scanDefaultCount := u64Max }
    [Text.bytes "SCAN", Text.bytes "1"]).run (stillEnv 5) fullApp.store {} (fun _ _ _ => False)
    (· = .bounds) := by
  decide +kernel

section

attribute [local irreducible] Act.Sat

/-- An accepted setting makes a scan panic. -/
theorem not_accepts_neverCrashes : ¬ ∀ (sets : List (String × String)) (c : Config),
    accepts sets {} = some c → NeverCrashes c := by
  intro h
  have havoids := (h _ _ accepts_largestCount).1 [Text.bytes "SCAN", Text.bytes "1"] (stillEnv 5)
    fullApp.store {} fullApp_indexed
  refine Act.not_sat_false _ (Act.sat_mono (Act.sat_and havoids scan_largestCount)
    (fun _ _ _ h => h.2) ?_)
  exact fun _ h => h.1 h.2

end

end Klyro
