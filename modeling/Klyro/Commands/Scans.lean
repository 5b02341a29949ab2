import Klyro.Commands.Extreme
import Klyro.Commands.Standing
import Klyro.Lib.Paging

/-!
# Scans cover everything once

A client iterates a scan from cursor `0`, with a `COUNT` of its choice each time, until the cursor it
is given is `0`.

* `iterate` — the client.
* `Covers P found` — `found` lists what `P` is true of, sorted and each once.
* `storeScan_page`, `memoryScan_page` — a scan shows one page of the sorted live keys or ids.
* `iterate_pages` — who turns all pages has seen the list.
* `scans_cover` — `SCAN` and `MEM.SCAN`.
-/

set_option autoImplicit false

namespace Klyro

open Store Keyspace

/-! ## The client -/

/-- The payload of a bulk string. -/
def bulkOf : Reply → Option Bytes
  | .bulk payload => some payload
  | _ => none

/-- The answer of a scan as a client reads it: the next cursor and the batch. -/
def batchOf : Reply → Option (Bytes × List Bytes)
  | .array [.bulk next, .array items] => (items.mapM bulkOf).map fun found => (next, found)
  | _ => none

/-- The cursor an iteration starts with, and the one it ends at. -/
def zeroCursor : Bytes := Text.bytes (showNat 0)

/-- A client iterates: the `i`-th command names the cursor of the last answer, until that is `0`.
`none` if `fuel` runs out first, or an answer is not one of a scan. -/
def iterate (ask : Nat → Bytes → Cmd Reply) : Nat → Nat → Bytes → Cmd (Option (List Bytes))
  | 0, _, _ => pure none
  | fuel + 1, i, cursor => do
    let reply ← ask i cursor
    match batchOf reply with
    | none => pure none
    | some (next, found) =>
      if next = zeroCursor then pure (some found)
      else do
        let rest ← iterate ask fuel (i + 1) next
        pure (rest.map fun rest => found ++ rest)

/-- `found` lists what `P` is true of, in order and each once. -/
structure Covers (P : Bytes → Prop) (found : List Bytes) : Prop where
  sorted : found.Pairwise fun a b => cmpBytes a b = .lt
  exactly : ∀ key, key ∈ found ↔ P key

/-! ## Cursors -/

section cursors

variable {n : Nat}

/-- A number is read back. -/
theorem parseI64_showNat (hn : (n : Int) ≤ i64Max) :
    parseI64 (Text.bytes (showNat n)) = some (n : Int) := by
  have hshow : Text.showInt (n : Int) = Nat.toDigits 10 n := by
    unfold Text.showInt
    rw [if_neg (by omega), Int.natAbs_natCast]
  unfold parseI64 Text.bytes showNat
  rw [String.toList_ofList, numberText_word (Text.word_toDigits n) (Text.ascii_toDigits n),
    Option.bind_some, ← hshow]
  refine Text.parseInt_showInt ⟨?_, hn⟩
  unfold i64Min
  omega

theorem scanCursor_showNat (hn : (n : Int) ≤ i64Max) :
    Generic.scanCursor (Text.bytes (showNat n)) = pure n := by
  unfold Generic.scanCursor
  rw [parseI64_showNat hn]
  dsimp only
  rw [if_pos (Int.natCast_nonneg n), Int.toNat_natCast]

theorem showNat_eq_zeroCursor (hn : (n : Int) ≤ i64Max) :
    Text.bytes (showNat n) = zeroCursor ↔ n = 0 := by
  constructor
  · intro h
    have hread := parseI64_showNat hn
    rw [h, zeroCursor, parseI64_showNat (by decide), Option.some.injEq] at hread
    omega
  · rintro rfl
    rfl

theorem batchOf_scan (n : Nat) (found : List Bytes) :
    batchOf (.array [.text (showNat n), .bulkArray found]) =
      some (Text.bytes (showNat n), found) := by
  have hitems : (found.map Reply.bulk).mapM bulkOf = some found := by
    induction found with
    | nil => rfl
    | cons payload found ih =>
      rw [List.map_cons, List.mapM_cons, ih]
      rfl
  show ((found.map Reply.bulk).mapM bulkOf).map _ = _
  rw [hitems, Option.map_some]

end cursors

/-! ## Turning the pages -/

section pages

variable {e : Env} {t : SystemTime} {K : Keyspace} {w : World}

/-- **Who turns all pages has seen the list.**  `ask` shows the pages of `xs`, or rather what of
them is worth showing; the sizes may differ from one to the next. -/
theorem iterate_pages (counts : Nat → Nat) {ask : Nat → Bytes → Cmd Reply} {xs : List Bytes}
    {keep : Bytes → Bool} (hlen : (xs.length : Int) ≤ i64Max) (hcounts : ∀ i, 1 ≤ counts i)
    (hask : ∀ i start, start ≤ xs.length → GivesE e t K (ask i (Text.bytes (showNat start)))
      (.ok (.array [.text (showNat (page xs start (counts i)).2),
        .bulkArray ((page xs start (counts i)).1.filter keep)])) K) :
    ∀ fuel i start, start ≤ xs.length → xs.length < start + fuel →
      GivesE e t K (iterate ask fuel i (Text.bytes (showNat start)))
        (.ok (some ((xs.drop start).filter keep))) K := by
  intro fuel
  induction fuel with
  | zero =>
    intro i start hle hfuel
    omega
  | succ fuel ih =>
    intro i start hle hfuel
    unfold iterate
    refine givesE_bind (hask i start hle) ?_
    rw [batchOf_scan]
    dsimp only
    by_cases hend : xs.length ≤ start + counts i
    · rw [page_last hend]
      dsimp only
      rw [if_pos (show Text.bytes (showNat 0) = zeroCursor from rfl)]
      exact givesE_pure _
    · obtain ⟨hnext, happend⟩ := page_next (not_le.mp hend)
      have hpos := hcounts i
      have hne : ¬ Text.bytes (showNat (start + counts i)) = zeroCursor := by
        rw [showNat_eq_zeroCursor (by omega)]
        omega
      rw [hnext, if_neg hne]
      refine givesE_bind (ih (i + 1) (start + counts i) (by omega) (by omega)) ?_
      rw [Option.map_some, ← List.filter_append, happend]
      exact givesE_pure _

/-- The end of a page is in range. -/
theorem stop_page {xs : List Bytes} {start count : Nat} (hlen : xs.length ≤ isizeMax)
    (hcount : 1 ≤ count ∧ (count : Int) ≤ i64Max) (h : start < xs.length) :
    Nat.min ((start + Nat.max count 1) % (u64Max + 1)) xs.length =
        min (start + count) xs.length ∧
      ¬ min (start + count) xs.length < start := by
  have hmax : Nat.max count 1 = count := Nat.max_eq_left hcount.1
  have hin : start + count < u64Max + 1 := by
    have hle := hcount.2
    unfold isizeMax at hlen
    unfold i64Max at hle
    unfold u64Max
    omega
  rw [hmax, Nat.mod_eq_of_lt hin]
  exact ⟨rfl, by omega⟩

end pages

/-! ## Snapshots -/

section snapshots

variable {P Q : Bytes → Prop} {xs ys : List Bytes}

/-- There is only one such list, however it was made. -/
theorem Covers.unique (hx : Covers P xs) (hy : Covers P ys) : xs = ys := by
  have hnodup : ∀ {zs}, Covers P zs → zs.Nodup := fun h =>
    h.sorted.imp fun hlt heq => by
      rw [heq, cmpBytes_self] at hlt
      cases hlt
  have hperm : xs.Perm ys := (List.perm_ext_iff_of_nodup (hnodup hx) (hnodup hy)).mpr fun key =>
    (hx.exactly key).trans (hy.exactly key).symm
  refine hperm.eq_of_pairwise ?_ hx.sorted hy.sorted
  intro a b _ _ hab hba
  rw [← cmpBytes_swap, hba] at hab
  cases hab

theorem Covers.congr (h : ∀ key, P key ↔ Q key) (hx : Covers P xs) : Covers Q xs :=
  ⟨hx.sorted, fun key => (hx.exactly key).trans (h key)⟩

theorem Covers.filter (keep : Bytes → Bool) (hx : Covers P xs) :
    Covers (fun key => P key ∧ keep key = true) (xs.filter keep) where
  sorted := hx.sorted.filter keep
  exactly key := by rw [List.mem_filter, hx.exactly]

/-- Sorting covers a list without repetitions. -/
theorem covers_sortBy (h : xs.Nodup) : Covers (· ∈ xs) (sortBy cmpBytes xs) where
  sorted := by
    have hnodup := (sortBy_perm cmpBytes xs).nodup_iff.mpr h
    refine (hnodup.and (sortBy_pairwise xs)).imp ?_
    rintro a b ⟨hne, hle⟩
    cases hcmp : cmpBytes a b with
    | lt => rfl
    | eq => exact absurd (cmpBytes_eq a b hcmp) hne
    | gt => exact absurd hcmp hle
  exactly key := mem_sortBy

end snapshots

/-! ## SCAN -/

section scan

variable {e : Env} {t : SystemTime} {K : Keyspace}

theorem liveEntries_covers (s : Store) (t : SystemTime) :
    Covers (fun key => (s.live t key).isSome = true)
      (sortBy cmpBytes ((s.liveEntries t).map Prod.fst)) := by
  refine (covers_sortBy ?_).congr fun key => ?_
  · unfold Store.liveEntries
    exact s.map.nodup_pairs_fst.sublist (List.filter_sublist.map _)
  · unfold live liveAt
    rw [due_view, List.mem_map]
    constructor
    · rintro ⟨⟨k, entry⟩, hp, rfl⟩
      obtain ⟨hmem, hlive⟩ := List.mem_filter.mp hp
      dsimp only at hlive ⊢
      unfold Store.view
      rw [Assoc.mem_pairs.mp hmem, Option.any_some, hlive]
      rfl
    · intro h
      unfold Store.view at h
      cases hl : s.map.lookup key with
      | none => simp [hl] at h
      | some entry =>
        cases hlive : entry.isLive t with
        | false => simp [hl, hlive] at h
        | true => exact ⟨(key, entry), List.mem_filter.mpr ⟨Assoc.mem_pairs.mpr hl, hlive⟩, rfl⟩

/-- **A scan shows one page of the sorted live keys.** -/
theorem storeScan_page (ht : e.StandsAt t) {keys : List Bytes} {start count : Nat}
    (hkeys : Covers (fun key => (K key).isSome = true) keys) (hlen : keys.length ≤ isizeMax)
    (hcount : 1 ≤ count ∧ (count : Int) ≤ i64Max) :
    Gives e t K (Store.scan start count) (page keys start count) K := by
  rintro s w hs rfl
  have hsame := hkeys.unique (liveEntries_covers s t)
  unfold Store.scan
  simp only [Act.sat_bind, sat_now, Act.sat_get, Act.sat_ite, Act.sat_pure, Act.sat_panic]
  rw [ht, ← hsame]
  refine ⟨fun hend => ⟨(page_nil hend).symm, hs, trivial⟩, fun hend => ?_⟩
  obtain ⟨hstop, hin⟩ := stop_page hlen hcount (not_le.mp hend)
  rw [hstop]
  exact ⟨fun hbad => hin hbad, fun _ => ⟨slice_page rfl, hs, trivial⟩⟩

/-- The words after the cursor name this pattern and this count. -/
def ScanWords (c : Config) (pattern : Option Bytes) (words : List Bytes) (count : Int) : Prop :=
  Generic.scanOptions words.length words (none, wrapI64 c.scanDefaultCount) = pure (pattern, count)

theorem scanWords_match (c : Config) (pattern : Bytes) {word : Bytes} {count : Int}
    (hcount : parseI64 word = some count) (hpos : 0 < count) :
    ScanWords c (some pattern) [Text.bytes "MATCH", pattern, Text.bytes "COUNT", word] count := by
  unfold ScanWords
  show Generic.scanOptions 4 _ _ = _
  unfold Generic.scanOptions
  dsimp only
  rw [if_pos (by decide)]
  unfold Generic.scanOptions
  dsimp only
  rw [if_neg (by decide), if_pos (by decide), intArg_eq hcount, pure_bind, if_pos hpos]
  rfl

/-- The `i`-th `SCAN` of an iteration. -/
def scanCall (c : Config) (words : Nat → List Bytes) (i : Nat) (cursor : Bytes) : Cmd Reply :=
  Generic.scan c (Text.bytes "SCAN" :: cursor :: words i)

theorem scanCall_page (ht : e.StandsAt t) {c : Config} {keys : List Bytes} {start : Nat}
    {pattern : Option Bytes} {words : Nat → List Bytes} {counts : Nat → Int} (i : Nat)
    (hkeys : Covers (fun key => (K key).isSome = true) keys) (hlen : keys.length ≤ isizeMax)
    (hstart : start ≤ keys.length) (hwords : ScanWords c pattern (words i) (counts i))
    (hcount : 1 ≤ counts i ∧ counts i ≤ i64Max) :
    GivesE e t K (scanCall c words i (Text.bytes (showNat start)))
      (.ok (.array [.text (showNat (page keys start (counts i).toNat).2),
        .bulkArray ((page keys start (counts i).toNat).1.filter fun key =>
          pattern.all fun pattern => globMatch pattern key)])) K := by
  have hmax : (start : Int) ≤ i64Max := by
    unfold isizeMax at hlen
    unfold i64Max
    omega
  have hmod : (counts i % (u64Max + 1)).toNat = (counts i).toNat := by
    have hle := hcount.2
    unfold i64Max at hle
    rw [Int.emod_eq_of_lt (by omega) (by unfold u64Max; omega)]
  unfold scanCall Generic.scan
  rw [minArgs_eq (by simp)]
  refine givesE_bind (givesE_pure ()) ?_
  rw [show arg (Text.bytes "SCAN" :: Text.bytes (showNat start) :: words i) 1 =
    Text.bytes (showNat start) from rfl, scanCursor_showNat hmax]
  refine givesE_bind (givesE_pure start) ?_
  rw [show (Text.bytes "SCAN" :: Text.bytes (showNat start) :: words i).drop 2 = words i from rfl,
    hwords]
  refine givesE_bind (givesE_pure _) ?_
  dsimp only
  rw [hmod]
  refine givesE_bind (givesE_lift (storeScan_page ht hkeys hlen (by omega))) ?_
  cases pattern with
  | none => exact givesE_pure _
  | some pattern => exact givesE_pure _

end scan

/-! ## MEM.SCAN -/

section memScan

variable {e : Env} {t : SystemTime} {K : Keyspace}

theorem liveIds_covers {m : Memory} (hm : m.Keyed) (t : SystemTime) :
    Covers (fun id => ∃ r, m.records.lookup id = some r ∧ r.isLive t = true) (m.liveIds t) := by
  have hids : ((m.records.pairs.filter fun p => p.2.isLive t).map fun p => p.2.id) =
      (m.records.pairs.filter fun p => p.2.isLive t).map Prod.fst := by
    refine List.map_congr_left fun p hp => ?_
    exact hm p.1 p.2 (Assoc.mem_pairs.mp (List.mem_of_mem_filter hp))
  unfold Memory.liveIds
  rw [hids]
  refine (covers_sortBy ?_).congr fun id => ?_
  · exact m.records.nodup_pairs_fst.sublist (List.filter_sublist.map _)
  · rw [List.mem_map]
    constructor
    · rintro ⟨⟨k, r⟩, hp, rfl⟩
      obtain ⟨hmem, hlive⟩ := List.mem_filter.mp hp
      exact ⟨r, Assoc.mem_pairs.mp hmem, hlive⟩
    · rintro ⟨r, hr, hlive⟩
      exact ⟨(id, r), List.mem_filter.mpr ⟨Assoc.mem_pairs.mpr hr, hlive⟩, rfl⟩

/-- The record of `id` passes. -/
def passes (m : Memory) (filter : Filter) (t : SystemTime) (id : Bytes) : Bool :=
  (m.records.lookup id).any fun r => filter.accepts r t

/-- **A scan shows what passes of one page of the sorted live ids.** -/
theorem memoryScan_page (ht : e.StandsAt t) (m : Memory) {start count : Nat} (filter : Filter)
    (hlen : (m.liveIds t).length ≤ isizeMax) (hcount : 1 ≤ count ∧ (count : Int) ≤ i64Max)
    (w : World) :
    Act.Sat (Memory.scan start count filter) e m w
      (fun r m' _ => r = ((page (m.liveIds t) start count).1.filter (passes m filter t),
        (page (m.liveIds t) start count).2) ∧ m' = m) (fun _ => False) := by
  unfold Memory.scan Memory.sortedIds
  simp only [Act.sat_bind, sat_now, Act.sat_get, Act.sat_ite, Act.sat_pure, Act.sat_panic]
  rw [ht, ht]
  refine ⟨fun hend => ⟨by rw [page_nil hend]; rfl, trivial⟩, fun hend => ?_⟩
  obtain ⟨hstop, hin⟩ := stop_page hlen hcount (not_le.mp hend)
  rw [hstop]
  refine ⟨fun hbad => hin hbad, fun _ => ⟨?_, trivial⟩⟩
  rw [← slice_page rfl]
  rfl

/-- An index in place is used and stays as it is. -/
theorem givesE_index (ht : e.StandsAt t) {α : Type} {key : Bytes} {m : Memory}
    {d : Option SystemTime} (hlive : K key = some (.memory m, d)) {use : Run Memory α} {a : α}
    (huse : ∀ w, Act.Sat use e m w (fun a' m' _ => a' = a ∧ m' = m) (fun _ => False)) :
    GivesE e t K (Memories.index key use) (.ok a) K := by
  unfold Memories.index
  refine givesE_bind (givesE_lift (gives_peekType ht key)) ?_
  rw [hlive, Option.map_some]
  dsimp only [Value.typeOf]
  have hfound : Gives e t K (Store.existingMemory key use) (some a) K := by
    rintro s w hs rfl
    refine sat_existingMemory (fun p hp => hp.2 hs) ?_ ?_
    · intro s' w' _ hother _ _
      rw [ht] at hother
      exact absurd hlive (hother m d)
    · intro m' d' s' w' _ hlive' hview hidx
      rw [ht] at hlive' hview
      obtain ⟨rfl, rfl⟩ := wrap_eq (V := .memory) (hlive.symm.trans hlive')
      refine Act.sat_mono (huse w') ?_ (fun _ h => h)
      rintro _ used _ ⟨rfl, hused⟩
      rw [hused]
      refine ⟨rfl, (hidx hs).setValue, ?_⟩
      have hput : s'.view = Function.update s.view key (some (.memory m', d')) := by
        rw [hview, ← hlive]
        rfl
      have hsame := live_put (V := .memory) (fun m => m) hput (pruned_of_live hlive)
      refine hsame.trans ?_
      rw [show some (Variant.memory.wrap m', d') = s.live t key from hlive.symm,
        Function.update_eq_self]
  refine givesE_bind (givesE_lift hfound) ?_
  exact givesE_pure a

/-- The words after the cursor name this filter and this count. -/
def MemScanWords (c : Config) (filter : Filter) (words : List Bytes) (count : Nat) : Prop :=
  Memories.scanOptions words.length words (c.scanDefaultCount, []) = pure (count, filter)

theorem memScanWords_count (c : Config) {word : Bytes} {count : Nat}
    (hcount : parseI64 word = some (count : Int)) (hpos : 1 ≤ count) :
    MemScanWords c [] [Text.bytes "COUNT", word] count := by
  unfold MemScanWords
  show Memories.scanOptions 2 _ _ = _
  unfold Memories.scanOptions
  rw [if_pos (by decide)]
  show (intArg word >>= _) = _
  rw [intArg_eq hcount, pure_bind, if_neg (by omega), Int.toNat_natCast]
  rfl

/-- The `i`-th `MEM.SCAN` of an iteration. -/
def memScanCall (c : Config) (key : Bytes) (words : Nat → List Bytes) (i : Nat) (cursor : Bytes) :
    Cmd Reply :=
  Memories.scan c (Text.bytes "MEM.SCAN" :: key :: cursor :: words i)

theorem memScanCall_page (ht : e.StandsAt t) {c : Config} {key : Bytes} {m : Memory}
    {d : Option SystemTime} (hlive : K key = some (.memory m, d)) {start : Nat}
    {filter : Filter} {words : Nat → List Bytes} {counts : Nat → Nat} (i : Nat)
    (hlen : (m.liveIds t).length ≤ isizeMax) (hstart : start ≤ (m.liveIds t).length)
    (hwords : MemScanWords c filter (words i) (counts i))
    (hcount : 1 ≤ counts i ∧ (counts i : Int) ≤ i64Max) :
    GivesE e t K (memScanCall c key words i (Text.bytes (showNat start)))
      (.ok (.array [.text (showNat (page (m.liveIds t) start (counts i)).2),
        .bulkArray ((page (m.liveIds t) start (counts i)).1.filter (passes m filter t))])) K := by
  have hmax : (start : Int) ≤ i64Max := by
    unfold isizeMax at hlen
    unfold i64Max
    omega
  unfold memScanCall Memories.scan
  rw [minArgs_eq (by simp)]
  refine givesE_bind (givesE_pure ()) ?_
  rw [show arg (Text.bytes "MEM.SCAN" :: key :: Text.bytes (showNat start) :: words i) 2 =
    Text.bytes (showNat start) from rfl, intArg_eq (parseI64_showNat hmax)]
  refine givesE_bind (givesE_pure (start : Int)) ?_
  rw [if_neg (by omega)]
  rw [show (Text.bytes "MEM.SCAN" :: key :: Text.bytes (showNat start) :: words i).drop 3 =
    words i from rfl, hwords]
  refine givesE_bind (givesE_pure _) ?_
  dsimp only
  rw [Int.toNat_natCast]
  refine givesE_bind (givesE_index ht hlive (memoryScan_page ht m filter hlen hcount)) ?_
  exact givesE_pure _

end memScan

/-! ## Both scans -/

/-- **Every scan covers everything once.**  While the clock stands and nothing else is run, an
iteration ends, after as many commands as there are keys or ids and one more at most, and what it
shows is the live keys that match or the live ids that pass, in order and each once — with a count of
the client's choice in every command. -/
theorem scans_cover {e : Env} {t : SystemTime} (ht : e.StandsAt t) (c : Config) (s : Store)
    (hs : Indexed s) :
    ((s.liveEntries t).length ≤ isizeMax → ∀ pattern : Option Bytes, ∃ found,
      Covers (fun key => (s.live t key).isSome = true ∧
        (pattern.all fun pattern => globMatch pattern key) = true) found ∧
      ∀ (words : Nat → List Bytes) (counts : Nat → Int),
        (∀ i, ScanWords c pattern (words i) (counts i) ∧ 1 ≤ counts i ∧ counts i ≤ i64Max) →
        ∀ fuel w, (s.liveEntries t).length < fuel →
          Act.Sat (iterate (scanCall c words) fuel 0 zeroCursor).run e s w
            (fun r s' _ => r = .ok (some found) ∧ s'.live t = s.live t) (fun _ => False)) ∧
    (∀ key m d, s.live t key = some (.memory m, d) → m.Keyed → (m.liveIds t).length ≤ isizeMax →
      ∀ filter : Filter, ∃ found,
      Covers (fun id => ∃ r, m.records.lookup id = some r ∧ r.isLive t = true ∧
        filter.accepts r t = true) found ∧
      ∀ (words : Nat → List Bytes) (counts : Nat → Nat),
        (∀ i, MemScanWords c filter (words i) (counts i) ∧ 1 ≤ counts i ∧
          (counts i : Int) ≤ i64Max) →
        ∀ fuel w, (m.liveIds t).length < fuel →
          Act.Sat (iterate (memScanCall c key words) fuel 0 zeroCursor).run e s w
            (fun r s' _ => r = .ok (some found) ∧ s'.live t = s.live t) (fun _ => False)) := by
  constructor
  · intro hlen pattern
    have hkeys := liveEntries_covers s t
    generalize hxs : sortBy cmpBytes ((s.liveEntries t).map Prod.fst) = keys at hkeys
    have hsize : keys.length = (s.liveEntries t).length := by
      rw [← hxs, (sortBy_perm _ _).length_eq, List.length_map]
    refine ⟨_, hkeys.filter _, fun words counts hwords fuel w hfuel => ?_⟩
    have hpages : GivesE e t (s.live t) (iterate (scanCall c words) fuel 0 zeroCursor)
        (.ok (some ((keys.drop 0).filter fun key =>
          pattern.all fun pattern => globMatch pattern key))) (s.live t) := by
      refine iterate_pages (fun i => (counts i).toNat) ?_ ?_ ?_ fuel 0 0 ?_ ?_
      · unfold isizeMax at hlen
        unfold i64Max
        omega
      · intro i
        have hpos := (hwords i).2.1
        omega
      · exact fun i start hstart =>
          scanCall_page ht i hkeys (by omega) hstart (hwords i).1 (hwords i).2
      · exact Nat.zero_le _
      · omega
    refine Act.sat_mono (hpages s w hs rfl) ?_ (fun _ h => h)
    rintro r s' _ ⟨hr, -, hlive⟩
    exact ⟨hr, hlive⟩
  · intro key m d hkey hm hlen filter
    have hcovers := (liveIds_covers hm t).filter (passes m filter t)
    refine ⟨_, hcovers.congr ?_, fun words counts hwords fuel w hfuel => ?_⟩
    · intro id
      unfold passes
      cases hr : m.records.lookup id with
      | none => simp
      | some r => simp
    · have hpages : GivesE e t (s.live t) (iterate (memScanCall c key words) fuel 0 zeroCursor)
          (.ok (some (((m.liveIds t).drop 0).filter (passes m filter t)))) (s.live t) := by
        refine iterate_pages counts ?_ (fun i => (hwords i).2.1) ?_ fuel 0 0 ?_ ?_
        · unfold isizeMax at hlen
          unfold i64Max
          omega
        · exact fun i start hstart =>
            memScanCall_page ht hkey i hlen hstart (hwords i).1 (hwords i).2
        · exact Nat.zero_le _
        · omega
      refine Act.sat_mono (hpages s w hs rfl) ?_ (fun _ h => h)
      rintro r s' _ ⟨hr, -, hlive⟩
      exact ⟨hr, hlive⟩

/-! ## A run -/

/-- Two records without a vector. -/
def twoNotes : Memory where
  config := MemoryConfig.new .search 1 .l2
  records := ((∅ : Assoc Bytes MemoryRecord).insert [2] (MemoryRecord.new [2] [] 0)).insert [1]
    (MemoryRecord.new [1] [] 0)
  vectors := { dim := 1, metric := .l2 }

theorem twoNotes_keyed : twoNotes.Keyed := by
  intro id r hr
  simp only [twoNotes, Assoc.lookup_insert_eq] at hr
  split at hr
  · cases hr
    exact ‹id = [1]›.symm
  · split at hr
    · cases hr
      exact ‹id = [2]›.symm
    · cases hr

/-- The notes beside a string. -/
def notesStore : Store where
  map := ((∅ : Assoc Bytes Entry).insert [98] ⟨.memory twoNotes, none, 0, none, Access.new 0 0⟩).insert
    [97] ⟨.str [118], none, 1, none, Access.new 0 0⟩
  keys := [[98], [97]]

section instances

attribute [local irreducible] Act.Sat

/-- One element at a time. -/
theorem scans_cover_notes :
    (∃ found, Covers (fun key => (notesStore.live 5 key).isSome = true ∧
        globMatch [42] key = true) found ∧
      Act.Sat (iterate (scanCall {} fun _ => [Text.bytes "MATCH", [42], Text.bytes "COUNT", [49]])
          3 0 zeroCursor).run (stillEnv 5) notesStore {}
        (fun r s' _ => r = .ok (some found) ∧ s'.live 5 = notesStore.live 5) (fun _ => False)) ∧
    (∃ found, Covers (fun id => ∃ r, twoNotes.records.lookup id = some r ∧ r.isLive 5 = true ∧
        Filter.accepts [] r 5 = true) found ∧
      Act.Sat (iterate (memScanCall {} [98] fun _ => [Text.bytes "COUNT", [49]]) 3 0 zeroCursor).run
        (stillEnv 5) notesStore {}
        (fun r s' _ => r = .ok (some found) ∧ s'.live 5 = notesStore.live 5) (fun _ => False)) := by
  have hidx : Indexed notesStore := by decide +kernel
  have hone : parseI64 [49] = some 1 := by decide +kernel
  obtain ⟨hscan, hmem⟩ := scans_cover (e := stillEnv 5) (t := 5) (fun _ => rfl) {} notesStore hidx
  constructor
  · obtain ⟨found, hfound, hrun⟩ := hscan (by decide +kernel) (some [42])
    refine ⟨found, hfound, hrun _ (fun _ => 1) (fun _ => ?_) 3 {} (by decide +kernel)⟩
    exact ⟨scanWords_match {} [42] hone (by decide), by decide, by decide⟩
  · obtain ⟨found, hfound, hrun⟩ := hmem [98] twoNotes none rfl twoNotes_keyed (by decide +kernel) []
    refine ⟨found, hfound, hrun _ (fun _ => 1) (fun _ => ?_) 3 {} (by decide +kernel)⟩
    exact ⟨memScanWords_count {} hone (by decide), by decide, by decide⟩

end instances

end Klyro
