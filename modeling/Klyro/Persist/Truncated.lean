import Klyro.Persist.CutMemory
import Klyro.Persist.RoundTrip

/-!
# Truncated dumps

A dump of which only the first bytes are left is loaded into an empty store.

* `LosesOnlyTail` — what is meant: the keys whose records are whole are installed, and no key is
  installed with another value than the whole dump gives it.
* `CutOk` — where the cut may fall for that.  A cut inside a blob is an input error that drops the
  whole file; a cut between the elements of a collection, inside a score or inside the next id of
  an empty index installs a value that was never saved.
* `truncated_load_iff` — the load of a truncated dump loses only the tail exactly when the cut is
  one of those.
-/

set_option autoImplicit false

namespace Klyro

open Store Keyspace DumpReader

/-! ## Where a cut does no harm -/

/-- The bytes of a record before its value. -/
def Record.headBytes (r : Record) : Nat :=
  (wordLine r.headerWords).bytes.length + (Piece.blob r.key).bytes.length

/-- How many records lie wholly in the first `n` bytes. -/
def wholeRecords : List Record → Nat → Nat
  | [], _ => 0
  | r :: rs, n => if r.bytes.length ≤ n then wholeRecords rs (n - r.bytes.length) + 1 else 0

namespace Payload

/-- With `n` bytes left of the pieces of a value, no other value is read: a collection has lost
all of its elements or none, a shortened score is the score, and the next id of an index without
records is not cut. -/
def Harmless : Payload → Nat → Prop
  | .str _, _ => True
  | .list items, n | .set items, n =>
    wholeCount (items.map .blob) n = 0 ∨ wholeCount (items.map .blob) n = items.length
  | .hash pairs, n =>
    wholeCount (pairPieces pairs) n / 2 = 0 ∨ wholeCount (pairPieces pairs) n / 2 = pairs.length
  | .zset pairs, n =>
    (shortScore (scoredPieces pairs) n = none → wholeCount (scoredPieces pairs) n / 2 = 0 ∨
        wholeCount (scoredPieces pairs) n / 2 = pairs.length) ∧
      ∀ x ∈ shortScore (scoredPieces pairs) n,
        (pairs.drop (wholeCount (scoredPieces pairs) n / 2)).map Prod.snd = [x]
  | .memory config nextId records, n => records = [] → ¬ ShortConfig config nextId n

instance : ∀ (p : Payload) (n : Nat), Decidable (p.Harmless n)
  | .str _, _ => inferInstanceAs (Decidable True)
  | .list _, _ | .set _, _ | .hash _, _ => inferInstanceAs (Decidable (_ ∨ _))
  | .zset _, _ => inferInstanceAs (Decidable (_ ∧ ∀ x ∈ shortScore _ _, _))
  | .memory config nextId records, n =>
    inferInstanceAs (Decidable (records = [] → ¬ ShortConfig config nextId n))

end Payload

/-- Where a dump may be cut after `n` bytes of its records, when it is loaded from reading `i` of
the clock on. -/
def CutOk (maxTerms : Nat) (c : Nat → SystemTime) : Nat → List Record → Nat → Prop
  | _, [], _ => True
  | i, r :: rs, n =>
    if r.bytes.length ≤ n then
      (Refused (rs.flatMap Record.pieces) (n - r.bytes.length) → (r.loaded maxTerms).shown c i = none) ∧
        CutOk maxTerms c (i + (r.loaded maxTerms).readings + 1) rs (n - r.bytes.length)
    else
      Refused r.pieces n ∨ r.payload.Harmless (n - r.headBytes) ∨ (r.loaded maxTerms).shown c i = none

instance (maxTerms : Nat) (c : Nat → SystemTime) :
    ∀ (rs : List Record) (i n : Nat), Decidable (CutOk maxTerms c i rs n)
  | [], _, _ => inferInstanceAs (Decidable True)
  | r :: rs, i, n => by
    have := instDecidableCutOk maxTerms c rs (i + (r.loaded maxTerms).readings + 1) (n - r.bytes.length)
    unfold CutOk
    infer_instance

/-- The keyspace after a load that loses only what follows the cut: `shown` is what the whole dump
leaves, record by record, and the first `whole` records are wholly there. -/
structure LosesOnlyTail (shown : List (Bytes × Option (Value × Option SystemTime))) (whole : Nat)
    (K : Keyspace) : Prop where
  installed : ∀ x ∈ shown.take whole, K x.1 = x.2
  nothingElse : ∀ key y, K key = some y → (key, some y) ∈ shown

/-! ## The value of a record that is cut -/

/-- The values that may be read from the first `n` bytes of the pieces of a value. -/
def Payload.LeftAs (maxTerms : Nat) : Payload → Nat → LoadedValue → Prop
  | .str value, _, v => v = .str value
  | .list items, n, v => v = .list (items.take (wholeCount (items.map .blob) n))
  | .set items, n, v => v = .set (items.take (wholeCount (items.map .blob) n))
  | .hash pairs, n, v => v = .hash (pairs.take (wholeCount (pairPieces pairs) n / 2))
  | .zset pairs, n, v => v = .zset (scoredLeft pairs n)
  | .memory config nextId records, n, v =>
    ((records = [] → ¬ ShortConfig config nextId n) ∧
        v = .memory (rebuilt maxTerms config nextId records)) ∨
      (records = [] ∧ ShortConfig config nextId n ∧
        ∃ k, 0 < k ∧ k < nextId ∧ v = .memory (shortMemory config nextId k))

/-- No field, member or element of a set is written twice. -/
def Payload.Distinct : Payload → Prop
  | .hash pairs => (pairs.map Prod.fst).Nodup
  | .set members => members.Nodup
  | .zset pairs => (pairs.map Prod.fst).Nodup
  | _ => True

section value

variable {e : Env} {w : World} {R : Panic → Prop} {E : IoError → Bytes → World → Prop} {n : Nat}

/-- Without a line that is whole nothing is known of the next id. -/
theorem shortConfig_whole {config : MemoryConfig} {nextId : Nat} {ps : List Piece}
    (h : 0 < wholeCount (wordLine (Payload.configWords config nextId) :: ps) n) :
    ¬ ShortConfig config nextId n := by
  rintro ⟨hlt, -⟩
  cases hr : (wordLine (Payload.configWords config nextId)).readable n with
  | false =>
    rw [wholeCount_torn hr] at h
    exact absurd h (Nat.lt_irrefl 0)
  | true =>
    unfold wordLine at hr
    simp only [Piece.readable, Bool.and_eq_true, decide_eq_true_eq,
      Text.utf8_ascii (lineText_unwords (asciiWord_config config nextId)).ascii, List.length_map] at hr
    omega

/-- **The value of a record that is cut**: one that `LeftAs` allows, or none where that does no
harm. -/
theorem sat_readValueCut {p : Payload} {maxTerms : Nat} {Q : Option LoadedValue → Bytes → World → Prop}
    (h : p.Fits) (hnone : ¬ Refused p.pieces n → p.Harmless n → ∀ s, Q none s w)
    (hsome : ¬ Refused p.pieces n → ∀ v, p.LeftAs maxTerms n v → Q (some v) [] w)
    (herr : Refused p.pieces n → ∀ s, E .unexpectedEof s w) :
    Act.SatE (readValue (p.count.getD 0) maxTerms p.kind) e (cut p.pieces n) w Q E R := by
  cases p with
  | str value =>
    unfold Payload.kind readValue
    simp only [Act.satE_bind, Act.satE_pure]
    refine sat_blobCut h ?_ ?_ ?_
    · rintro rfl
      exact hnone (not_refused_zero _) trivial []
    · intro hr
      rw [cut_nil]
      exact hsome (fun hc => not_refused_nil ((refused_cons hr).mp hc)) _ rfl
    · exact fun hr hpos => herr ((refused_blob hr).mpr hpos)
  | list items =>
    unfold Payload.kind readValue
    simp only [Act.satE_bind, Act.satE_pure]
    refine sat_withCapacity h.1 (sat_blobsCut h.2 ?_ herr)
    exact fun hnot => hsome hnot _ rfl
  | set members =>
    unfold Payload.kind readValue
    simp only [Act.satE_bind, Act.satE_pure]
    refine sat_withCapacity h.1 (sat_blobsCut h.2 ?_ herr)
    exact fun hnot => hsome hnot _ rfl
  | hash pairs =>
    unfold Payload.kind readValue
    simp only [Act.satE_bind, Act.satE_pure]
    refine sat_withCapacity h.1 (sat_pairsCut h.2 ?_ herr)
    exact fun hnot => hsome hnot _ rfl
  | zset pairs =>
    unfold Payload.kind readValue
    simp only [Act.satE_bind, Act.satE_pure]
    refine sat_withCapacity h.1 (sat_scoredCut h.2 ?_ herr)
    exact fun hnot => hsome hnot _ rfl
  | memory config nextId records =>
    unfold Payload.kind readValue
    simp only [Act.satE_bind, Act.satE_pure]
    refine sat_readMemoryCut h rfl ?_ ?_ ?_ herr
    · exact fun hnot _ hshort => hnone hnot hshort
    · intro hrec hshort k hk hkn
      refine hsome ?_ _ (.inr ⟨hrec, hshort, k, hk, hkn, rfl⟩)
      subst hrec
      refine refused_line ?_
      simp only [Piece.readable, Bool.and_eq_false_iff, decide_eq_false_iff_not,
        Text.utf8_ascii (lineText_unwords (asciiWord_config config nextId)).ascii, List.length_map]
      exact .inl (Nat.not_le.mpr hshort.1)
    · intro hall
      have hpos : 0 < wholeCount (Payload.memory config nextId records).pieces n := by
        rw [hall]
        exact Nat.zero_lt_succ _
      exact hsome (not_refused_whole hall) _ (.inl ⟨fun _ => shortConfig_whole hpos, rfl⟩)

end value

section harm

variable {p : Payload} {maxTerms n : Nat} {v : LoadedValue}

theorem Payload.LeftAs.readings (h : p.LeftAs maxTerms n v) :
    v.readings = (p.loaded maxTerms).readings := by
  cases p with
  | str value => rw [h]; rfl
  | list items => rw [h]; rfl
  | set items => rw [h]; rfl
  | hash pairs => rw [h]; rfl
  | zset pairs => rw [h]; rfl
  | memory config nextId records =>
    rcases h with ⟨-, rfl⟩ | ⟨-, -, k, -, -, rfl⟩
    · rfl
    · rfl

theorem setPairs_take (items : List Bytes) (k : Nat) :
    (items.take k).map (fun m => (m, ())) = (items.map fun m => (m, ())).take k := List.map_take

theorem setPairs_nodup {items : List Bytes} (h : items.Nodup) :
    ((items.map fun m => (m, ())).map Prod.fst).Nodup := by
  rw [List.map_map]
  exact h.map Function.injective_id

/-- A value that is left where the cut does no harm is the whole value, or an empty one. -/
theorem Payload.LeftAs.harmless (h : p.LeftAs maxTerms n v) (hn : p.Harmless n) :
    v.value = (p.loaded maxTerms).value ∨ v.value.isEmptyCollection = true := by
  cases p with
  | str value => exact .inl (by rw [h]; rfl)
  | list items =>
    subst h
    rcases hn with h0 | hall
    · exact .inr (by rw [h0]; rfl)
    · exact .inl (by rw [hall, List.take_length]; rfl)
  | set items =>
    subst h
    rcases hn with h0 | hall
    · exact .inr (by rw [h0]; rfl)
    · exact .inl (by rw [hall, List.take_length]; rfl)
  | hash pairs =>
    subst h
    rcases hn with h0 | hall
    · exact .inr (by rw [h0]; rfl)
    · exact .inl (by rw [hall, List.take_length]; rfl)
  | zset pairs =>
    subst h
    obtain ⟨hwhole, hshort⟩ := hn
    cases hs : shortScore (scoredPieces pairs) n with
    | none =>
      rw [scoredLeft_whole hs]
      rcases hwhole hs with h0 | hall
      · exact .inr (by rw [h0]; rfl)
      · exact .inl (by rw [hall, List.take_length]; rfl)
    | some x =>
      obtain ⟨q, rest, hdrop, hleft⟩ := scoredLeft_short hs
      have hx := hshort x hs
      rw [hdrop, List.map_cons, List.cons.injEq, List.map_eq_nil_iff] at hx
      obtain ⟨rfl, rfl⟩ := hx
      have hpairs : scoredLeft pairs n = pairs := by
        rw [hleft, ← hdrop, List.take_append_drop]
      exact .inl (by rw [hpairs]; rfl)
  | memory config nextId records =>
    rcases h with ⟨-, rfl⟩ | ⟨hrec, hs, -⟩
    · exact .inl rfl
    · exact absurd hs (hn hrec)

/-- A value that is left where the cut does harm is another value, and both are there. -/
structure Harmed (v v' : Value) : Prop where
  differ : v' ≠ v
  whole : v.isEmptyCollection = false
  left : v'.isEmptyCollection = false

theorem harmed_list {items : List Bytes} {k : Nat} (h0 : k ≠ 0) (hk : k < items.length) :
    Harmed (.list items) (.list (items.take k)) := by
  have hne : items ≠ [] := by
    rintro rfl
    exact absurd hk (Nat.not_lt_zero k)
  refine ⟨fun heq => ?_, ?_, ?_⟩
  · injection heq with heq
    have := congrArg List.length heq
    rw [List.length_take] at this
    omega
  · simpa [Value.isEmptyCollection] using hne
  · simpa [Value.isEmptyCollection] using ⟨h0, hne⟩

theorem harmed_assoc {ν : Type} {pairs : List (Bytes × ν)} {k : Nat} (wrap : Assoc Bytes ν → Value)
    (hinj : ∀ m m', wrap m = wrap m' → m = m') (hempty : ∀ m, (wrap m).isEmptyCollection = m.isEmpty)
    (hd : (pairs.map Prod.fst).Nodup) (h0 : k ≠ 0) (hk : k < pairs.length) :
    Harmed (wrap (Assoc.insertAll pairs ∅)) (wrap (Assoc.insertAll (pairs.take k) ∅)) := by
  have hne : pairs ≠ [] := by
    rintro rfl
    exact absurd hk (Nat.not_lt_zero k)
  refine ⟨fun heq => Assoc.insertAll_take_ne hd hk (hinj _ _ heq), ?_, ?_⟩
  · rw [hempty, Assoc.isEmpty_insertAll]
    simpa using hne
  · rw [hempty, Assoc.isEmpty_insertAll]
    simpa using ⟨h0, hne⟩

theorem harmed_zset {pairs left : List (Bytes × F64)} (hd : (pairs.map Prod.fst).Nodup)
    (hd' : (left.map Prod.fst).Nodup) (hne : pairs ≠ []) (hne' : left ≠ [])
    (hperm : ¬ left.Perm pairs) :
    Harmed (.zset (Zset.addAll pairs {})) (.zset (Zset.addAll left {})) := by
  have hp := Zset.addAll_perm pairs {} hd
  have hp' := Zset.addAll_perm left {} hd'
  refine ⟨fun heq => hperm ?_, ?_, ?_⟩
  · injection heq with heq
    rw [heq] at hp'
    exact hp'.symm.trans hp
  · have := hp.length_eq
    have := List.length_pos_iff.mpr hne
    simp only [Value.isEmptyCollection, Zset.size, beq_eq_false_iff_ne]
    simp only [List.nil_append] at *
    omega
  · have := hp'.length_eq
    have := List.length_pos_iff.mpr hne'
    simp only [Value.isEmptyCollection, Zset.size, beq_eq_false_iff_ne]
    simp only [List.nil_append] at *
    omega

theorem Payload.LeftAs.harmed (h : p.LeftAs maxTerms n v) (hfit : p.Fits) (hd : p.Distinct)
    (hn : ¬ p.Harmless n) :
    Harmed (p.loaded maxTerms).value v.value := by
  cases p with
  | str value => exact absurd trivial hn
  | list items =>
    subst h
    obtain ⟨h0, hall⟩ := not_or.mp hn
    have hle := wholeCount_le (items.map .blob) n
    rw [List.length_map] at hle
    exact harmed_list h0 (Nat.lt_of_le_of_ne hle hall)
  | set items =>
    subst h
    obtain ⟨h0, hall⟩ := not_or.mp hn
    have hle := wholeCount_le (items.map .blob) n
    rw [List.length_map] at hle
    unfold LoadedValue.value Payload.loaded
    dsimp only
    rw [setPairs_take]
    refine harmed_assoc .set (fun m m' hm => by injection hm) (fun _ => rfl) (setPairs_nodup hd) h0 ?_
    rw [List.length_map]
    exact Nat.lt_of_le_of_ne hle hall
  | hash pairs =>
    subst h
    obtain ⟨h0, hall⟩ := not_or.mp hn
    have hle := wholeCount_le (pairPieces pairs) n
    rw [length_pairPieces] at hle
    exact harmed_assoc .hash (fun m m' hm => by injection hm) (fun _ => rfl) hd h0 (by omega)
  | zset pairs =>
    subst h
    have hle := wholeCount_le (scoredPieces pairs) n
    rw [length_scoredPieces] at hle
    cases hs : shortScore (scoredPieces pairs) n with
    | none =>
      have hk : wholeCount (scoredPieces pairs) n / 2 ≠ 0 ∧
          wholeCount (scoredPieces pairs) n / 2 ≠ pairs.length := by
        refine not_or.mp fun hor => hn ⟨fun _ => hor, ?_⟩
        rw [hs]
        exact fun x hx => absurd hx (by simp)
      have hlen : (scoredLeft pairs n).length = wholeCount (scoredPieces pairs) n / 2 := by
        rw [scoredLeft_whole hs, List.length_take]
        omega
      refine harmed_zset hd ?_ ?_ ?_ ?_
      · rw [scoredLeft_whole hs]
        exact hd.sublist ((List.take_sublist _ _).map _)
      · rintro rfl
        simp only [List.length_nil] at hle hk
        omega
      · intro hnil
        rw [hnil] at hlen
        exact hk.1 hlen.symm
      · intro hperm
        have := hperm.length_eq
        omega
    | some x =>
      obtain ⟨q, rest, hdrop, hleft⟩ := scoredLeft_short hs
      have hsplit := List.take_append_drop (wholeCount (scoredPieces pairs) n / 2) pairs
      rw [hdrop] at hsplit
      have hmap : List.Sublist ((scoredLeft pairs n).map Prod.fst)
          ((pairs.take (wholeCount (scoredPieces pairs) n / 2) ++ q :: rest).map Prod.fst) := by
        rw [hleft, List.map_append, List.map_append]
        exact List.Sublist.append_left (by simp) _
      rw [hsplit] at hmap
      refine harmed_zset hd (hd.sublist hmap) ?_ ?_ ?_
      · rintro rfl
        simp at hdrop
      · rw [hleft]
        simp
      · intro hperm
        have htail : (pairs.take (wholeCount (scoredPieces pairs) n / 2) ++ [(q.1, x)]).Perm
            (pairs.take (wholeCount (scoredPieces pairs) n / 2) ++ q :: rest) := by
          rw [← hleft, hsplit]
          exact hperm
        rw [List.perm_append_left_iff, List.singleton_perm, List.cons.injEq] at htail
        refine hn ⟨fun hnone => absurd hnone (by rw [hs]; simp), ?_⟩
        intro y hy
        rw [hs, Option.mem_def, Option.some.injEq] at hy
        rw [hdrop, ← htail.1, ← htail.2, ← hy]
        rfl
  | memory config nextId records =>
    rcases h with ⟨hn', -⟩ | ⟨rfl, -, k, hk, hkn, rfl⟩
    · exact absurd hn' hn
    · refine ⟨fun heq => ?_, rfl, rfl⟩
      unfold LoadedValue.value Payload.loaded at heq
      injection heq with heq
      have hid : Nat.max k 1 = Nat.max ((Text.parseNat u64Max (Nat.toDigits 10 nextId)).getD 1) 1 :=
        congrArg Memory.nextId heq
      rw [Text.parseNat_toDigits hfit.2.2.2.1, Option.getD_some] at hid
      have hk' : Nat.max k 1 = k := Nat.max_eq_left hk
      have hn' : Nat.max nextId 1 = nextId := Nat.max_eq_left (by omega)
      omega

theorem shownAt_empty {t : SystemTime} {x : Value × Option SystemTime}
    (h : x.1.isEmptyCollection = true) : shownAt t x = none := by
  simp [shownAt, h]

/-- What is shown of a value the cut has harmed. -/
theorem Harmed.shownAt_iff {t : SystemTime} {d : Option SystemTime} {v v' : Value} (h : Harmed v v') :
    (shownAt t (v', d) = none ∨ shownAt t (v', d) = shownAt t (v, d)) ↔ shownAt t (v, d) = none := by
  unfold shownAt
  rw [h.left, h.whole, Bool.or_false, Bool.or_false]
  have hdue : due t (some (v', d)) = due t (some (v, d)) := by cases d <;> rfl
  rw [hdue]
  cases due t (some (v, d)) with
  | true => simp
  | false => simpa using h.differ

/-- **The value that is left of a record shows nothing else** exactly when the cut does no harm. -/
theorem Payload.LeftAs.shown_iff (h : p.LeftAs maxTerms n v) (hfit : p.Fits) (hd : p.Distinct)
    {key : Bytes} {x : Int} {c : Nat → SystemTime} {i : Nat} :
    (LoadedEntry.shown c i ⟨key, v, x⟩ = none ∨
      LoadedEntry.shown c i ⟨key, v, x⟩ = LoadedEntry.shown c i ⟨key, p.loaded maxTerms, x⟩) ↔
    (p.Harmless n ∨ LoadedEntry.shown c i ⟨key, p.loaded maxTerms, x⟩ = none) := by
  have hread : LoadedEntry.readings ⟨key, v, x⟩ =
      LoadedEntry.readings ⟨key, p.loaded maxTerms, x⟩ := by
    unfold LoadedEntry.readings
    rw [h.readings]
  unfold LoadedEntry.shown
  rw [hread]
  by_cases hn : p.Harmless n
  · refine ⟨fun _ => .inl hn, fun _ => ?_⟩
    rcases h.harmless hn with heq | hempty
    · exact .inr (by rw [heq]; rfl)
    · exact .inl (shownAt_empty hempty)
  · exact (h.harmed hfit hd hn).shownAt_iff.trans ⟨.inr, fun h => h.resolve_left hn⟩

end harm

/-! ## The entries of a truncated dump -/

/-- The entries that may be read from the first `n` bytes of some records. -/
def LeftEntries (maxTerms : Nat) : List Record → Nat → List LoadedEntry → Prop
  | [], _, es => es = []
  | r :: rs, n, es =>
    if r.bytes.length ≤ n then
      ∃ es', es = r.loaded maxTerms :: es' ∧ LeftEntries maxTerms rs (n - r.bytes.length) es'
    else
      (es = [] ∧ r.payload.Harmless (n - r.headBytes)) ∨
        ∃ v, es = [⟨r.key, v, r.expireAt⟩] ∧ r.payload.LeftAs maxTerms (n - r.headBytes) v

section entries

variable {e : Env} {w : World} {R : Panic → Prop} {E : IoError → Bytes → World → Prop} {n : Nat}

theorem Payload.harmless_zero (p : Payload) : p.Harmless 0 := by
  cases p with
  | str value => trivial
  | list items => exact .inl (wholeCount_zero _)
  | set items => exact .inl (wholeCount_zero _)
  | hash pairs => exact .inl (by rw [wholeCount_zero])
  | zset pairs =>
    refine ⟨fun _ => .inl (by rw [wholeCount_zero]), ?_⟩
    intro x hx
    cases pairs with
    | nil => cases hx
    | cons p pairs =>
      have hpieces : scoredPieces (p :: pairs) =
          .blob p.1 :: .line (formatF64 p.2) :: scoredPieces pairs := rfl
      unfold shortScore at hx
      rw [hpieces, tornPiece_torn (readable_zero _)] at hx
      cases hx
  | memory config nextId records =>
    rintro - ⟨-, h9⟩
    rw [List.take_zero] at h9
    exact absurd h9 (by decide)

/-- A header line that is cut comes to nothing. -/
theorem sat_readEntryEnd {maxTerms fuel : Nat} {header : List Char}
    {Q : List LoadedEntry → Bytes → World → Prop} (hQ : Q [] [] w) :
    Act.SatE (readEntry maxTerms header >>= fun round => match round with
      | .stop => pure []
      | .skip => loadV2 maxTerms fuel
      | .entry entry => do
        let entries ← loadV2 maxTerms fuel
        pure (entry :: entries)) e [] w Q E R := by
  rw [Act.satE_bind]
  unfold readEntry
  split
  · rw [Act.satE_bind]
    exact sat_blobEnd hQ
  · exact sat_loadV2_end hQ

/-- **A record that is cut**: the entry of what is left of its value, or nothing. -/
theorem sat_loadV2_torn {r : Record} {maxTerms fuel : Nat} {Q : List LoadedEntry → Bytes → World → Prop}
    (h : r.Fits) (hnone : ¬ Refused r.pieces n → r.payload.Harmless (n - r.headBytes) → ∀ s, Q [] s w)
    (hsome : ¬ Refused r.pieces n → ∀ v, r.payload.LeftAs maxTerms (n - r.headBytes) v →
      Q [⟨r.key, v, r.expireAt⟩] [] w)
    (herr : Refused r.pieces n → ∀ s, E .unexpectedEof s w) :
    Act.SatE (loadV2 maxTerms (fuel + 1)) e (cut r.pieces n) w Q E R := by
  have hwords := asciiWord_header r
  have hstop : n - r.headBytes = 0 → ¬ Refused r.pieces n → ∀ s, Q [] s w := by
    intro h0 hnot
    refine hnone hnot ?_
    rw [h0]
    exact r.payload.harmless_zero
  have hhead : ∀ m, m ≤ (wordLine r.headerWords).bytes.length → m - r.headBytes = 0 := by
    intro m hm
    unfold Record.headBytes
    omega
  rw [loadV2, Act.satE_bind]
  refine sat_lineCut (lineText_unwords hwords) ?_ ?_ ?_
  · rintro rfl
    exact hstop (Nat.zero_sub _) (not_refused_zero _) []
  · intro hr
    have hr' : (wordLine r.headerWords).readable n = true := hr
    have hpieces : r.pieces = wordLine r.headerWords :: .blob r.key :: r.payload.pieces := rfl
    rw [hpieces] at hstop hnone hsome herr
    rw [refused_cons hr'] at hstop hnone hsome herr
    dsimp only
    rw [Act.satE_bind]
    refine sat_readEntry_header h (sat_blobCut h.key ?_ ?_ ?_)
    · intro h0
      refine hstop ?_ ?_ []
      · exact hhead n (Nat.le_of_sub_eq_zero h0)
      · rw [show n - (wordLine r.headerWords).bytes.length = 0 from h0]
        exact not_refused_zero _
    · intro hk
      have hk' : (Piece.blob r.key).readable (n - (wordLine r.headerWords).bytes.length) = true := hk
      rw [refused_cons hk', Nat.sub_sub] at hnone hsome herr
      dsimp only
      rw [Nat.sub_sub]
      refine sat_readValueCut h.payload hnone ?_ herr
      intro hnot v hv
      simp only [Act.satE_bind, Act.satE_pure]
      exact sat_loadV2_end (hsome hnot v hv)
    · intro hk hpos
      exact herr ((refused_blob hk).mpr hpos)
  · intro hr hpos
    have hlt : n ≤ (wordLine r.headerWords).bytes.length := by
      refine Nat.le_of_not_le fun hle => ?_
      have hread : (Piece.line (Text.utf8 (Text.unwords r.headerWords))).readable n = true :=
        readable_of_le hle
      rw [hread] at hr
      cases hr
    exact sat_readEntryEnd (hstop (hhead n hlt) (refused_line hr) [])

/-- **The entries of a truncated dump.** -/
theorem sat_loadV2_cut {maxTerms : Nat} :
    ∀ {rs : List Record} {n fuel : Nat} {Q : List LoadedEntry → Bytes → World → Prop},
      (∀ r ∈ rs, r.Fits) → (cut (rs.flatMap Record.pieces) n).length ≤ fuel →
      (¬ Refused (rs.flatMap Record.pieces) n → ∀ es, LeftEntries maxTerms rs n es → ∀ s, Q es s w) →
      (Refused (rs.flatMap Record.pieces) n → ∀ s, E .unexpectedEof s w) →
      Act.SatE (loadV2 maxTerms fuel) e (cut (rs.flatMap Record.pieces) n) w Q E R
  | [], n, fuel, Q, _, _, hQ, _ => by
    rw [List.flatMap_nil, cut_nil]
    exact sat_loadV2_end (hQ not_refused_nil [] rfl [])
  | r :: rs, n, fuel, Q, hfit, hfuel, hQ, hE => by
    rw [List.flatMap_cons] at hfuel hQ hE ⊢
    have hr := hfit r (by simp)
    have hbytes : (r.pieces.flatMap Piece.bytes).length = r.bytes.length := rfl
    by_cases hle : r.bytes.length ≤ n
    · rw [refused_append_le hle] at hQ hE
      rw [cut_append_le hle] at hfuel ⊢
      have hpos : 1 ≤ r.bytes.length := by simpa using length_le_bytes [r]
      rw [List.length_append, hbytes] at hfuel
      obtain ⟨fuel, rfl⟩ : ∃ k, fuel = 1 + k := ⟨fuel - 1, by omega⟩
      have hone : r.pieces.flatMap Piece.bytes = [r].flatMap Record.bytes := by simp [Record.bytes]
      rw [hone]
      show Act.SatE (loadV2 maxTerms ([r].length + fuel)) e _ w Q E R
      refine sat_loadV2 (by simpa using hr) ?_
      rw [← hone, hbytes]
      refine sat_loadV2_cut (fun q hq => hfit q (List.mem_cons_of_mem _ hq)) (by omega) ?_ hE
      intro hnot es hes
      refine hQ hnot _ ?_
      rw [LeftEntries, if_pos hle]
      exact ⟨es, rfl, hes⟩
    · have hlt : n < (r.pieces.flatMap Piece.bytes).length := Nat.lt_of_not_le hle
      rw [refused_append_lt hlt] at hQ hE
      rw [cut_append_lt hlt] at hfuel ⊢
      have hleft : ∀ es, ((es = [] ∧ r.payload.Harmless (n - r.headBytes)) ∨
          ∃ v, es = [⟨r.key, v, r.expireAt⟩] ∧ r.payload.LeftAs maxTerms (n - r.headBytes) v) →
          LeftEntries maxTerms (r :: rs) n es := by
        intro es hes
        rw [LeftEntries, if_neg hle]
        exact hes
      cases fuel with
      | zero =>
        have h0 : n = 0 := by
          unfold cut at hfuel
          rw [List.length_take] at hfuel
          omega
        subst h0
        rw [cut_zero]
        refine sat_loadV2_end (hQ (not_refused_zero _) [] (hleft [] (.inl ⟨rfl, ?_⟩)) [])
        rw [Nat.zero_sub]
        exact r.payload.harmless_zero
      | succ fuel =>
        refine sat_loadV2_torn hr ?_ ?_ hE
        · exact fun hnot hn => hQ hnot [] (hleft [] (.inl ⟨rfl, hn⟩))
        · exact fun hnot v hv => hQ hnot _ (hleft _ (.inr ⟨v, rfl, hv⟩)) []

end entries

/-! ## What a truncated dump leaves -/

section shown

variable {c : Nat → SystemTime} {maxTerms : Nat}

/-- When the file is refused nothing is installed, which loses every record that was whole. -/
theorem cutOk_refused : ∀ {rs : List Record} {n i : Nat}, Refused (rs.flatMap Record.pieces) n →
    (CutOk maxTerms c i rs n ↔
      ∀ x ∈ (shownAll c i (rs.map (Record.loaded maxTerms))).take (wholeRecords rs n), x.2 = none)
  | [], n, i, h => absurd h not_refused_nil
  | r :: rs, n, i, h => by
    rw [List.flatMap_cons] at h
    rw [CutOk, wholeRecords, List.map_cons, shownAll]
    by_cases hle : r.bytes.length ≤ n
    · rw [refused_append_le hle] at h
      have hrest : Refused (rs.flatMap Record.pieces) (n - r.bytes.length) := h
      rw [if_pos hle, if_pos hle, cutOk_refused hrest, List.take_succ_cons, List.forall_mem_cons]
      exact and_congr_left fun _ => ⟨fun h => h hrest, fun h _ => h⟩
    · have hlt : n < (r.pieces.flatMap Piece.bytes).length := Nat.lt_of_not_le hle
      rw [refused_append_lt hlt] at h
      rw [if_neg hle, if_neg hle, List.take_zero]
      exact ⟨fun _ x hx => absurd hx List.not_mem_nil, fun _ => .inl h⟩

/-- Otherwise the records that are whole are shown, and what is left of one more; `CutOk` says
that this is nothing, or what the whole record shows. -/
theorem leftEntries_shown : ∀ {rs : List Record} {n i : Nat} {es : List LoadedEntry},
    (∀ r ∈ rs, r.Fits ∧ r.payload.Distinct) → (rs.map Record.key).Nodup →
    ¬ Refused (rs.flatMap Record.pieces) n → LeftEntries maxTerms rs n es →
    ∃ tail : List (Bytes × Option (Value × Option SystemTime)),
      shownAll c i es =
        (shownAll c i (rs.map (Record.loaded maxTerms))).take (wholeRecords rs n) ++ tail ∧
      (∀ x ∈ tail, x.1 ∈ rs.map Record.key) ∧
      (CutOk maxTerms c i rs n ↔
        ∀ x ∈ tail, x.2 = none ∨ x ∈ shownAll c i (rs.map (Record.loaded maxTerms)))
  | [], n, i, es, _, _, _, hes => by
    cases hes
    exact ⟨[], rfl, by simp, by simp [CutOk]⟩
  | r :: rs, n, i, es, hfit, hkeys, hnot, hes => by
    have hkeys' : r.key ∉ rs.map Record.key ∧ (rs.map Record.key).Nodup := by
      rwa [List.map_cons, List.nodup_cons] at hkeys
    have hmem : ∀ {x : Bytes × Option (Value × Option SystemTime)} {j : Nat},
        x ∈ shownAll c j (rs.map (Record.loaded maxTerms)) → x.1 ∈ rs.map Record.key := by
      intro x j hx
      have := mem_shownAll hx
      rwa [List.map_map] at this
    rw [List.flatMap_cons] at hnot
    rw [CutOk, wholeRecords, List.map_cons, shownAll]
    rw [LeftEntries] at hes
    by_cases hle : r.bytes.length ≤ n
    · rw [refused_append_le hle] at hnot
      have hnot' : ¬ Refused (rs.flatMap Record.pieces) (n - r.bytes.length) := hnot
      rw [if_pos hle] at hes
      obtain ⟨es, rfl, hes⟩ := hes
      obtain ⟨tail, hshown, htail, hok⟩ :=
        leftEntries_shown (i := i + (r.loaded maxTerms).readings + 1)
          (fun q hq => hfit q (List.mem_cons_of_mem _ hq)) hkeys'.2 hnot' hes
      refine ⟨tail, ?_, fun x hx => List.mem_cons_of_mem _ (htail x hx), ?_⟩
      · rw [if_pos hle, shownAll, hshown, List.take_succ_cons, List.cons_append]
      · rw [if_pos hle, hok]
        refine ⟨fun h x hx => (h.2 x hx).imp_right (List.mem_cons_of_mem _), fun h => ?_⟩
        refine ⟨fun hr => absurd hr hnot', fun x hx => (h x hx).imp_right fun hx' => ?_⟩
        rcases List.mem_cons.mp hx' with rfl | hx'
        · exact absurd (htail _ hx) hkeys'.1
        · exact hx'
    · have hlt : n < (r.pieces.flatMap Piece.bytes).length := Nat.lt_of_not_le hle
      rw [refused_append_lt hlt] at hnot
      rw [if_neg hle] at hes
      rw [if_neg hle, if_neg hle, List.take_zero]
      rcases hes with ⟨rfl, hn⟩ | ⟨v, rfl, hv⟩
      · exact ⟨[], rfl, by simp, by simp [hn]⟩
      · obtain ⟨hr, hd⟩ := hfit r (by simp)
        have hiff : (LoadedEntry.shown c i ⟨r.key, v, r.expireAt⟩ = none ∨
            LoadedEntry.shown c i ⟨r.key, v, r.expireAt⟩ = (r.loaded maxTerms).shown c i) ↔
            (r.payload.Harmless (n - r.headBytes) ∨ (r.loaded maxTerms).shown c i = none) :=
          hv.shown_iff hr.payload hd
        have hone : ∀ {y : Option (Value × Option SystemTime)} {j : Nat},
            (r.key, y) ∈ ((r.loaded maxTerms).key, (r.loaded maxTerms).shown c i) ::
              shownAll c j (rs.map (Record.loaded maxTerms)) ↔ y = (r.loaded maxTerms).shown c i := by
          intro y j
          refine ⟨fun hy => ?_, fun hy => by rw [hy]; exact List.mem_cons_self⟩
          rcases List.mem_cons.mp hy with heq | hy
          · exact congrArg Prod.snd heq
          · exact absurd (hmem hy) hkeys'.1
        refine ⟨[(r.key, LoadedEntry.shown c i ⟨r.key, v, r.expireAt⟩)], rfl, by simp, ?_⟩
        rw [List.forall_mem_singleton, hone, hiff]
        exact or_iff_right hnot

/-- **The property in terms of the entries that were read**, when none of the keys was taken. -/
theorem losesOnlyTail_iff {shown tail : List (Bytes × Option (Value × Option SystemTime))}
    {whole : Nat} {K : Keyspace} (hshown : ∀ x ∈ shown.take whole ++ tail, K x.1 = x.2)
    (hothers : ∀ k, k ∉ (shown.take whole ++ tail).map Prod.fst → K k = none) :
    LosesOnlyTail shown whole K ↔ ∀ x ∈ tail, x.2 = none ∨ x ∈ shown := by
  refine ⟨fun h x hx => ?_, fun h => ⟨fun x hx => hshown x (List.mem_append_left _ hx), ?_⟩⟩
  · have hview := hshown x (List.mem_append_right _ hx)
    obtain ⟨key, y⟩ := x
    cases y with
    | none => exact .inl rfl
    | some y => exact .inr (h.nothingElse key y hview)
  · intro key y hy
    have hkey : key ∈ (shown.take whole ++ tail).map Prod.fst := by
      by_contra hno
      rw [hothers key hno] at hy
      cases hy
    obtain ⟨⟨key, y'⟩, hx, rfl⟩ := List.mem_map.mp hkey
    have hview : K key = y' := hshown _ hx
    rw [hy] at hview
    subst hview
    rcases List.mem_append.mp hx with hx | hx
    · exact List.mem_of_mem_take hx
    · exact (h _ hx).resolve_left (by simp)

theorem shownAll_keys : ∀ {es : List LoadedEntry} {i : Nat},
    (shownAll c i es).map Prod.fst = es.map LoadedEntry.key
  | [], _ => rfl
  | entry :: es, i => by
    rw [shownAll, List.map_cons, List.map_cons, shownAll_keys]

theorem LeftEntries.keys : ∀ {rs : List Record} {n : Nat} {es : List LoadedEntry},
    LeftEntries maxTerms rs n es → List.Sublist (es.map LoadedEntry.key) (rs.map Record.key)
  | [], n, es, h => by
    cases h
    exact List.Sublist.refl _
  | r :: rs, n, es, h => by
    rw [LeftEntries] at h
    split at h
    · obtain ⟨es, rfl, hes⟩ := h
      exact hes.keys.cons_cons r.key
    · rcases h with ⟨rfl, -⟩ | ⟨v, rfl, -⟩
      · exact List.nil_sublist _
      · exact (List.nil_sublist _).cons_cons r.key

theorem LeftEntries.expireAt_le : ∀ {rs : List Record} {n : Nat} {es : List LoadedEntry},
    (∀ r ∈ rs, r.Fits) → LeftEntries maxTerms rs n es → ∀ entry ∈ es, entry.expireAt ≤ i64Max
  | [], n, es, _, h => by
    cases h
    simp
  | r :: rs, n, es, hfit, h => by
    have hr := (hfit r (by simp)).expireAt.2
    rw [LeftEntries] at h
    split at h
    · obtain ⟨es, rfl, hes⟩ := h
      rw [List.forall_mem_cons]
      exact ⟨hr, hes.expireAt_le fun q hq => hfit q (List.mem_cons_of_mem _ hq)⟩
    · rcases h with ⟨rfl, -⟩ | ⟨v, rfl, -⟩
      · simp
      · rw [List.forall_mem_singleton]
        exact hr

end shown

/-! ## The records of a store -/

/-- A value of a size that can exist; sorted sets are in order. -/
def Value.Sized : Value → Prop
  | .str x => BlobFits x
  | .list l => l.length * bytesSize ≤ isizeMax ∧ ∀ b ∈ l, BlobFits b
  | .hash h => h.size * pairSize ≤ isizeMax ∧ ∀ p ∈ h.pairs, BlobFits p.1 ∧ BlobFits p.2
  | .set s => s.size * bytesSize ≤ isizeMax ∧ ∀ p ∈ s.pairs, BlobFits p.1
  | .zset z => z.size * scoredSize ≤ isizeMax ∧ z.Sorted ∧ ∀ p ∈ z.entries, BlobFits p.1
  | .memory m =>
    m.records.size ≤ u64Max ∧ m.config.dim ≤ u64Max ∧ 4 * (m.records.size * m.config.dim) ≤ isizeMax ∧
      m.nextId ≤ u64Max ∧ ∀ id r, m.records.lookup id = some r → MemoryRecordFits (r, m.vectorOf r)

/-- The live keys of a store and their values are of sizes that can exist. -/
structure Store.Sized (s : Store) (t : SystemTime) : Prop where
  key : ∀ x ∈ s.liveKeys t, BlobFits x.1
  value : ∀ x ∈ s.liveKeys t, x.2.1.Sized

theorem length_dumpAt (m : Memory) (t t' : SystemTime) : (m.dumpAt t t').length ≤ m.records.size := by
  unfold Memory.dumpAt Memory.liveIds sortBy
  rw [List.length_map]
  calc _ ≤ _ := List.length_filter_le _ _
    _ ≤ _ := List.length_filterMap_le _ _
    _ = _ := by rw [List.length_insertionSort, List.length_insertionSort, List.length_map]
    _ ≤ _ := List.length_filter_le _ _
    _ = _ := m.records.length_pairs

theorem sized_fits {v : Value} (h : v.Sized) (t t' : SystemTime) :
    (v.payload t t').Fits ∧ (v.payload t t').Distinct := by
  cases v with
  | str x => exact ⟨h, trivial⟩
  | list l => exact ⟨h, trivial⟩
  | hash x => exact ⟨⟨by rw [Assoc.length_pairs]; exact h.1, h.2⟩, x.nodup_pairs_fst⟩
  | set x =>
    refine ⟨⟨by rw [List.length_map, Assoc.length_pairs]; exact h.1, fun b hb => ?_⟩, x.nodup_pairs_fst⟩
    obtain ⟨p, hp, rfl⟩ := List.mem_map.mp hb
    exact h.2 p hp
  | zset z => exact ⟨⟨h.1, fun p hp => ⟨h.2.2 p hp, h.2.1.numbers p hp⟩⟩, h.2.1.members⟩
  | memory m =>
    obtain ⟨hcount, hdim, hcap, hid, hrecords⟩ := h
    have hlen := length_dumpAt m t t'
    refine ⟨⟨Nat.le_trans hlen hcount, hdim, ?_, hid, fun p hp => ?_⟩, trivial⟩
    · exact Nat.le_trans (Nat.mul_le_mul_left _ (Nat.mul_le_mul_right _ hlen)) hcap
    · unfold Memory.dumpAt at hp
      obtain ⟨r, hr, rfl⟩ := List.mem_map.mp hp
      obtain ⟨id, -, hlook⟩ := List.mem_filterMap.mp (List.mem_filter.mp hr).1
      exact hrecords id r hlook

theorem expiryAt_range (c : Nat → SystemTime) (i : Nat) (d : Option SystemTime) :
    i64Min ≤ expiryAt c i d ∧ expiryAt c i d ≤ i64Max := by
  have hone : i64Min ≤ -1 ∧ (-1 : Int) ≤ i64Max := by decide
  have hwrap : ∀ x : Int, i64Min ≤ wrapI64 x ∧ wrapI64 x ≤ i64Max := by
    intro x
    unfold wrapI64 i64Min i64Max
    omega
  unfold expiryAt dumpDeadline
  split
  · exact hone
  · split
    · split
      · exact hone
      · exact hwrap _
    · exact hone

theorem recordsAt_fits {c : Nat → SystemTime} : ∀ {xs : List LiveKey} {i : Nat},
    (∀ x ∈ xs, BlobFits x.1 ∧ x.2.1.Sized) →
    ∀ r ∈ recordsAt c i xs, r.Fits ∧ r.payload.Distinct
  | [], _, _ => by simp [recordsAt]
  | x :: xs, i, h => by
    intro r hr
    obtain ⟨hkey, hvalue⟩ := h x (by simp)
    rw [recordsAt, List.mem_append, Option.mem_toList] at hr
    rcases hr with hr | hr
    · unfold recordAt at hr
      dsimp only at hr
      split at hr
      · cases hr
        have := sized_fits hvalue
        exact ⟨⟨hkey, expiryAt_range _ _ _, (this _ _).1⟩, (this _ _).2⟩
      · split at hr
        · cases hr
          exact ⟨⟨hkey, expiryAt_range _ _ _, Nat.zero_le _⟩, trivial⟩
        · cases hr
    · exact recordsAt_fits (fun y hy => h y (List.mem_cons_of_mem _ hy)) r hr

theorem recordsAt_keys {c : Nat → SystemTime} : ∀ {xs : List LiveKey} {i : Nat},
    List.Sublist ((recordsAt c i xs).map Record.key) (xs.map Prod.fst)
  | [], _ => List.Sublist.refl _
  | x :: xs, i => by
    have hrest : List.Sublist ((recordsAt c (i + recordReadings c i x) xs).map Record.key)
      (xs.map Prod.fst) := recordsAt_keys
    rw [recordsAt, List.map_append, List.map_cons]
    have hx : List.Sublist ((recordAt c i x).toList.map Record.key) [x.1] := by
      unfold recordAt
      dsimp only
      split
      · exact List.Sublist.refl _
      · split
        · exact List.Sublist.refl _
        · exact List.nil_sublist _
    exact hx.append hrest

/-! ## Loading a truncated dump -/

theorem flatMap_pieces (rs : List Record) :
    (rs.flatMap Record.pieces).flatMap Piece.bytes = rs.flatMap Record.bytes := by
  rw [List.flatMap_assoc]
  rfl

/-- The entries of a truncated dump, from its magic line on. -/
theorem sat_loadEntries_cut {e : Env} {w : World} {R : Panic → Prop} {maxTerms n : Nat}
    {rs : List Record} {Q : List LoadedEntry → Bytes → World → Prop}
    {E : IoError → Bytes → World → Prop} (hfit : ∀ r ∈ rs, r.Fits) (hn : dumpMagic.length ≤ n)
    (hQ : ¬ Refused (rs.flatMap Record.pieces) (n - magicBytes.length) →
      ∀ es, LeftEntries maxTerms rs (n - magicBytes.length) es → ∀ s, Q es s w)
    (hE : Refused (rs.flatMap Record.pieces) (n - magicBytes.length) → ∀ s, E .unexpectedEof s w) :
    Act.SatE (loadEntries maxTerms) e ((dumpBytes rs).take n) w Q E R := by
  have hlen : magicBytes.length = dumpMagic.length + 1 := by decide
  unfold dumpBytes
  by_cases hle : magicBytes.length ≤ n
  · rw [List.take_append, List.take_of_length_le hle]
    refine sat_loadEntries ?_
    rw [← flatMap_pieces]
    show Act.SatE _ e (cut (rs.flatMap Record.pieces) (n - magicBytes.length)) w Q E R
    refine sat_loadV2_cut hfit ?_ hQ hE
    rw [List.length_append]
    exact Nat.le_add_left _ _
  · -- the magic line lacks its newline
    have hmagic : (magicBytes ++ rs.flatMap Record.bytes).take n = Text.utf8 dumpMagic.toList := by
      have hn' : n = dumpMagic.length := by omega
      rw [List.take_append_of_le_length (by omega), hn']
      decide
    have h0 : n - magicBytes.length = 0 := by omega
    have hleft : ∀ rs : List Record, LeftEntries maxTerms rs 0 [] := by
      intro rs
      cases rs with
      | nil => rfl
      | cons r rs =>
        have hpos : 1 ≤ r.bytes.length := by simpa using length_le_bytes [r]
        rw [LeftEntries, if_neg (by omega), Nat.zero_sub]
        exact .inl ⟨rfl, r.payload.harmless_zero⟩
    rw [h0] at hQ
    rw [hmagic]
    unfold loadEntries
    simp only [Act.satE_bind, Act.satE_lift, Act.sat_get]
    refine sat_lineLast lineText_magic (by decide) ?_
    have hstart : (startsWith dumpMagic.toList dumpMagic || startsWith dumpMagic.toList v2Magic) =
        true := by decide
    dsimp only
    rw [if_pos hstart]
    exact sat_loadV2_end (hQ (not_refused_zero _) [] (hleft rs) [])

/-- **A truncated dump loses only what follows the cut exactly when the cut is harmless**: the
dump a save leaves is cut after `n` bytes, its magic line is still there, and it is loaded into an
empty store. -/
theorem truncated_load_iff (e e' : Env) (path : String) (s : Store) (w : World) (started : Instant)
    (maxTerms n : Nat) (hidx : Indexed s) (hs : s.Sized (e.clock w.ticks))
    (hn : dumpMagic.length ≤ n) :
    Act.SatE (saveInner path) e s w
      (fun _ _ w' => ∀ content, w'.files.lookup path = some content →
        ∀ w₁ : World, w₁.files.lookup path = some (content.take n) →
          Act.Sat (Persist.load ⟨path, none⟩ maxTerms) e' { started := started } w₁
            (fun _ s' _ =>
              LosesOnlyTail
                  (shownAll e'.clock w₁.ticks
                    ((s.records e.clock w.ticks).map (Record.loaded maxTerms)))
                  (wholeRecords (s.records e.clock w.ticks) (n - magicBytes.length)) s'.view ↔
                CutOk maxTerms e'.clock w₁.ticks (s.records e.clock w.ticks) (n - magicBytes.length))
            (fun _ => False))
      (fun _ _ _ => ∃ i, e.disk i = false) (fun _ => False) := by
  refine Act.satE_mono (saveInner_spec path) ?_ (fun _ _ _ h => h.1) (fun p hp => absurd hidx hp.2)
  rintro _ s₁ w₀ ⟨hfile, -⟩ content hcontent w₁ hw₁
  rw [hfile, Option.some.injEq] at hcontent
  subst hcontent
  have hfit : ∀ r ∈ s.records e.clock w.ticks, r.Fits ∧ r.payload.Distinct :=
    recordsAt_fits fun x hx => ⟨hs.key x hx, hs.value x hx⟩
  have hkeys : ((s.records e.clock w.ticks).map Record.key).Nodup :=
    (liveKeys_nodup s _).sublist recordsAt_keys
  refine sat_load hw₁ (sat_loadEntries_cut (fun r hr => (hfit r hr).1) hn ?_ ?_)
  · intro hnot es hes _
    obtain ⟨tail, hshown, -, hok⟩ := leftEntries_shown hfit hkeys hnot hes
    refine Act.sat_mono (installAll_spec (hkeys.sublist hes.keys) (fun _ _ => rfl)
      (hes.expireAt_le fun r hr => (hfit r hr).1)) ?_ (fun p hp => absurd (indexed_new started) hp.2)
    rintro _ s₃ w₃ ⟨hall, hothers, -⟩
    rw [hok]
    refine losesOnlyTail_iff ?_ ?_
    · rw [← hshown]
      exact hall
    · intro k hk
      rw [← hshown, shownAll_keys] at hk
      exact hothers k hk
  · intro hr _
    rw [cutOk_refused hr]
    refine ⟨fun h x hx => (h.installed x hx).symm, fun h => ⟨fun x hx => (h x hx).symm, ?_⟩⟩
    intro key y hy
    cases hy

/-- A list of two elements at the key `k`. -/
def listStore : Store where
  map := (∅ : Assoc Bytes Entry).insert [107] ⟨.list [[97], [98]], none, 0, none, Access.new 0 0⟩
  keys := [[107]]

theorem listStore_sized : listStore.Sized 0 := by
  have hkeys : listStore.liveKeys 0 = [([107], .list [[97], [98]], none)] := by decide +kernel
  refine ⟨?_, ?_⟩
  · rw [hkeys]
    unfold BlobFits
    decide
  · rw [hkeys, List.forall_mem_singleton]
    unfold Value.Sized BlobFits
    decide

section instances

attribute [local irreducible] Act.SatE Act.Sat CutOk shownAll wholeRecords Store.records

/-- The dump of the list, cut after its first element. -/
theorem truncated_load_iff_list : Indexed listStore ∧ listStore.Sized 0 ∧ dumpMagic.length ≤ 31 ∧
    Act.SatE (saveInner "dump") (stillEnv 0) listStore {}
      (fun _ _ w' => ∀ content, w'.files.lookup "dump" = some content →
        ∀ w₁ : World, w₁.files.lookup "dump" = some (content.take 31) →
          Act.Sat (Persist.load ⟨"dump", none⟩ 8) (stillEnv 0) { started := 0 } w₁
            (fun _ s' _ =>
              LosesOnlyTail
                  (shownAll (stillEnv 0).clock w₁.ticks
                    ((listStore.records (stillEnv 0).clock 0).map (Record.loaded 8)))
                  (wholeRecords (listStore.records (stillEnv 0).clock 0) (31 - magicBytes.length))
                  s'.view ↔
                CutOk 8 (stillEnv 0).clock w₁.ticks (listStore.records (stillEnv 0).clock 0)
                  (31 - magicBytes.length))
            (fun _ => False))
      (fun _ _ _ => ∃ i, (stillEnv 0).disk i = false) (fun _ => False) := by
  have hidx : Indexed listStore := by decide +kernel
  exact ⟨hidx, listStore_sized, by decide, truncated_load_iff (stillEnv 0) (stillEnv 0) "dump" listStore
    {} 0 8 31 hidx listStore_sized (by decide)⟩

/-- What is saved of the list. -/
def listDump : Bytes := Text.bytes "KLYRO-DUMP 3\nLIST -1 2\n1\nk\n1\na\n1\nb\n"

/-- The list comes back with its first element only. -/
theorem truncated_list_shortened :
    Act.SatE (saveInner "dump") (stillEnv 0) listStore {}
      (fun _ _ w' => ∃ content, w'.files.lookup "dump" = some content ∧
        Act.Sat (Persist.load ⟨"dump", none⟩ 8) (stillEnv 0) { started := 0 }
          { files := (∅ : Assoc String Bytes).insert "dump" (content.take 31) }
          (fun _ s' _ => s'.view [107] = some (.list [[97]], none) ∧
            ¬ LosesOnlyTail
              (shownAll (stillEnv 0).clock 0
                ((listStore.records (stillEnv 0).clock 0).map (Record.loaded 8)))
              (wholeRecords (listStore.records (stillEnv 0).clock 0) (31 - magicBytes.length)) s'.view)
          (fun _ => False))
      (fun _ _ _ => False) (fun _ => False) := by
  have hsave : Act.SatE (saveInner "dump") (stillEnv 0) listStore {}
      (fun _ _ w' => w'.files.lookup "dump" = some listDump) (fun _ _ _ => False) (fun _ => False) := by
    decide +kernel
  have hload : Act.Sat (Persist.load ⟨"dump", none⟩ 8) (stillEnv 0) { started := 0 }
      { files := (∅ : Assoc String Bytes).insert "dump" (listDump.take 31) }
      (fun _ s' _ => s'.view [107] = some (.list [[97]], none)) (fun _ => False) := by
    decide +kernel
  have hwhole : shownAll (stillEnv 0).clock 0
      ((listStore.records (stillEnv 0).clock 0).map (Record.loaded 8)) =
        [([107], some (.list [[97], [98]], none))] := by
    decide +kernel
  refine Act.satE_mono hsave ?_ (fun _ _ _ h => h) (fun _ h => h)
  intro _ _ _ hfile
  refine ⟨listDump, hfile, Act.sat_mono hload ?_ fun _ h => h⟩
  intro _ s' _ hview
  refine ⟨hview, fun h => ?_⟩
  have hmem := h.nothingElse _ _ hview
  rw [hwhole] at hmem
  simp at hmem

end instances

end Klyro
