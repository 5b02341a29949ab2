import Klyro.Commands.Extreme
import Klyro.Lib.Groups
import Klyro.Types.Memory.Metadata

/-!
# The order of the options

The options of `MEM.ADD`, `MEM.CREATE` and `MEM.QUERY` are keywords with their values, in any order.

* `Group` — a keyword and its values; `Complete` when it has all of them.
* `addMeans`, `createMeans`, `queryMeans` — what one group says.
* `addOptions_groups` and its companions — the loops read a list of complete groups group by group,
  whatever their values spell.
* `options_unordered` — the groups of a request in another order are read alike, or both are refused.
-/

set_option autoImplicit false

namespace Klyro.Memories

/-! ## Groups -/

/-- A keyword and its values. -/
structure Group where
  word : Bytes
  args : List Bytes

/-- The words of a group. -/
def Group.words (g : Group) : List Bytes := g.word :: g.args

/-- The keyword of a group, in any case. -/
abbrev Group.is (g : Group) (keyword : String) : Bool := eqIgnoreCase g.word keyword

/-- The values of an option: so many, or as many as the first one counts. -/
def Wide : Option Nat → List Bytes → Prop
  | some n, args => args.length = n
  | none, args => ∃ count floats, args = count :: floats ∧
      parseI64 count = some (floats.length : Int)

/-- The group has a keyword of the command and all its values. -/
def Group.Complete (widths : List (String × Option Nat)) (g : Group) : Prop :=
  ∃ p ∈ widths, g.is p.1 = true ∧ Wide p.2 g.args

/-- Two groups do not fill a slot of the command twice. -/
def Unrepeated {ι : Type} (names : ι → List String) (g h : Group) : Prop :=
  ∀ k, ¬ ((names k).any g.is = true ∧ (names k).any h.is = true)

section groups

variable {g : Group} {keyword : String} {widths : List (String × Option Nat)} {args rest : List Bytes}

theorem is_ne (h : g.is keyword = true) {other : String}
    (hne : (Text.bytes keyword).map toAsciiLowercase ≠ (Text.bytes other).map toAsciiLowercase) :
    ¬ g.is other = true := by
  rw [Group.is, eqIgnoreCase_of h, beq_iff_eq]
  exact hne

/-- A keyword of one width only. -/
theorem Group.Complete.wide {w : Option Nat} (hg : g.Complete widths) (h : g.is keyword = true)
    (hw : ∀ p ∈ widths, (Text.bytes keyword).map toAsciiLowercase =
      (Text.bytes p.1).map toAsciiLowercase → p.2 = w) : Wide w g.args := by
  obtain ⟨p, hp, hpis, hwide⟩ := hg
  rw [Group.is, eqIgnoreCase_of h, beq_iff_eq] at hpis
  exact hw p hp hpis ▸ hwide

theorem value_args (h : Wide (some 1) args) : value (args ++ rest) = pure (arg args 0, rest) := by
  obtain ⟨v, rfl⟩ := List.length_eq_one_iff.mp h
  rfl

theorem values_args {n : Nat} (h : Wide (some n) args) :
    values n (args ++ rest) = pure (args, rest) := by
  have hlen : args.length = n := h
  unfold values
  rw [if_neg (by rw [List.length_append]; omega), ← hlen, List.take_left, List.drop_left]

end groups

/-! ## Reading the groups in another order -/

section orders

variable {α β ι φ μ : Type} {V : ι → Type}

/-- The arguments are refused, or taken with a result that has the property. -/
def ParsesTo (Q : α → Prop) (m : Cmd α) : Prop := (∃ a, m = pure a ∧ Q a) ∨ ∃ reply, m = throw reply

theorem parsesTo_pure {Q : α → Prop} {a : α} (h : Q a) : ParsesTo Q (pure a) := .inl ⟨a, rfl, h⟩

theorem parsesTo_throw {Q : α → Prop} (reply : Reply) : ParsesTo Q (throw reply : Cmd α) :=
  .inr ⟨reply, rfl⟩

theorem parsesTo_bind {Q : β → Prop} {m : Cmd α} {f : α → Cmd β} (hm : Parses m)
    (hf : ∀ a, ParsesTo Q (f a)) : ParsesTo Q (m >>= f) := by
  rcases hm with ⟨a, rfl⟩ | ⟨reply, rfl⟩
  · rw [pure_bind]
    exact hf a
  · exact .inr ⟨reply, rfl⟩

theorem parsesTo_ite {Q : α → Prop} {c : Prop} [Decidable c] {m n : Cmd α} (hm : c → ParsesTo Q m)
    (hn : ¬ c → ParsesTo Q n) : ParsesTo Q (if c then m else n) := by
  split
  · exact hm ‹c›
  · exact hn ‹¬ c›

/-- Two computations take their arguments with results that agree, or both refuse them. -/
def Agree (R : α → α → Prop) (m n : Cmd α) : Prop :=
  (∃ a b, m = pure a ∧ n = pure b ∧ R a b) ∨ ∃ reply reply', m = throw reply ∧ n = throw reply'

/-- What the groups mean that are taken. -/
theorem exists_meaning {means : Group → Cmd (Said V φ μ)} (h : ∀ g, Parses (means g)) :
    ∃ f : Group → Said V φ μ, ∀ g s, means g = pure s → means g = pure (f g) := by
  have hone : ∀ g, ∃ s, ∀ s', means g = pure s' → means g = pure s := by
    intro g
    rcases h g with ⟨s, hs⟩ | ⟨reply, hr⟩
    · exact ⟨s, fun _ _ => hs⟩
    · exact ⟨{}, fun s' hs' => absurd (hr.symm.trans hs') throw_ne_pure⟩
  choose f hf using hone
  exact ⟨f, hf⟩

/-- Groups are all taken, or one of them is refused. -/
theorem mapM_means {means : Group → Cmd (Said V φ μ)} (h : ∀ g, Parses (means g))
    {f : Group → Said V φ μ} (hf : ∀ g s, means g = pure s → means g = pure (f g))
    (gs : List Group) :
    ((∀ g ∈ gs, means g = pure (f g)) ∧ gs.mapM means = pure (gs.map f)) ∨
      (∃ g ∈ gs, ∃ reply, means g = throw reply) ∧ ∃ reply, gs.mapM means = throw reply := by
  induction gs with
  | nil => exact .inl ⟨fun _ hg => absurd hg List.not_mem_nil, rfl⟩
  | cons g gs ih =>
    rw [List.mapM_cons]
    rcases h g with ⟨s, hs⟩ | ⟨reply, hr⟩
    · rw [hf g s hs, pure_bind]
      rcases ih with ⟨hall, hgs⟩ | ⟨⟨g', hg', hr⟩, reply, hgs⟩
      · refine .inl ⟨?_, by rw [hgs]; rfl⟩
        intro g' hg'
        rcases List.mem_cons.mp hg' with rfl | hg'
        · exact hf g' s hs
        · exact hall g' hg'
      · exact .inr ⟨⟨g', List.mem_cons_of_mem _ hg', hr⟩, reply, by rw [hgs]; rfl⟩
    · exact .inr ⟨⟨g, List.mem_cons_self .., reply, hr⟩, reply, by rw [hr]; rfl⟩

/-- A group fills only the slots of its keyword. -/
def Fills (names : ι → List String) (g : Group) (s : Said V φ μ) : Prop :=
  ∀ k, s.value k ≠ none → (names k).any g.is = true

/-- A filled slot fits its keyword. -/
theorem fills_one [DecidableEq ι] {names : ι → List String} {g : Group} {k : ι} {v : V k}
    (h : (names k).any g.is = true) : Fills names g (Said.one k v : Said V φ μ) := by
  intro k' hk'
  by_cases hk : k' = k
  · exact hk ▸ h
  · exact absurd (Said.one_value_of_ne hk v) hk'

theorem fills_nothing {names : ι → List String} {g : Group} {s : Said V φ μ}
    (h : s.value = fun _ => none) : Fills names g s := fun k hk => absurd (congrFun h k) hk

/-- Two groups that repeat nothing fill different slots. -/
theorem Fills.apart {names : ι → List String} {g h : Group} {s t : Said V φ μ}
    (hs : Fills names g s) (ht : Fills names h t) (hgh : Unrepeated names g h) : Said.Apart s t := by
  intro k
  by_contra hboth
  rw [not_or] at hboth
  exact hgh k ⟨hs k hboth.1, ht k hboth.2⟩

/-- **Groups without repetition mean the same in every order.** -/
theorem mapM_perm {names : ι → List String} {means : Group → Cmd (Said V φ μ)}
    {Q : Group → Said V φ μ → Prop} (hmeans : ∀ g, ParsesTo (fun s => Fills names g s ∧ Q g s) (means g))
    {gs hs : List Group} (hperm : gs.Perm hs) (hunrepeated : gs.Pairwise (Unrepeated names)) :
    (∃ f : Group → Said V φ μ, (∀ g ∈ gs, Q g (f g)) ∧ gs.mapM means = pure (gs.map f) ∧
        hs.mapM means = pure (hs.map f) ∧ Said.Same (Said.total (gs.map f)) (Said.total (hs.map f))) ∨
      ∃ reply reply', gs.mapM means = throw reply ∧ hs.mapM means = throw reply' := by
  have hparses : ∀ g, Parses (means g) := fun g => (hmeans g).imp (fun ⟨s, hs, _⟩ => ⟨s, hs⟩) id
  obtain ⟨f, hf⟩ := exists_meaning hparses
  rcases mapM_means hparses hf gs with ⟨hall, hgs⟩ | ⟨⟨g, hg, reply, hr⟩, hgs⟩
  · have hhs : hs.mapM means = pure (hs.map f) := by
      rcases mapM_means hparses hf hs with ⟨-, h⟩ | ⟨⟨g, hg, reply, hr⟩, -⟩
      · exact h
      · exact absurd (hr.symm.trans (hall g (hperm.mem_iff.mpr hg))) throw_ne_pure
    have hspec : ∀ g ∈ gs, Fills names g (f g) ∧ Q g (f g) := by
      intro g hg
      rcases hmeans g with ⟨s, hs, hspec⟩ | ⟨reply, hr⟩
      · rw [← pure_injective (hs.symm.trans (hall g hg))]
        exact hspec
      · exact absurd (hr.symm.trans (hall g hg)) throw_ne_pure
    refine .inl ⟨f, fun g hg => (hspec g hg).2, hgs, hhs, Said.total_same (hperm.map f) ?_⟩
    rw [List.pairwise_map]
    exact hunrepeated.imp_of_mem fun hg hh hgh => (hspec _ hg).1.apart (hspec _ hh).1 hgh
  · rcases mapM_means hparses hf hs with ⟨hall, -⟩ | ⟨-, hhs⟩
    · exact absurd (hr.symm.trans (hall g (hperm.mem_iff.mp hg))) throw_ne_pure
    · obtain ⟨reply, hgs⟩ := hgs
      obtain ⟨reply', hhs⟩ := hhs
      exact .inr ⟨reply, reply', hgs, hhs⟩

theorem length_words (gs : List Group) : gs.length ≤ (gs.flatMap Group.words).length := by
  induction gs with
  | nil => exact le_rfl
  | cons g gs ih =>
    rw [List.flatMap_cons, List.length_append, List.length_cons]
    have hword : 1 ≤ g.words.length := by
      unfold Group.words
      rw [List.length_cons]
      omega
    omega

theorem Agree.mono {R S : α → α → Prop} {m n : Cmd α} (h : Agree R m n) (hRS : ∀ a b, R a b → S a b) :
    Agree S m n :=
  h.imp (fun ⟨a, b, hm, hn, hab⟩ => ⟨a, b, hm, hn, hRS a b hab⟩) id

theorem Agree.bind {R : α → α → Prop} {S : β → β → Prop} {m n : Cmd α} {f f' : α → Cmd β}
    (h : Agree R m n) (hf : ∀ a b, R a b → Agree S (f a) (f' b)) : Agree S (m >>= f) (n >>= f') := by
  rcases h with ⟨a, b, rfl, rfl, hab⟩ | ⟨reply, reply', rfl, rfl⟩
  · rw [pure_bind, pure_bind]
    exact hf a b hab
  · exact .inr ⟨reply, reply', rfl, rfl⟩

end orders

/-! ## Vectors -/

/-- The vector a group gives, if it is one. -/
def vectorMeans (g : Group) : Cmd (Option (List F32)) :=
  if g.is "VEC" then
    match parseLeF32 (arg g.args 0) with
    | .ok floats => pure (some floats)
    | .error e => throw (describe (.vector e))
  else if g.is "FVEC" then do
    let floats ← readFloats g.args.tail
    return some floats
  else pure none

/-- The words after `FVEC` are as many as are counted, whatever they spell. -/
theorem readVector_group {g : Group} (hvec : g.is "VEC" = true → Wide (some 1) g.args)
    (hfvec : g.is "FVEC" = true → Wide none g.args) (rest : List Bytes) :
    readVector (g.words ++ rest) = (vectorMeans g >>= fun found =>
      pure (found.map fun floats => (floats, rest))) := by
  show readVector (g.word :: (g.args ++ rest)) = _
  unfold readVector vectorMeans
  dsimp only
  by_cases h : g.is "VEC" = true
  · rw [if_pos h, if_pos h, value_args (hvec h), pure_bind]
    dsimp only
    cases parseLeF32 (arg g.args 0) with
    | ok floats => rfl
    | error e => rfl
  rw [if_neg h, if_neg h]
  by_cases h : g.is "FVEC" = true
  · obtain ⟨count, floats, hargs, hcount⟩ := hfvec h
    rw [if_pos h, if_pos h, hargs, List.cons_append, List.tail_cons,
      show value (count :: (floats ++ rest)) = pure (count, floats ++ rest) from rfl, pure_bind]
    dsimp only
    rw [intArg_eq_pure.mpr hcount, pure_bind, if_neg (by omega), Int.toNat_natCast,
      values_args (show Wide (some floats.length) floats from rfl), pure_bind, bind_assoc]
    rfl
  · rw [if_neg h, if_neg h, pure_bind]
    rfl

theorem parses_readFloats (words : List Bytes) : Parses (readFloats words) := by
  induction words with
  | nil => exact parses_pure []
  | cons word words ih =>
    refine parses_bind (parses_orThrow _ _) fun x => parses_ite ?_ ?_
    · exact parses_bind (parses_throw _) fun _ => parses_bind ih fun rest => parses_pure _
    · exact parses_bind ih fun rest => parses_pure _

/-- A vector is given by `VEC` or `FVEC`. -/
theorem parsesTo_vectorMeans (g : Group) : ParsesTo
    (fun found => found ≠ none → (["VEC", "FVEC"].any g.is) = true) (vectorMeans g) := by
  unfold vectorMeans
  refine parsesTo_ite (fun h => ?_) fun _ => parsesTo_ite (fun h => ?_) fun _ => ?_
  · cases parseLeF32 (arg g.args 0) with
    | ok floats => exact parsesTo_pure fun _ => List.any_eq_true.mpr ⟨_, by simp, h⟩
    | error e => exact parsesTo_throw _
  · refine parsesTo_bind (parses_readFloats _) fun floats => ?_
    exact parsesTo_pure fun _ => List.any_eq_true.mpr ⟨_, by simp, h⟩
  · exact parsesTo_pure fun h => absurd rfl h

/-! ## MEM.ADD -/

section add

/-- The slots of `MEM.ADD`. -/
inductive AddSlot where
  | id | text | importance | ttl | vector
deriving DecidableEq

/-- What fills a slot of `MEM.ADD`. -/
abbrev AddSlot.Value : AddSlot → Type
  | .id | .text => Bytes
  | .importance => F32
  | .ttl => Duration
  | .vector => List F32

/-- The keywords of a slot. -/
def AddSlot.names : AddSlot → List String
  | .id => ["ID"]
  | .text => ["TEXT"]
  | .importance => ["IMPORTANCE"]
  | .ttl => ["TTL"]
  | .vector => ["VEC", "FVEC"]

/-- The flags of `MEM.ADD`. -/
inductive AddFlag where
  | new | existing
deriving DecidableEq

/-- What some groups of a `MEM.ADD` say. -/
abbrev AddSaid := Said AddSlot.Value AddFlag (Bytes × Bytes)

/-- The options of `MEM.ADD`. -/
def addWidths : List (String × Option Nat) :=
  [("ID", some 1), ("TEXT", some 1), ("META", some 2), ("IMPORTANCE", some 1), ("TTL", some 1),
    ("NX", some 0), ("XX", some 0), ("VEC", some 1), ("FVEC", none)]

/-- What one group of a `MEM.ADD` says. -/
def addMeans (config : Config) (g : Group) : Cmd AddSaid :=
  if g.is "ID" then pure (.one .id (arg g.args 0))
  else if g.is "TEXT" then
    if config.memMaxTextBytes < (arg g.args 0).length then
      throw (.error ("ERR text exceeds mem-max-text-bytes (" ++
        showNat config.memMaxTextBytes ++ ")"))
    else pure (.one .text (arg g.args 0))
  else if g.is "META" then pure { listed := [(arg g.args 0, arg g.args 1)] }
  else if g.is "IMPORTANCE" then do
    let x ← floatArg (arg g.args 0)
    let x : F32 := x.cast
    if !(SoftFloat.le (SoftFloat.zero false) x && x.le (lit "1")) then
      throw (.error "ERR IMPORTANCE must be between 0 and 1")
    else pure (.one .importance x)
  else if g.is "TTL" then do
    let seconds ← intArg (arg g.args 0)
    if seconds < 1 then throw (.error "ERR TTL must be positive")
    else pure (.one .ttl (fromSecs seconds.toNat))
  else if g.is "NX" then pure (.raise .new)
  else if g.is "XX" then pure (.raise .existing)
  else do
    let found ← vectorMeans g
    match found with
    | some floats => pure (.one .vector floats)
    | none => throw (unexpected g.word)

/-- A request after more has been said. -/
def putAdd (s : AddSaid) (o : AddRequest × Bool) : AddRequest × Bool :=
  ({ id := (s.value .id).or o.1.id
     text := (s.value .text).getD o.1.text
     vector := (s.value .vector).or o.1.vector
     metadata := o.1.metadata ++ s.listed
     importance := (s.value .importance).or o.1.importance
     ttl := (s.value .ttl).or o.1.ttl
     requireNew := s.flag .new || o.1.requireNew
     requireExisting := s.flag .existing || o.1.requireExisting },
    (s.value .text).isSome || o.2)

variable {config : Config} {g : Group} {rest : List Bytes}

theorem addOptions_group (hg : g.Complete addWidths) (fuel : Nat) (o : AddRequest × Bool) :
    addOptions config (fuel + 1) (g.words ++ rest) o =
      addMeans config g >>= fun s => addOptions config fuel rest (putAdd s o) := by
  obtain ⟨r, hasText⟩ := o
  show addOptions config (fuel + 1) (g.word :: (g.args ++ rest)) (r, hasText) = _
  conv_lhs => unfold addOptions
  unfold addMeans
  dsimp only
  by_cases h : g.is "ID" = true
  · have hw : Wide (some 1) g.args := hg.wide h (by decide)
    rw [if_pos h, if_pos h, value_args hw, pure_bind, pure_bind]
    simp [putAdd, Said.one]
  rw [if_neg h, if_neg h]
  by_cases h : g.is "TEXT" = true
  · have hw : Wide (some 1) g.args := hg.wide h (by decide)
    rw [if_pos h, if_pos h, value_args hw, pure_bind]
    dsimp only
    split
    · rfl
    · simp [putAdd, Said.one]
  rw [if_neg h, if_neg h]
  by_cases h : g.is "META" = true
  · have hw : Wide (some 2) g.args := hg.wide h (by decide)
    rw [if_pos h, if_pos h, values_args hw, pure_bind, pure_bind]
    simp [putAdd]
  rw [if_neg h, if_neg h]
  by_cases h : g.is "IMPORTANCE" = true
  · have hw : Wide (some 1) g.args := hg.wide h (by decide)
    rw [if_pos h, if_pos h, value_args hw, pure_bind, bind_assoc]
    refine bind_congr fun x => ?_
    split
    · rfl
    · simp [putAdd, Said.one]
  rw [if_neg h, if_neg h]
  by_cases h : g.is "TTL" = true
  · have hw : Wide (some 1) g.args := hg.wide h (by decide)
    rw [if_pos h, if_pos h, value_args hw, pure_bind, bind_assoc]
    refine bind_congr fun seconds => ?_
    split
    · rfl
    · simp [putAdd, Said.one]
  rw [if_neg h, if_neg h]
  by_cases h : g.is "NX" = true
  · have hw : Wide (some 0) g.args := hg.wide h (by decide)
    rw [if_pos h, if_pos h, List.length_eq_zero_iff.mp hw, List.nil_append, pure_bind]
    simp [putAdd, Said.raise]
  rw [if_neg h, if_neg h]
  by_cases h : g.is "XX" = true
  · have hw : Wide (some 0) g.args := hg.wide h (by decide)
    rw [if_pos h, if_pos h, List.length_eq_zero_iff.mp hw, List.nil_append, pure_bind]
    simp [putAdd, Said.raise]
  rw [if_neg h, if_neg h]
  have hread := readVector_group (fun h => hg.wide h (by decide)) (fun h => hg.wide h (by decide)) rest
  rw [show g.word :: (g.args ++ rest) = g.words ++ rest from rfl, hread, bind_assoc, bind_assoc]
  refine bind_congr fun found => ?_
  cases found with
  | some floats => simp [putAdd, Said.one]
  | none => rfl

/-- A group lists its pair, if it is a `META`. -/
def addPairs (g : Group) : List (Bytes × Bytes) :=
  if g.is "META" then [(arg g.args 0, arg g.args 1)] else []

theorem addPairs_of_ne (h : ¬ g.is "META" = true) : addPairs g = [] := if_neg h

theorem parsesTo_addMeans (config : Config) (g : Group) : ParsesTo
    (fun s => Fills AddSlot.names g s ∧ s.listed = addPairs g) (addMeans config g) := by
  have hone : ∀ {k : AddSlot} {v : k.Value} {keyword : String}, g.is keyword = true →
      keyword ∈ k.names → ¬ g.is "META" = true → ParsesTo
        (fun s => Fills AddSlot.names g s ∧ s.listed = addPairs g) (pure (Said.one k v : AddSaid)) :=
    fun h hmem hmeta => parsesTo_pure
      ⟨fills_one (List.any_eq_true.mpr ⟨_, hmem, h⟩), (addPairs_of_ne hmeta).symm⟩
  unfold addMeans
  refine parsesTo_ite (fun h => hone h (by decide) (is_ne h (by decide))) fun _ => ?_
  refine parsesTo_ite (fun h => ?_) fun _ => ?_
  · exact parsesTo_ite (fun _ => parsesTo_throw _)
      fun _ => hone h (by decide) (is_ne h (by decide))
  refine parsesTo_ite (fun h => ?_) fun hmeta => ?_
  · exact parsesTo_pure ⟨fills_nothing rfl, (if_pos h).symm⟩
  refine parsesTo_ite (fun h => ?_) fun _ => ?_
  · refine parsesTo_bind (parses_orThrow _ _) fun x => ?_
    exact parsesTo_ite (fun _ => parsesTo_throw _) fun _ => hone h (by decide) hmeta
  refine parsesTo_ite (fun h => ?_) fun _ => ?_
  · refine parsesTo_bind (parses_orThrow _ _) fun x => ?_
    exact parsesTo_ite (fun _ => parsesTo_throw _) fun _ => hone h (by decide) hmeta
  have hraise : ∀ flag, ParsesTo (fun s => Fills AddSlot.names g s ∧ s.listed = addPairs g)
      (pure (Said.raise flag : AddSaid)) :=
    fun flag => parsesTo_pure ⟨fills_nothing rfl, (addPairs_of_ne hmeta).symm⟩
  refine parsesTo_ite (fun _ => hraise _) fun _ => parsesTo_ite (fun _ => hraise _) fun _ => ?_
  rcases parsesTo_vectorMeans g with ⟨found, hfound, hvec⟩ | ⟨reply, hr⟩
  · rw [hfound, pure_bind]
    cases found with
    | some floats =>
      exact parsesTo_pure ⟨fills_one (hvec nofun), (addPairs_of_ne hmeta).symm⟩
    | none => exact parsesTo_throw _
  · rw [hr]
    exact parsesTo_throw _

theorem putAdd_append (a b : AddSaid) (o : AddRequest × Bool) :
    putAdd (a ++ b) o = putAdd b (putAdd a o) := by
  unfold putAdd
  simp only [Said.append_value, Said.append_flag, Said.append_listed, Option.or_assoc, Bool.or_assoc,
    List.append_assoc]
  cases b.value .text with
  | none => rfl
  | some text => rfl

/-- The loop of `MEM.ADD` reads its groups one by one. -/
theorem addOptions_groups {gs : List Group} (hgs : ∀ g ∈ gs, g.Complete addWidths) {fuel : Nat}
    (hfuel : gs.length ≤ fuel) (o : AddRequest × Bool) :
    addOptions config fuel (gs.flatMap Group.words) o =
      gs.mapM (addMeans config) >>= fun ss => pure (putAdd (Said.total ss) o) := by
  refine reads_groups (addOptions config) ?_ ?_ ?_ putAdd_append gs fuel o hgs hfuel
  · intro fuel o
    cases fuel with
    | zero => rfl
    | succ fuel => rfl
  · exact fun fuel g rest o hg => addOptions_group hg fuel o
  · rintro ⟨r, hasText⟩
    simp [putAdd]

/-- The same request, with its metadata in another order. -/
structure SameRequest (a b : AddRequest × Bool) : Prop where
  hasText : a.2 = b.2
  others : b.1 = { a.1 with metadata := b.1.metadata }
  metadata : a.1.metadata.Perm b.1.metadata

/-- **The options of `MEM.ADD` are read alike in every order.** -/
theorem addOptions_perm {gs hs : List Group} (hperm : gs.Perm hs)
    (hgs : ∀ g ∈ gs, g.Complete addWidths) (hunrepeated : gs.Pairwise (Unrepeated AddSlot.names))
    (o : AddRequest × Bool) :
    Agree (fun a b => SameRequest a b ∧ a.1.metadata = o.1.metadata ++ gs.flatMap addPairs)
      (addOptions config (gs.flatMap Group.words).length (gs.flatMap Group.words) o)
      (addOptions config (hs.flatMap Group.words).length (hs.flatMap Group.words) o) := by
  rw [addOptions_groups hgs (length_words gs),
    addOptions_groups (fun g hg => hgs g (hperm.mem_iff.mpr hg)) (length_words hs)]
  rcases mapM_perm (parsesTo_addMeans config) hperm hunrepeated with
    ⟨f, hlisted, hgm, hhm, hsame⟩ | ⟨reply, reply', hgm, hhm⟩
  · rw [hgm, hhm, pure_bind, pure_bind]
    refine .inl ⟨_, _, rfl, rfl, ⟨?_, ?_, ?_⟩, ?_⟩
    · exact congrArg (fun text => text.isSome || o.2) (hsame.value .text)
    · unfold putAdd
      simp only [hsame.value, hsame.flag]
    · exact hsame.listed.append_left _
    · show _ ++ (Said.total (gs.map f)).listed = _
      congr 1
      rw [Said.total_listed, List.flatMap_map]
      exact List.flatMap_congr hlisted
  · rw [hgm, hhm]
    exact .inr ⟨reply, reply', rfl, rfl⟩

end add

/-! ## MEM.CREATE -/

section create

/-- The slots of `MEM.CREATE`. -/
inductive CreateSlot where
  | mode | dim | metric | weights | halfLife
deriving DecidableEq

/-- What fills a slot of `MEM.CREATE`. -/
abbrev CreateSlot.Value : CreateSlot → Type
  | .mode => Mode
  | .dim => Nat
  | .metric => Metric
  | .weights => Weights
  | .halfLife => Duration

/-- The keywords of a slot. -/
def CreateSlot.names : CreateSlot → List String
  | .mode => ["MODE"]
  | .dim => ["DIM"]
  | .metric => ["METRIC"]
  | .weights => ["WEIGHTS"]
  | .halfLife => ["HALFLIFE"]

/-- What some groups of a `MEM.CREATE` say; there are no flags, and nothing is given twice. -/
abbrev CreateSaid := Said CreateSlot.Value Empty Empty

/-- The options of `MEM.CREATE`. -/
def createWidths : List (String × Option Nat) :=
  [("MODE", some 1), ("DIM", some 1), ("METRIC", some 1), ("WEIGHTS", some 4), ("HALFLIFE", some 1)]

/-- What one group of a `MEM.CREATE` says. -/
def createMeans (config : Config) (g : Group) : Cmd CreateSaid :=
  if g.is "MODE" then do
    let mode ← orThrow syntaxError (Mode.parse (arg g.args 0))
    return .one .mode mode
  else if g.is "DIM" then do
    let n ← intArg (arg g.args 0)
    if n < 1 ∨ config.memMaxDim < n.toNat then
      throw (.error ("ERR DIM must be between 1 and mem-max-dim (" ++ showNat config.memMaxDim ++
        ")"))
    else return .one .dim n.toNat
  else if g.is "METRIC" then do
    let metric ← orThrow syntaxError (Metric.parse (arg g.args 0))
    return .one .metric metric
  else if g.is "WEIGHTS" then do
    let weights ← readWeights g.args
    return .one .weights weights
  else if g.is "HALFLIFE" then do
    let seconds ← intArg (arg g.args 0)
    if seconds < 1 then throw (.error "ERR HALFLIFE must be positive")
    else return .one .halfLife (fromSecs seconds.toNat)
  else throw (unexpected g.word)

/-- The options after more has been said. -/
def putCreate (s : CreateSaid) (o : CreateOptions) : CreateOptions where
  mode := (s.value .mode).getD o.mode
  dim := (s.value .dim).or o.dim
  metric := (s.value .metric).getD o.metric
  weights := (s.value .weights).or o.weights
  halfLife := (s.value .halfLife).getD o.halfLife

variable {config : Config} {g : Group} {rest : List Bytes}

theorem createOptions_group (hg : g.Complete createWidths) (fuel : Nat) (o : CreateOptions) :
    createOptions config (fuel + 1) (g.words ++ rest) o =
      createMeans config g >>= fun s => createOptions config fuel rest (putCreate s o) := by
  show createOptions config (fuel + 1) (g.word :: (g.args ++ rest)) o = _
  conv_lhs => unfold createOptions
  unfold createMeans
  dsimp only
  by_cases h : g.is "MODE" = true
  · have hw : Wide (some 1) g.args := hg.wide h (by decide)
    rw [if_pos h, if_pos h, value_args hw, pure_bind, bind_assoc]
    refine bind_congr fun mode => ?_
    simp [putCreate, Said.one]
  rw [if_neg h, if_neg h]
  by_cases h : g.is "DIM" = true
  · have hw : Wide (some 1) g.args := hg.wide h (by decide)
    rw [if_pos h, if_pos h, value_args hw, pure_bind, bind_assoc]
    refine bind_congr fun n => ?_
    split
    · rfl
    · simp [putCreate, Said.one]
  rw [if_neg h, if_neg h]
  by_cases h : g.is "METRIC" = true
  · have hw : Wide (some 1) g.args := hg.wide h (by decide)
    rw [if_pos h, if_pos h, value_args hw, pure_bind, bind_assoc]
    refine bind_congr fun metric => ?_
    simp [putCreate, Said.one]
  rw [if_neg h, if_neg h]
  by_cases h : g.is "WEIGHTS" = true
  · have hw : Wide (some 4) g.args := hg.wide h (by decide)
    rw [if_pos h, if_pos h, values_args hw, pure_bind, bind_assoc]
    refine bind_congr fun weights => ?_
    simp [putCreate, Said.one]
  rw [if_neg h, if_neg h]
  by_cases h : g.is "HALFLIFE" = true
  · have hw : Wide (some 1) g.args := hg.wide h (by decide)
    rw [if_pos h, if_pos h, value_args hw, pure_bind, bind_assoc]
    refine bind_congr fun seconds => ?_
    split
    · rfl
    · simp [putCreate, Said.one]
  rw [if_neg h, if_neg h]
  rfl

theorem parses_readWeights (words : List Bytes) : Parses (readWeights words) := by
  refine parses_bind (parses_orThrow _ _) fun keyword => parses_bind (parses_orThrow _ _) fun vector => ?_
  refine parses_bind (parses_orThrow _ _) fun recency => parses_bind (parses_orThrow _ _) fun x => ?_
  exact parses_pure _

theorem parsesTo_createMeans (config : Config) (g : Group) :
    ParsesTo (fun s => Fills CreateSlot.names g s ∧ True) (createMeans config g) := by
  have hone : ∀ {k : CreateSlot} {v : k.Value} {keyword : String}, g.is keyword = true →
      keyword ∈ k.names → ParsesTo (fun s => Fills CreateSlot.names g s ∧ True)
        (pure (Said.one k v : CreateSaid)) :=
    fun h hmem => parsesTo_pure ⟨fills_one (List.any_eq_true.mpr ⟨_, hmem, h⟩), trivial⟩
  unfold createMeans
  refine parsesTo_ite (fun h => ?_) fun _ => ?_
  · exact parsesTo_bind (parses_orThrow _ _) fun mode => hone h (by decide)
  refine parsesTo_ite (fun h => ?_) fun _ => ?_
  · refine parsesTo_bind (parses_orThrow _ _) fun n => ?_
    exact parsesTo_ite (fun _ => parsesTo_throw _) fun _ => hone h (by decide)
  refine parsesTo_ite (fun h => ?_) fun _ => ?_
  · exact parsesTo_bind (parses_orThrow _ _) fun metric => hone h (by decide)
  refine parsesTo_ite (fun h => ?_) fun _ => ?_
  · exact parsesTo_bind (parses_readWeights _) fun weights => hone h (by decide)
  refine parsesTo_ite (fun h => ?_) fun _ => ?_
  · refine parsesTo_bind (parses_orThrow _ _) fun seconds => ?_
    exact parsesTo_ite (fun _ => parsesTo_throw _) fun _ => hone h (by decide)
  · exact parsesTo_throw _

theorem putCreate_append (a b : CreateSaid) (o : CreateOptions) :
    putCreate (a ++ b) o = putCreate b (putCreate a o) := by
  unfold putCreate
  simp only [Said.append_value, Option.or_assoc, Option.getD_or]

/-- **The options of `MEM.CREATE` are read alike in every order.** -/
theorem createOptions_perm {gs hs : List Group} (hperm : gs.Perm hs)
    (hgs : ∀ g ∈ gs, g.Complete createWidths)
    (hunrepeated : gs.Pairwise (Unrepeated CreateSlot.names)) (o : CreateOptions) :
    Agree (fun a b => a = b)
      (createOptions config (gs.flatMap Group.words).length (gs.flatMap Group.words) o)
      (createOptions config (hs.flatMap Group.words).length (hs.flatMap Group.words) o) := by
  have hread : ∀ {gs : List Group}, (∀ g ∈ gs, g.Complete createWidths) →
      createOptions config (gs.flatMap Group.words).length (gs.flatMap Group.words) o =
        gs.mapM (createMeans config) >>= fun ss => pure (putCreate (Said.total ss) o) := by
    intro gs hgs
    refine reads_groups (createOptions config) ?_ ?_ ?_ putCreate_append gs _ o hgs (length_words gs)
    · intro fuel o
      cases fuel with
      | zero => rfl
      | succ fuel => rfl
    · exact fun fuel g rest o hg => createOptions_group hg fuel o
    · exact fun o => rfl
  rw [hread hgs, hread fun g hg => hgs g (hperm.mem_iff.mpr hg)]
  rcases mapM_perm (parsesTo_createMeans config) hperm hunrepeated with
    ⟨f, -, hgm, hhm, hsame⟩ | ⟨reply, reply', hgm, hhm⟩
  · rw [hgm, hhm, pure_bind, pure_bind]
    refine .inl ⟨_, _, rfl, rfl, ?_⟩
    unfold putCreate
    simp only [hsame.value]
  · rw [hgm, hhm]
    exact .inr ⟨reply, reply', rfl, rfl⟩

end create

/-! ## MEM.QUERY -/

section query

/-- The slots of `MEM.QUERY`. -/
inductive QuerySlot where
  | text | weights | fusion | vector | topk
deriving DecidableEq

/-- What fills a slot of `MEM.QUERY`. -/
abbrev QuerySlot.Value : QuerySlot → Type
  | .text => Bytes
  | .weights => Weights
  | .fusion => Fusion
  | .vector => List F32
  | .topk => Nat

/-- The keywords of a slot. -/
def QuerySlot.names : QuerySlot → List String
  | .text => ["TEXT"]
  | .weights => ["WEIGHTS"]
  | .fusion => ["FUSION"]
  | .vector => ["VEC", "FVEC"]
  | .topk => ["TOPK"]

/-- The flags of `MEM.QUERY`. -/
inductive QueryFlag where
  | noText | metadata | vector | scores
deriving DecidableEq

/-- What some groups of a `MEM.QUERY` say. -/
abbrev QuerySaid := Said QuerySlot.Value QueryFlag Clause

/-- The options of `MEM.QUERY`. -/
def queryWidths : List (String × Option Nat) :=
  [("TEXT", some 1), ("WEIGHTS", some 4), ("FUSION", some 1), ("VEC", some 1), ("FVEC", none),
    ("TOPK", some 1), ("NOTEXT", some 0), ("WITHMETA", some 0), ("WITHVEC", some 0),
    ("WITHSCORES", some 0), ("FILTER", some 3)]

/-- What one group that every retrieval has says. -/
def retrievalMeans (config : Config) (g : Group) : Cmd QuerySaid :=
  if g.is "TOPK" then do
    let n ← intArg (arg g.args 0)
    if n < 1 ∨ config.memMaxTopk < n.toNat then
      throw (.error ("ERR TOPK must be between 1 and mem-max-topk (" ++
        showNat config.memMaxTopk ++ ")"))
    else return .one .topk n.toNat
  else if g.is "NOTEXT" then pure (.raise .noText)
  else if g.is "WITHMETA" then pure (.raise .metadata)
  else if g.is "WITHVEC" then pure (.raise .vector)
  else if g.is "WITHSCORES" then pure (.raise .scores)
  else if g.is "FILTER" then
    match Field.parse (arg g.args 0), Op.parse (arg g.args 1) with
    | some field, some op => pure { listed := [⟨field, op, arg g.args 2⟩] }
    | _, _ => throw (.error ("ERR bad filter clause '" ++ toDisplay (arg g.args 0) ++ " " ++
        toDisplay (arg g.args 1) ++ "'"))
  else throw (unexpected g.word)

/-- What one group of a `MEM.QUERY` says. -/
def queryMeans (config : Config) (g : Group) : Cmd QuerySaid :=
  if g.is "TEXT" then pure (.one .text (arg g.args 0))
  else if g.is "WEIGHTS" then do
    let candidate ← readWeights g.args
    if !candidate.isValid then throw badWeights
    else return .one .weights candidate
  else if g.is "FUSION" then do
    let fusion ← orThrow syntaxError (Fusion.parse (arg g.args 0))
    return .one .fusion fusion
  else do
    let found ← vectorMeans g
    match found with
    | some floats => pure (.one .vector floats)
    | none => retrievalMeans config g

/-- The options of a retrieval after more has been said. -/
def putRetrieval (config : Config) (s : QuerySaid) (r : Retrieval) : Retrieval where
  topk := (s.value .topk).getD r.topk
  candidates := ((s.value .topk).map fun n => Nat.max config.memMaxCandidates n).getD r.candidates
  filter := r.filter ++ s.listed
  returns :=
    { noText := s.flag .noText || r.returns.noText
      metadata := s.flag .metadata || r.returns.metadata
      vector := s.flag .vector || r.returns.vector
      scores := s.flag .scores || r.returns.scores }

/-- The options after more has been said. -/
def putQuery (config : Config) (s : QuerySaid) (o : QueryOptions) : QueryOptions where
  retrieval := putRetrieval config s o.retrieval
  text := (s.value .text).or o.text
  vector := (s.value .vector).or o.vector
  weights := (s.value .weights).or o.weights
  fusion := (s.value .fusion).getD o.fusion

variable {config : Config} {g : Group} {rest : List Bytes}

theorem retrieval_group (hg : g.Complete queryWidths) (r : Retrieval) :
    r.read config (g.words ++ rest) =
      retrievalMeans config g >>= fun s => pure (putRetrieval config s r, rest) := by
  show Retrieval.read config r (g.word :: (g.args ++ rest)) = _
  unfold Retrieval.read retrievalMeans
  dsimp only
  by_cases h : g.is "TOPK" = true
  · have hw : Wide (some 1) g.args := hg.wide h (by decide)
    rw [if_pos h, if_pos h, value_args hw, pure_bind, bind_assoc]
    refine bind_congr fun n => ?_
    split
    · rfl
    · simp [putRetrieval, Said.one]
  rw [if_neg h, if_neg h]
  unfold Returns.read
  by_cases h : g.is "NOTEXT" = true
  · have hw : Wide (some 0) g.args := hg.wide h (by decide)
    rw [if_pos h, if_pos h, List.length_eq_zero_iff.mp hw, List.nil_append, pure_bind]
    simp [putRetrieval, Said.raise]
  rw [if_neg h, if_neg h]
  by_cases h : g.is "WITHMETA" = true
  · have hw : Wide (some 0) g.args := hg.wide h (by decide)
    rw [if_pos h, if_pos h, List.length_eq_zero_iff.mp hw, List.nil_append, pure_bind]
    simp [putRetrieval, Said.raise]
  rw [if_neg h, if_neg h]
  by_cases h : g.is "WITHVEC" = true
  · have hw : Wide (some 0) g.args := hg.wide h (by decide)
    rw [if_pos h, if_pos h, List.length_eq_zero_iff.mp hw, List.nil_append, pure_bind]
    simp [putRetrieval, Said.raise]
  rw [if_neg h, if_neg h]
  by_cases h : g.is "WITHSCORES" = true
  · have hw : Wide (some 0) g.args := hg.wide h (by decide)
    rw [if_pos h, if_pos h, List.length_eq_zero_iff.mp hw, List.nil_append, pure_bind]
    simp [putRetrieval, Said.raise]
  rw [if_neg h, if_neg h]
  dsimp only
  unfold readFilterClause
  dsimp only
  by_cases h : g.is "FILTER" = true
  · have hw : Wide (some 3) g.args := hg.wide h (by decide)
    rw [if_pos h, if_pos h, values_args hw, pure_bind]
    dsimp only
    cases Field.parse (arg g.args 0) with
    | none => rfl
    | some field =>
      cases Op.parse (arg g.args 1) with
      | none => rfl
      | some op => simp [putRetrieval]
  rw [if_neg h, if_neg h]
  rfl

/-- A group that every retrieval has fills no slot but that of `TOPK`. -/
theorem parsesTo_retrievalMeans (config : Config) (g : Group) : ParsesTo
    (fun s => Fills QuerySlot.names g s ∧ ∀ k, k ≠ .topk → s.value k = none)
    (retrievalMeans config g) := by
  have hnothing : ∀ {s : QuerySaid}, (s.value = fun _ => none) → ParsesTo
      (fun s => Fills QuerySlot.names g s ∧ ∀ k, k ≠ .topk → s.value k = none) (pure s) :=
    fun h => parsesTo_pure ⟨fills_nothing h, fun k _ => congrFun h k⟩
  unfold retrievalMeans
  refine parsesTo_ite (fun h => ?_) fun _ => ?_
  · refine parsesTo_bind (parses_orThrow _ _) fun n => ?_
    refine parsesTo_ite (fun _ => parsesTo_throw _) fun _ => parsesTo_pure ⟨?_, fun k hk => ?_⟩
    · exact fills_one (List.any_eq_true.mpr ⟨_, by decide, h⟩)
    · exact Said.one_value_of_ne hk _
  refine parsesTo_ite (fun _ => hnothing rfl) fun _ => ?_
  refine parsesTo_ite (fun _ => hnothing rfl) fun _ => ?_
  refine parsesTo_ite (fun _ => hnothing rfl) fun _ => ?_
  refine parsesTo_ite (fun _ => hnothing rfl) fun _ => ?_
  refine parsesTo_ite (fun _ => ?_) fun _ => parsesTo_throw _
  cases Field.parse (arg g.args 0) with
  | none => exact parsesTo_throw _
  | some field =>
    cases Op.parse (arg g.args 1) with
    | none => exact parsesTo_throw _
    | some op => exact hnothing rfl

theorem queryOptions_group (hg : g.Complete queryWidths) (fuel : Nat) (o : QueryOptions) :
    queryOptions config (fuel + 1) (g.words ++ rest) o =
      queryMeans config g >>= fun s => queryOptions config fuel rest (putQuery config s o) := by
  show queryOptions config (fuel + 1) (g.word :: (g.args ++ rest)) o = _
  conv_lhs => unfold queryOptions
  unfold queryMeans
  dsimp only
  by_cases h : g.is "TEXT" = true
  · have hw : Wide (some 1) g.args := hg.wide h (by decide)
    rw [if_pos h, if_pos h, value_args hw, pure_bind, pure_bind]
    simp [putQuery, putRetrieval, Said.one]
  rw [if_neg h, if_neg h]
  by_cases h : g.is "WEIGHTS" = true
  · have hw : Wide (some 4) g.args := hg.wide h (by decide)
    rw [if_pos h, if_pos h, values_args hw, pure_bind, bind_assoc]
    refine bind_congr fun candidate => ?_
    split
    · rfl
    · simp [putQuery, putRetrieval, Said.one]
  rw [if_neg h, if_neg h]
  by_cases h : g.is "FUSION" = true
  · have hw : Wide (some 1) g.args := hg.wide h (by decide)
    rw [if_pos h, if_pos h, value_args hw, pure_bind, bind_assoc]
    refine bind_congr fun fusion => ?_
    simp [putQuery, putRetrieval, Said.one]
  rw [if_neg h, if_neg h]
  have hread := readVector_group (fun h => hg.wide h (by decide)) (fun h => hg.wide h (by decide)) rest
  rw [show g.word :: (g.args ++ rest) = g.words ++ rest from rfl, hread, bind_assoc, bind_assoc]
  refine bind_congr fun found => ?_
  rw [pure_bind]
  cases found with
  | some floats => simp [putQuery, putRetrieval, Said.one]
  | none =>
    dsimp only [Option.map_none]
    rw [retrieval_group hg, bind_assoc]
    rcases parsesTo_retrievalMeans config g with ⟨s, hs, -, hother⟩ | ⟨reply, hr⟩
    · rw [hs, pure_bind, pure_bind, pure_bind]
      have hput : putQuery config s o = { o with retrieval := putRetrieval config s o.retrieval } := by
        unfold putQuery
        rw [hother .text nofun, hother .vector nofun, hother .weights nofun, hother .fusion nofun]
        rfl
      rw [hput]
    · rw [hr]
      rfl

theorem parsesTo_queryMeans (config : Config) (g : Group) :
    ParsesTo (fun s => Fills QuerySlot.names g s ∧ True) (queryMeans config g) := by
  have hone : ∀ {k : QuerySlot} {v : k.Value} {keyword : String}, g.is keyword = true →
      keyword ∈ k.names → ParsesTo (fun s => Fills QuerySlot.names g s ∧ True)
        (pure (Said.one k v : QuerySaid)) :=
    fun h hmem => parsesTo_pure ⟨fills_one (List.any_eq_true.mpr ⟨_, hmem, h⟩), trivial⟩
  unfold queryMeans
  refine parsesTo_ite (fun h => hone h (by decide)) fun _ => ?_
  refine parsesTo_ite (fun h => ?_) fun _ => ?_
  · refine parsesTo_bind (parses_readWeights _) fun candidate => ?_
    exact parsesTo_ite (fun _ => parsesTo_throw _) fun _ => hone h (by decide)
  refine parsesTo_ite (fun h => ?_) fun _ => ?_
  · exact parsesTo_bind (parses_orThrow _ _) fun fusion => hone h (by decide)
  rcases parsesTo_vectorMeans g with ⟨found, hfound, hvec⟩ | ⟨reply, hr⟩
  · rw [hfound, pure_bind]
    cases found with
    | some floats => exact parsesTo_pure ⟨fills_one (hvec nofun), trivial⟩
    | none =>
      rcases parsesTo_retrievalMeans config g with ⟨s, hs, hfills, -⟩ | ⟨reply, hr⟩
      · exact .inl ⟨s, hs, hfills, trivial⟩
      · exact .inr ⟨reply, hr⟩
  · rw [hr]
    exact parsesTo_throw _

theorem putQuery_append (a b : QuerySaid) (o : QueryOptions) :
    putQuery config (a ++ b) o = putQuery config b (putQuery config a o) := by
  unfold putQuery putRetrieval
  simp only [Said.append_value, Said.append_flag, Said.append_listed, Option.or_assoc, Option.getD_or,
    Option.map_or, Bool.or_assoc, List.append_assoc]

/-- The same query, with its filter in another order. -/
structure SameQuery (a b : QueryOptions) : Prop where
  others : b = { a with retrieval := { a.retrieval with filter := b.retrieval.filter } }
  filter : a.retrieval.filter.Perm b.retrieval.filter

/-- **The options of `MEM.QUERY` are read alike in every order.** -/
theorem queryOptions_perm {gs hs : List Group} (hperm : gs.Perm hs)
    (hgs : ∀ g ∈ gs, g.Complete queryWidths)
    (hunrepeated : gs.Pairwise (Unrepeated QuerySlot.names)) (o : QueryOptions) :
    Agree SameQuery
      (queryOptions config (gs.flatMap Group.words).length (gs.flatMap Group.words) o)
      (queryOptions config (hs.flatMap Group.words).length (hs.flatMap Group.words) o) := by
  have hread : ∀ {gs : List Group}, (∀ g ∈ gs, g.Complete queryWidths) →
      queryOptions config (gs.flatMap Group.words).length (gs.flatMap Group.words) o =
        gs.mapM (queryMeans config) >>= fun ss => pure (putQuery config (Said.total ss) o) := by
    intro gs hgs
    refine reads_groups (queryOptions config) ?_ ?_ ?_ putQuery_append gs _ o hgs (length_words gs)
    · intro fuel o
      cases fuel with
      | zero => rfl
      | succ fuel => rfl
    · exact fun fuel g rest o hg => queryOptions_group hg fuel o
    · intro o
      simp [putQuery, putRetrieval]
  rw [hread hgs, hread fun g hg => hgs g (hperm.mem_iff.mpr hg)]
  rcases mapM_perm (parsesTo_queryMeans config) hperm hunrepeated with
    ⟨f, -, hgm, hhm, hsame⟩ | ⟨reply, reply', hgm, hhm⟩
  · rw [hgm, hhm, pure_bind, pure_bind]
    refine .inl ⟨_, _, rfl, rfl, ?_, ?_⟩
    · unfold putQuery putRetrieval
      simp only [hsame.value, hsame.flag]
    · exact hsame.listed.append_left _
  · rw [hgm, hhm]
    exact .inr ⟨reply, reply', rfl, rfl⟩

end query

end Klyro.Memories
