import Klyro.Commands.Blocking
import Klyro.Commands.Effects
import Klyro.Commands.Standing
import Klyro.Commands.Zsets

/-!
# Blocking and multi-key pops are plain pops

* `FirstLive K type keys key` — `key` is the first of `keys` that exists, and it has the type.
* `popUpTo_list`, `moveOne_list` — the pops of one key, however they are written.
* `popFirstList_found`, `mpopLists_found`, `popFirstZset_found`, `mpopZsets_found` — the searches.
* `Leaves` — what a command answers from one store, and what it leaves in sight.
* `pops_plain` — every blocking or multi-key pop beside its plain spelling.
-/

set_option autoImplicit false

namespace Klyro

open Store Keyspace Blocking
open Lists (End popFrom pushTo popOne popMany moveOne)

/-- The first key that exists, of the type asked for. -/
def FirstLive (K : Keyspace) (type : StoreType) (keys : List Bytes) (key : Bytes) : Prop :=
  ∃ before after, keys = before ++ key :: after ∧ (∀ k ∈ before, K k = none) ∧
    ∃ x d, K key = some (x, d) ∧ x.typeOf = type

/-- The values in sight are no empty collections. -/
def NoneEmpty (K : Keyspace) : Prop := ∀ k x d, K k = some (x, d) → x.isEmptyCollection = false

section keys

variable {e : Env} {t : SystemTime} {K : Keyspace} {key : Bytes} {d : Option SystemTime}
  (ht : e.StandsAt t)

/-! ## One list -/

theorem popFrom_isSome {l : ListValue} (hl : l ≠ []) (side : End) :
    ∃ v rest, popFrom l side = some (v, rest) := by
  cases side with
  | left =>
    obtain ⟨v, rest, rfl⟩ := List.exists_cons_of_ne_nil hl
    exact ⟨v, rest, rfl⟩
  | right =>
    refine ⟨l.getLast hl, l.dropLast, ?_⟩
    unfold popFrom
    simp only [List.getLast?_eq_some_getLast hl]

theorem popMany_nil (side : End) (n : Nat) : popMany side n [] = ([], []) := by
  cases n with
  | zero => rfl
  | succ n => cases side <;> rfl

theorem popMany_succ {side : End} {l rest : ListValue} {v : Bytes}
    (h : popFrom l side = some (v, rest)) (n : Nat) :
    popMany side (n + 1) l = (v :: (popMany side n rest).1, (popMany side n rest).2) := by
  simp only [popMany, h]

theorem unlessEmpty_cons {l : ListValue} (hl : l ≠ []) :
    unlessEmpty (some (.list l, d)) = some (.list l, d) := by
  simp [unlessEmpty, Value.isEmptyCollection, hl]

include ht

/-- A handler writes to a key and looks at it once more. -/
theorem givesE_writeAndTidy {τ α β : Type} {V : Variant τ} {g : τ → α × τ} {v : τ}
    (hlive : K key = some (V.wrap v, d)) {f : Option α → Cmd β} {reply : β}
    (hf : f (some (g v).1) = pure reply) :
    GivesE e t K (do
      let a ← (write V key (Act.state g) : Run Store (Option α))
      Store.deleteIfEmpty key
      f a) (.ok reply) (Function.update K key (unlessEmpty (some (V.wrap (g v).2, d)))) := by
  refine givesE_bind (givesE_lift (gives_write ht hlive))
    (givesE_bind (givesE_lift (gives_deleteIfEmpty ht key)) ?_)
  rw [Function.update_self, Function.update_idem, hf]
  exact givesE_pure reply

theorem popOne_none (hnone : K key = none) (side : End) : Gives e t K (popOne key side) none K :=
  gives_bind (gives_write_none ht hnone) (gives_pure none)

theorem gives_pop {l rest : ListValue} {v : Bytes} {side : End} (hlive : K key = some (.list l, d))
    (h : popFrom l side = some (v, rest)) : Gives e t K (Store.writeList key (Lists.pop side)) (some (some v))
      (Function.update K key (some (.list rest, d))) := by
  unfold Lists.pop
  have hgives : ∀ g : ListValue → Option Bytes × ListValue, g l = (some v, rest) →
      Gives e t K (Store.writeList key (Act.state g)) (some (some v))
        (Function.update K key (some (.list rest, d))) := by
    intro g hg
    have hwrite := gives_write (V := .list) (g := g) ht hlive
    rwa [hg] at hwrite
  exact hgives _ (by rw [h])

theorem popOne_list {l rest : ListValue} {v : Bytes} {side : End}
    (hlive : K key = some (.list l, d)) (h : popFrom l side = some (v, rest)) :
    Gives e t K (popOne key side) (some v)
      (Function.update K key (unlessEmpty (some (.list rest, d)))) := by
  refine gives_bind (gives_pop ht hlive h) (gives_bind (gives_deleteIfEmpty ht key) ?_)
  rw [Function.update_self, Function.update_idem]
  exact gives_pure _

theorem popUpTo_none (hnone : K key = none) (side : End) (n : Nat) :
    Gives e t K (popUpTo key side n) [] K := by
  cases n with
  | zero => exact gives_pure []
  | succ n => exact gives_bind (popOne_none ht hnone side) (gives_pure [])

/-- The counted loop takes what the counted pop takes, and tidies up as it goes. -/
theorem popUpTo_list {l : ListValue} (hl : l ≠ []) (hlive : K key = some (.list l, d)) (side : End)
    (n : Nat) : Gives e t K (popUpTo key side n) (popMany side n l).1
      (Function.update K key (unlessEmpty (some (.list (popMany side n l).2, d)))) := by
  induction n generalizing K l with
  | zero =>
    show Gives e t K (pure []) [] (Function.update K key (unlessEmpty (some (.list l, d))))
    rw [unlessEmpty_cons hl, ← hlive, Function.update_eq_self]
    exact gives_pure []
  | succ n ih =>
    obtain ⟨v, rest, h⟩ := popFrom_isSome hl side
    rw [popMany_succ h]
    refine gives_bind (popOne_list ht hlive h) ?_
    by_cases hrest : rest = []
    · subst hrest
      rw [popMany_nil]
      exact gives_bind (popUpTo_none ht (Function.update_self ..) side n) (gives_pure _)
    · rw [unlessEmpty_cons hrest]
      have hgives := ih hrest (K := Function.update K key (some (.list rest, d)))
        (Function.update_self ..)
      rw [Function.update_idem] at hgives
      exact gives_bind hgives (gives_pure _)

/-! ## One sorted set -/

omit ht in
theorem pop_ne_nil {z : Zset} (hz : z.size ≠ 0) {n : Nat} (hn : 0 < n) (fromMax : Bool) :
    (z.pop n fromMax).1 ≠ [] := by
  have hentries : z.entries.length ≠ 0 := hz
  rw [← List.length_pos_iff_ne_nil]
  cases fromMax with
  | false =>
    show 0 < (z.entries.take (min n z.entries.length)).length
    rw [List.length_take]
    omega
  | true =>
    show 0 < (z.entries.drop (z.entries.length - min n z.entries.length)).reverse.length
    rw [List.length_reverse, List.length_drop]
    omega

omit ht in
theorem length_pop_one {z : Zset} (hz : z.size ≠ 0) (fromMax : Bool) :
    (z.pop 1 fromMax).1.length = 1 := by
  have hentries : z.entries.length ≠ 0 := hz
  have hcount : min 1 z.entries.length = 1 := by omega
  cases fromMax with
  | false =>
    show (z.entries.take (min 1 z.entries.length)).length = 1
    rw [List.length_take, hcount, hcount]
  | true =>
    show (z.entries.drop (z.entries.length - min 1 z.entries.length)).reverse.length = 1
    rw [List.length_reverse, List.length_drop, hcount]
    omega

theorem popOneScored_none (hnone : K key = none) (edge : Edge) (n : Nat) :
    Gives e t K (popOneScored key edge n) [] K :=
  gives_bind (gives_write_none ht hnone) (gives_pure [])

theorem popOneScored_zset {z : Zset} (hz : z.size ≠ 0) (hlive : K key = some (.zset z, d))
    {n : Nat} (hn : 0 < n) (edge : Edge) :
    Gives e t K (popOneScored key edge n) (z.pop n (edge == .max)).1
      (Function.update K key (unlessEmpty (some (.zset (z.pop n (edge == .max)).2, d)))) := by
  refine gives_bind (gives_write (V := .zset) ht hlive) ?_
  dsimp only [Option.getD_some]
  rw [if_neg (by simpa using pop_ne_nil hz hn (edge == .max))]
  refine gives_bind (gives_deleteIfEmpty ht key) ?_
  rw [Function.update_self, Function.update_idem]
  exact gives_pure _

/-! ## The first key that exists -/

/-- A search passes over the keys that do not exist. -/
theorem gives_checked_none {α : Type} {type : StoreType} (hnone : K key = none) {f : Unit → Cmd α}
    {r : Except Reply α} {K' : Keyspace} (hf : GivesE e t K (f ()) r K') :
    GivesE e t K (checkType key type >>= f) r K' :=
  givesE_bind (givesE_checkType ht fun x d h => by cases hnone.symm.trans h) hf

theorem gives_checked_some {α : Type} {x : Value} (hlive : K key = some (x, d)) {f : Unit → Cmd α}
    {r : Except Reply α} {K' : Keyspace} (hf : GivesE e t K (f ()) r K') :
    GivesE e t K (checkType key x.typeOf >>= f) r K' := by
  refine givesE_bind (givesE_checkType ht fun x' d' h => ?_) hf
  cases hlive.symm.trans h
  rfl

/-- A search over keys ends with the last of them and passes over one that does not exist. -/
structure Passes (e : Env) (t : SystemTime) (K : Keyspace)
    (search : List Bytes → Cmd (Option Reply)) : Prop where
  nil : search [] = pure none
  cons : ∀ {key keys r K'}, K key = none → GivesE e t K (search keys) r K' →
    GivesE e t K (search (key :: keys)) r K'

section searches

variable {search : List Bytes → Cmd (Option Reply)} {keys : List Bytes} {side : End} {edge : Edge}
  {n : Nat}

omit ht in
theorem Passes.first (h : Passes e t K search) {before : List Bytes}
    (hnone : ∀ k ∈ before, K k = none) {r : Except Reply (Option Reply)} {K' : Keyspace}
    (hfound : GivesE e t K (search keys) r K') : GivesE e t K (search (before ++ keys)) r K' := by
  induction before with
  | nil => exact hfound
  | cons k before ih =>
    exact h.cons (hnone k (List.mem_cons_self ..))
      (ih fun k hk => hnone k (List.mem_cons_of_mem _ hk))

omit ht in
theorem Passes.absent (h : Passes e t K search) (hnone : ∀ k ∈ keys, K k = none) :
    GivesE e t K (search keys) (.ok none) K := by
  have hnil : GivesE e t K (search []) (.ok none) K := by
    rw [h.nil]
    exact givesE_pure none
  simpa using h.first hnone hnil

theorem passes_popFirstList (side : End) : Passes e t K (popFirstList side) where
  nil := rfl
  cons hnone hrest :=
    gives_checked_none ht hnone (givesE_bind (givesE_lift (popOne_none ht hnone side)) hrest)

theorem passes_mpopLists (side : End) (n : Nat) : Passes e t K (mpopLists side n) where
  nil := rfl
  cons hnone hrest :=
    gives_checked_none ht hnone (givesE_bind (givesE_lift (popUpTo_none ht hnone side n)) hrest)

theorem passes_popFirstZset (edge : Edge) : Passes e t K (popFirstZset edge) where
  nil := rfl
  cons hnone hrest :=
    gives_checked_none ht hnone (givesE_bind (givesE_lift (popOneScored_none ht hnone edge 1)) hrest)

theorem passes_mpopZsets (edge : Edge) (n : Nat) : Passes e t K (mpopZsets edge n) where
  nil := rfl
  cons hnone hrest :=
    gives_checked_none ht hnone (givesE_bind (givesE_lift (popOneScored_none ht hnone edge n)) hrest)

end searches

/-! ## Plain and searching pops of one key -/

section lists

variable {l : ListValue} {side : End} {keys : List Bytes}

omit ht in
/-- The count of a plain pop, read from the word a multi-key pop has for it. -/
theorem popCount_word {n : Nat} {count : Bytes} (hcount : parseI64 count = some n) {word : Bytes}
    {name : String} : Lists.popCount [word, key, count] name = pure (some n) := by
  show intArg count >>= _ = _
  rw [intArg, hcount]
  rfl

/-- `LPOP key`. -/
theorem lpop_gives {v : Bytes} {rest : ListValue} (hlive : K key = some (.list l, d))
    (h : popFrom l side = some (v, rest)) (name : String) (word : Bytes) :
    GivesE e t K (Lists.lpop name side [word, key]) (.ok (.bulk v))
      (Function.update K key (unlessEmpty (some (.list rest, d)))) := by
  have hmany : popMany side 1 l = ([v], rest) := popMany_succ h 0
  refine givesE_bind (givesE_pure ()) (givesE_bind (givesE_pure none)
    (gives_checked_some ht hlive ?_))
  have hwrite := givesE_writeAndTidy (V := .list) (g := popMany side 1) ht hlive
    (f := fun popped => (pure (bulkOrNil (popped.getD []).head?) : Cmd Reply)) rfl
  rw [hmany] at hwrite
  exact hwrite

/-- `LPOP key count`. -/
theorem lpop_count_gives (hlive : K key = some (.list l, d)) {n : Nat} {count : Bytes}
    (hcount : parseI64 count = some n) (hpopped : (popMany side n l).1 ≠ []) (name : String)
    (word : Bytes) :
    GivesE e t K (Lists.lpop name side [word, key, count])
      (.ok (.bulkArray (popMany side n l).1))
      (Function.update K key (unlessEmpty (some (.list (popMany side n l).2, d)))) := by
  refine givesE_bind (givesE_pure ()) ?_
  rw [popCount_word hcount]
  refine givesE_bind (givesE_pure _) (gives_checked_some ht hlive ?_)
  refine givesE_writeAndTidy (V := .list) (g := popMany side n) ht hlive ?_
  dsimp only [Option.getD_some]
  rw [if_neg (by simpa using hpopped)]

/-- `BLPOP` at the key. -/
theorem popFirstList_found {v : Bytes} {rest : ListValue} (hlive : K key = some (.list l, d))
    (h : popFrom l side = some (v, rest)) :
    GivesE e t K (popFirstList side (key :: keys)) (.ok (some (.array [.bulk key, .bulk v])))
      (Function.update K key (unlessEmpty (some (.list rest, d)))) :=
  gives_checked_some ht hlive
    (givesE_bind (givesE_lift (popOne_list ht hlive h)) (givesE_pure _))

/-- `LMPOP` at the key. -/
theorem mpopLists_found (hl : l ≠ []) (hlive : K key = some (.list l, d)) {n : Nat}
    (hpopped : (popMany side n l).1 ≠ []) :
    GivesE e t K (mpopLists side n (key :: keys))
      (.ok (some (.array [.bulk key, .bulkArray (popMany side n l).1])))
      (Function.update K key (unlessEmpty (some (.list (popMany side n l).2, d)))) := by
  refine gives_checked_some ht hlive
    (givesE_bind (givesE_lift (popUpTo_list ht hl hlive side n)) ?_)
  rw [if_pos (by simpa using hpopped)]
  exact givesE_pure _

end lists

section zsets

variable {z : Zset} {edge : Edge} {keys : List Bytes}

/-- `ZPOPMIN key`. -/
theorem zpop_gives {p : Bytes × F64} (hlive : K key = some (.zset z, d))
    (hpopped : (z.pop 1 (edge == .max)).1 = [p]) (name : String) (word : Bytes) :
    GivesE e t K (Zsets.zpop name (edge == .max) [word, key])
      (.ok (.array [.bulk p.1, .double p.2]))
      (Function.update K key (unlessEmpty (some (.zset (z.pop 1 (edge == .max)).2, d)))) := by
  refine givesE_bind (givesE_pure ()) (givesE_bind (givesE_pure none)
    (gives_checked_some ht hlive ?_))
  refine givesE_writeAndTidy (V := .zset) (g := fun z => z.pop 1 (edge == .max)) ht hlive ?_
  rw [hpopped]
  rfl

/-- `ZPOPMIN key count`. -/
theorem zpop_count_gives (hlive : K key = some (.zset z, d)) {n : Nat} {count : Bytes}
    (hcount : parseI64 count = some n) (name : String) (word : Bytes) :
    GivesE e t K (Zsets.zpop name (edge == .max) [word, key, count])
      (.ok (.scoredMembers (z.pop n (edge == .max)).1))
      (Function.update K key (unlessEmpty (some (.zset (z.pop n (edge == .max)).2, d)))) := by
  refine givesE_bind (givesE_pure ()) ?_
  rw [popCount_word hcount]
  refine givesE_bind (givesE_pure _) (gives_checked_some ht hlive ?_)
  exact givesE_writeAndTidy (V := .zset) (g := fun z => z.pop n (edge == .max)) ht hlive rfl

/-- `BZPOPMIN` at the key. -/
theorem popFirstZset_found (hz : z.size ≠ 0) {p : Bytes × F64} (hlive : K key = some (.zset z, d))
    (hpopped : (z.pop 1 (edge == .max)).1 = [p]) :
    GivesE e t K (popFirstZset edge (key :: keys))
      (.ok (some (.array [.bulk key, .bulk p.1, .double p.2])))
      (Function.update K key (unlessEmpty (some (.zset (z.pop 1 (edge == .max)).2, d)))) := by
  have hscored := popOneScored_zset ht hz hlive Nat.one_pos edge
  rw [hpopped] at hscored
  exact gives_checked_some ht hlive (givesE_bind (givesE_lift hscored) (givesE_pure _))

/-- `ZMPOP` at the key. -/
theorem mpopZsets_found (hz : z.size ≠ 0) (hlive : K key = some (.zset z, d)) {n : Nat}
    (hn : 0 < n) :
    GivesE e t K (mpopZsets edge n (key :: keys))
      (.ok (some (.array [.bulk key, .array ((z.pop n (edge == .max)).1.map fun p =>
        .array [.bulk p.1, .double p.2])])))
      (Function.update K key (unlessEmpty (some (.zset (z.pop n (edge == .max)).2, d)))) := by
  refine gives_checked_some ht hlive
    (givesE_bind (givesE_lift (popOneScored_zset ht hz hlive hn edge)) ?_)
  rw [if_pos (by simpa using pop_ne_nil hz hn (edge == .max))]
  exact givesE_pure _

end zsets

/-! ## Moves -/

section moves

variable {source destination : Bytes} (takeFrom putTo : End)

omit ht in
theorem list_of_typeOf {x : Value} (h : x.typeOf = .list) : ∃ l, x = .list l := by
  cases x with
  | list l => exact ⟨l, rfl⟩
  | _ => cases h

omit ht in
theorem zset_of_typeOf {x : Value} (h : x.typeOf = .zset) : ∃ z, x = .zset z := by
  cases x with
  | zset z => exact ⟨z, rfl⟩
  | _ => cases h

/-- A value goes on to a list, which may be the one it was taken from. -/
theorem pushed_gives (hput : ∀ x d, K destination = some (x, d) → x.typeOf = .list) (value : Bytes) :
    ∃ K', Gives e t K (Store.getOrCreateList destination
      (Act.modify fun l => pushTo l putTo value)) (some ()) K' := by
  cases hfound : K destination with
  | none =>
    exact ⟨_, gives_getOrCreate (V := .list) (g := fun l => ((), pushTo l putTo value)) ht
      (.inr ⟨hfound, rfl, rfl⟩)⟩
  | some p =>
    obtain ⟨x, d⟩ := p
    obtain ⟨l, rfl⟩ := list_of_typeOf (hput x d hfound)
    exact ⟨_, gives_getOrCreate (V := .list) (g := fun l => ((), pushTo l putTo value)) ht
      (.inl hfound)⟩

/-- **A move has one answer and leaves one map**, and there is nothing to move exactly when there is
no source. -/
theorem moveOne_gives (hfirm : NoneEmpty K)
    (htake : ∀ x d, K source = some (x, d) → x.typeOf = .list)
    (hput : ∀ x d, K destination = some (x, d) → x.typeOf = .list) :
    ∃ moved K', Gives e t K (moveOne source destination takeFrom putTo) moved K' ∧
      (K source = none → K' = K) ∧ (moved = none ↔ K source = none) := by
  cases hfound : K source with
  | none =>
    exact ⟨none, K, gives_bind (gives_write_none ht hfound) (gives_pure none), fun _ => rfl, by simp⟩
  | some p =>
    obtain ⟨x, d⟩ := p
    obtain ⟨l, rfl⟩ := list_of_typeOf (htake x d hfound)
    have hl : l ≠ [] := by
      simpa [Value.isEmptyCollection] using hfirm source _ d hfound
    obtain ⟨v, rest, h⟩ := popFrom_isSome hl takeFrom
    have htaken := gives_pop ht hfound h
    have hput' : ∀ x d', Function.update K source (some (.list rest, d)) destination = some (x, d') →
        x.typeOf = .list := by
      intro x d' hx
      by_cases hsame : destination = source
      · rw [hsame, Function.update_self] at hx
        cases hx
        rfl
      · rw [Function.update_of_ne hsame] at hx
        exact hput x d' hx
    obtain ⟨K', hpushed⟩ := pushed_gives ht putTo hput' v
    refine ⟨some v, _, gives_bind htaken (gives_bind hpushed (gives_bind (gives_pure ())
      (gives_bind (gives_deleteIfEmpty ht source) (gives_pure _)))), nofun, by simp⟩

variable (source destination) in
/-- What the four moves do before they answer. -/
theorem moveChecked_gives (hfirm : NoneEmpty K) :
    ∃ (moved : Except Reply (Option Bytes)) (K' : Keyspace),
      (∀ {β : Type} (f : Option Bytes → β), GivesE e t K (do
        checkType source .list
        checkType destination .list
        let moved ← (moveOne source destination takeFrom putTo : Run Store (Option Bytes))
        return f moved) (moved.map f) K') ∧
      (K source = none → K' = K) ∧ (moved = .ok none → K source = none) := by
  by_cases htake : ∀ x d, K source = some (x, d) → x.typeOf = .list
  · by_cases hput : ∀ x d, K destination = some (x, d) → x.typeOf = .list
    · obtain ⟨moved, K', hmove, hsame, hnone⟩ := moveOne_gives ht takeFrom putTo hfirm htake hput
      refine ⟨.ok moved, K', fun f => ?_, hsame, fun h => hnone.mp (Except.ok.inj h)⟩
      exact givesE_bind (givesE_checkType ht htake) (givesE_bind (givesE_checkType ht hput)
        (givesE_bind (givesE_lift hmove) (givesE_pure _)))
    · push Not at hput
      obtain ⟨x, d, hx, htype⟩ := hput
      refine ⟨.error wrongtype, K, fun f => ?_, fun _ => rfl, nofun⟩
      exact givesE_bind (givesE_checkType ht htake) (givesE_refused (givesE_wrongtype ht hx htype))
  · push Not at htake
    obtain ⟨x, d, hx, htype⟩ := htake
    refine ⟨.error wrongtype, K, fun f => ?_, fun _ => rfl, nofun⟩
    exact givesE_refused (givesE_wrongtype ht hx htype)

end moves

end keys

/-! ## From one store -/

section leaves

variable {e : Env} {t : SystemTime} {s : Store} {w : World} {α : Type} {client : Client}
  {argv : List Bytes}

/-- From `s` a handler answers `r` and leaves `K'` in sight. -/
def Leaves (e : Env) (t : SystemTime) (s : Store) (w : World) (m : Cmd α) (r : Except Reply α)
    (K' : Keyspace) : Prop :=
  Act.Sat m.run e s w (fun r' s' _ => r' = r ∧ s'.live t = K') (fun _ => False)

/-- The timeout is one the server takes, at the instant the command reads. -/
def Accepts (e : Env) (s : Store) (w : World) (word : Bytes) (deadline : Option Instant) : Prop :=
  Act.Sat (parseTimeout word).run e s w (fun r s' _ => r = .ok deadline ∧ s' = s) (fun _ => False)

theorem leaves_of_gives {m : Cmd α} {r : Except Reply α} {K' : Keyspace} (hs : Indexed s)
    (hm : GivesE e t (s.live t) m r K') : Leaves e t s w m r K' :=
  Act.sat_mono (hm s w hs rfl) (fun _ _ _ h => ⟨h.1, h.2.2⟩) (fun _ h => h)

theorem leaves_afterTimeout {word : Bytes} {deadline : Option Instant} {f : Option Instant → Cmd α}
    {r : Except Reply α} {K' : Keyspace} (haccepts : Accepts e s w word deadline) (hs : Indexed s)
    (hf : GivesE e t (s.live t) (f deadline) r K') :
    Leaves e t s w (parseTimeout word >>= f) r K' := by
  unfold Leaves
  rw [ExceptT.run_bind, Act.sat_bind]
  refine Act.sat_mono haccepts ?_ (fun _ h => h)
  rintro _ s' w' ⟨rfl, rfl⟩
  exact leaves_of_gives hs hf

theorem multiCount_pos (options : List Bytes) (e : Env) (s : Store) (w : World) :
    Act.SatE (multiCount options) e s w (fun n _ _ => 0 < n) (fun _ _ _ => True) (fun _ => True) := by
  unfold multiCount
  split
  · exact Nat.one_pos
  · refine Act.satE_ite.mpr ⟨fun _ => ?_, fun _ => trivial⟩
    refine Act.satE_bind_any (fun n _ _ => ?_) (fun _ _ _ => trivial) (fun _ => trivial)
    exact Act.satE_ite.mpr ⟨fun hn => Int.pos_iff_toNat_pos.mp hn, fun _ => trivial⟩
  · trivial

/-- The count of a multi-key pop is positive. -/
theorem count_pos {pos : Nat} {name : String} {request : MultiKey}
    (h : parseMultiKey argv pos name = pure request) (e : Env) (s : Store) (w : World) :
    0 < request.count := by
  have hparse : Act.SatE (parseMultiKey argv pos name) e s w (fun request _ _ => 0 < request.count)
      (fun _ _ _ => True) (fun _ => True) := by
    unfold parseMultiKey
    refine Act.satE_bind_any (fun numkeys s w => ?_) (fun _ _ _ => trivial) (fun _ => trivial)
    refine Act.satE_ite.mpr ⟨fun _ => trivial, fun _ => Act.satE_ite.mpr ⟨fun _ => trivial, fun _ => ?_⟩⟩
    exact Act.satE_bind.mpr (Act.satE_mono (multiCount_pos _ e s w) (fun _ _ _ hn => hn)
      (fun _ _ _ h => h) (fun _ h => h))
  rw [h] at hparse
  exact hparse

end leaves

/-! ## The four spellings of a pop -/

/-- A kind of pop: its plain command, the three that look through keys, and how they answer. -/
structure Pop (ε : Type) where
  type : StoreType
  plain : Arms
  plainName : String
  blockingName : String
  multiName : String
  blockingMultiName : String
  /-- The word a multi-key command has for this kind. -/
  asks : Bytes → Prop
  one : ε → Reply
  many : List ε → Reply
  oneAt : Bytes → ε → Reply
  manyAt : Bytes → List ε → Reply

namespace Pop

/-- `LPOP` and `RPOP`. -/
def list (side : End) : Pop Bytes where
  type := .list
  plain := Lists.arms
  plainName := match side with
    | .left => "LPOP"
    | .right => "RPOP"
  blockingName := match side with
    | .left => "BLPOP"
    | .right => "BRPOP"
  multiName := "LMPOP"
  blockingMultiName := "BLMPOP"
  asks word := End.parse word = some side
  one v := .bulk v
  many vs := .bulkArray vs
  oneAt key v := .array [.bulk key, .bulk v]
  manyAt key vs := .array [.bulk key, .bulkArray vs]

/-- `ZPOPMIN` and `ZPOPMAX`. -/
def zset (config : Config) (edge : Edge) : Pop (Bytes × F64) where
  type := .zset
  plain := Zsets.arms config
  plainName := match edge with
    | .min => "ZPOPMIN"
    | .max => "ZPOPMAX"
  blockingName := match edge with
    | .min => "BZPOPMIN"
    | .max => "BZPOPMAX"
  multiName := "ZMPOP"
  blockingMultiName := "BZMPOP"
  asks word := Edge.parse word = some edge
  one p := .array [.bulk p.1, .double p.2]
  many ps := .scoredMembers ps
  oneAt key p := .array [.bulk key, .bulk p.1, .double p.2]
  manyAt key ps := .array [.bulk key, .array (ps.map fun p => .array [.bulk p.1, .double p.2])]

/-- What the four spellings answer from one store, and what they leave in sight. -/
structure Agrees {ε : Type} (p : Pop ε) (e : Env) (t : SystemTime) (s : Store) (w : World)
    (client : Client) : Prop where
  blocking : ∀ {argv deadline key}, 2 < argv.length →
    Accepts e s w (arg argv (argv.length - 1)) deadline →
    FirstLive (s.live t) p.type (keysBeforeTimeout argv) key → ∀ word, ∃ a K',
      Leaves e t s w (p.plain.run p.plainName [word, key]) (.ok (p.one a)) K' ∧
      Leaves e t s w (handle client p.blockingName argv) (.ok (.new (p.oneAt key a))) K'
  multi : ∀ {argv request key count}, 3 < argv.length →
    parseMultiKey argv 1 p.multiName = pure request → p.asks request.direction →
    parseI64 count = some request.count → FirstLive (s.live t) p.type request.keys key →
    ∀ word, ∃ as K',
      Leaves e t s w (p.plain.run p.plainName [word, key, count]) (.ok (p.many as)) K' ∧
      Leaves e t s w (handle client p.multiName argv) (.ok (.new (p.manyAt key as))) K'
  blockingMulti : ∀ {argv deadline request key count}, 4 < argv.length →
    Accepts e s w (arg argv 1) deadline → parseMultiKey argv 2 p.blockingMultiName = pure request →
    p.asks request.direction → parseI64 count = some request.count →
    FirstLive (s.live t) p.type request.keys key → ∀ word, ∃ as K',
      Leaves e t s w (p.plain.run p.plainName [word, key, count]) (.ok (p.many as)) K' ∧
      Leaves e t s w (handle client p.blockingMultiName argv) (.ok (.new (p.manyAt key as))) K'
  blocking_absent : ∀ {argv deadline}, 2 < argv.length →
    Accepts e s w (arg argv (argv.length - 1)) deadline →
    (∀ key ∈ keysBeforeTimeout argv, s.live t key = none) →
    Leaves e t s w (handle client p.blockingName argv)
      (.ok (Blocking.answer client argv none (keysBeforeTimeout argv) deadline .nilArray)) (s.live t)
  multi_absent : ∀ {argv request}, 3 < argv.length →
    parseMultiKey argv 1 p.multiName = pure request → p.asks request.direction →
    (∀ key ∈ request.keys, s.live t key = none) →
    Leaves e t s w (handle client p.multiName argv) (.ok (.new .nilArray)) (s.live t)
  blockingMulti_absent : ∀ {argv deadline request}, 4 < argv.length →
    Accepts e s w (arg argv 1) deadline → parseMultiKey argv 2 p.blockingMultiName = pure request →
    p.asks request.direction → (∀ key ∈ request.keys, s.live t key = none) →
    Leaves e t s w (handle client p.blockingMultiName argv)
      (.ok (Blocking.answer client argv none request.keys deadline .nilArray)) (s.live t)

/-- The searches behind the spellings of a pop, and what they do at a key of its type. -/
structure Searches {ε : Type} (p : Pop ε) (e : Env) (t : SystemTime) (K : Keyspace)
    (client : Client) (first : List Bytes → Cmd (Option Reply))
    (several : Nat → List Bytes → Cmd (Option Reply)) : Prop where
  blocking : ∀ argv, 2 < argv.length → handle client p.blockingName argv = do
    let deadline ← parseTimeout (arg argv (argv.length - 1))
    let found ← first (keysBeforeTimeout argv)
    return Blocking.answer client argv found (keysBeforeTimeout argv) deadline .nilArray
  multi : ∀ argv request, 3 < argv.length → parseMultiKey argv 1 p.multiName = pure request →
    p.asks request.direction → handle client p.multiName argv = do
      let found ← several request.count request.keys
      return .new (found.getD .nilArray)
  blockingMulti : ∀ argv request, 4 < argv.length →
    parseMultiKey argv 2 p.blockingMultiName = pure request → p.asks request.direction →
    handle client p.blockingMultiName argv = do
      let deadline ← parseTimeout (arg argv 1)
      let found ← several request.count request.keys
      return Blocking.answer client argv found request.keys deadline .nilArray
  passesFirst : Passes e t K first
  passesSome : ∀ n, Passes e t K (several n)
  foundFirst : ∀ {key x d}, K key = some (x, d) → x.typeOf = p.type → ∀ keys word, ∃ a K',
    GivesE e t K (p.plain.run p.plainName [word, key]) (.ok (p.one a)) K' ∧
    GivesE e t K (first (key :: keys)) (.ok (some (p.oneAt key a))) K'
  foundSome : ∀ {key x d count} {n : Nat}, K key = some (x, d) → x.typeOf = p.type → 0 < n →
    parseI64 count = some n → ∀ keys word, ∃ as K',
    GivesE e t K (p.plain.run p.plainName [word, key, count]) (.ok (p.many as)) K' ∧
    GivesE e t K (several n (key :: keys)) (.ok (some (p.manyAt key as))) K'

variable {ε : Type} {p : Pop ε} {e : Env} {t : SystemTime} {s : Store} {w : World} {client : Client}
  {first : List Bytes → Cmd (Option Reply)} {several : Nat → List Bytes → Cmd (Option Reply)}

theorem Searches.agrees (h : p.Searches e t (s.live t) client first several) (hs : Indexed s) :
    p.Agrees e t s w client where
  blocking hlen haccepts hfirst word := by
    obtain ⟨before, after, hkeys, hnone, x, d, hx, htype⟩ := hfirst
    obtain ⟨a, K', hplain, hfound⟩ := h.foundFirst hx htype after word
    refine ⟨a, K', leaves_of_gives hs hplain, ?_⟩
    rw [h.blocking _ hlen, hkeys]
    exact leaves_afterTimeout haccepts hs
      (givesE_bind (h.passesFirst.first hnone hfound) (givesE_pure _))
  multi hlen hparse hasks hcount hfirst word := by
    obtain ⟨before, after, hkeys, hnone, x, d, hx, htype⟩ := hfirst
    obtain ⟨as, K', hplain, hfound⟩ :=
      h.foundSome hx htype (count_pos hparse e s w) hcount after word
    refine ⟨as, K', leaves_of_gives hs hplain, ?_⟩
    rw [h.multi _ _ hlen hparse hasks, hkeys]
    exact leaves_of_gives hs
      (givesE_bind ((h.passesSome _).first hnone hfound) (givesE_pure _))
  blockingMulti hlen haccepts hparse hasks hcount hfirst word := by
    obtain ⟨before, after, hkeys, hnone, x, d, hx, htype⟩ := hfirst
    obtain ⟨as, K', hplain, hfound⟩ :=
      h.foundSome hx htype (count_pos hparse e s w) hcount after word
    refine ⟨as, K', leaves_of_gives hs hplain, ?_⟩
    rw [h.blockingMulti _ _ hlen hparse hasks, hkeys]
    exact leaves_afterTimeout haccepts hs
      (givesE_bind ((h.passesSome _).first hnone hfound) (givesE_pure _))
  blocking_absent hlen haccepts hnone := by
    rw [h.blocking _ hlen]
    exact leaves_afterTimeout haccepts hs
      (givesE_bind (h.passesFirst.absent hnone) (givesE_pure _))
  multi_absent hlen hparse hasks hnone := by
    rw [h.multi _ _ hlen hparse hasks]
    exact leaves_of_gives hs (givesE_bind ((h.passesSome _).absent hnone) (givesE_pure _))
  blockingMulti_absent hlen haccepts hparse hasks hnone := by
    rw [h.blockingMulti _ _ hlen hparse hasks]
    exact leaves_afterTimeout haccepts hs
      (givesE_bind ((h.passesSome _).absent hnone) (givesE_pure _))

theorem list_plain (side : End) (argv : List Bytes) :
    (list side).plain.run (list side).plainName argv =
      Lists.lpop (list side).plainName side argv := by
  cases side
  all_goals rfl

theorem list_searches (ht : e.StandsAt t) {K : Keyspace} (hfirm : NoneEmpty K) (side : End) :
    (list side).Searches e t K client (popFirstList side) (mpopLists side) where
  blocking argv hlen := by
    cases side
    all_goals
      show blpop _ _ client argv = _
      unfold blpop
      rw [minArgs_eq hlen, pure_bind]
  multi argv request hlen hparse hasks := by
    show lmpop client argv = _
    unfold lmpop
    rw [minArgs_eq hlen, pure_bind, show parseMultiKey argv 1 "LMPOP" = _ from hparse, pure_bind,
      show End.parse request.direction = some side from hasks]
    rfl
  blockingMulti argv request hlen hparse hasks := by
    show blmpop client argv = _
    unfold blmpop
    rw [minArgs_eq hlen, pure_bind, show parseMultiKey argv 2 "BLMPOP" = _ from hparse]
    simp only [pure_bind]
    rw [show End.parse request.direction = some side from hasks]
    rfl
  passesFirst := passes_popFirstList ht side
  passesSome := passes_mpopLists ht side
  foundFirst hx htype keys word := by
    obtain ⟨l, rfl⟩ := list_of_typeOf htype
    have hl : l ≠ [] := by
      simpa [Value.isEmptyCollection] using hfirm _ _ _ hx
    obtain ⟨v, rest, h⟩ := popFrom_isSome hl side
    refine ⟨v, _, ?_, popFirstList_found ht hx h⟩
    rw [list_plain]
    exact lpop_gives ht hx h _ word
  foundSome {key x d count n} hx htype hn hcount keys word := by
    obtain ⟨l, rfl⟩ := list_of_typeOf htype
    have hl : l ≠ [] := by
      simpa [Value.isEmptyCollection] using hfirm _ _ _ hx
    obtain ⟨v, rest, h⟩ := popFrom_isSome hl side
    have hpopped : (popMany side n l).1 ≠ [] := by
      obtain ⟨m, rfl⟩ := Nat.exists_eq_succ_of_ne_zero hn.ne'
      rw [popMany_succ h]
      exact List.cons_ne_nil _ _
    refine ⟨(popMany side n l).1, _, ?_, mpopLists_found ht hl hx hpopped⟩
    rw [list_plain]
    exact lpop_count_gives ht hx hcount hpopped _ word

theorem zset_plain (config : Config) (edge : Edge) (argv : List Bytes) :
    (zset config edge).plain.run (zset config edge).plainName argv =
      Zsets.zpop (zset config edge).plainName (edge == .max) argv := by
  cases edge
  all_goals rfl

theorem zset_searches (ht : e.StandsAt t) {K : Keyspace} (hfirm : NoneEmpty K) (config : Config)
    (edge : Edge) :
    (zset config edge).Searches e t K client (popFirstZset edge) (mpopZsets edge) where
  blocking argv hlen := by
    cases edge
    all_goals
      show bzpop _ _ client argv = _
      unfold bzpop
      rw [minArgs_eq hlen, pure_bind]
  multi argv request hlen hparse hasks := by
    show zmpop client argv = _
    unfold zmpop
    rw [minArgs_eq hlen, pure_bind, show parseMultiKey argv 1 "ZMPOP" = _ from hparse, pure_bind,
      show Edge.parse request.direction = some edge from hasks]
    rfl
  blockingMulti argv request hlen hparse hasks := by
    show bzmpop client argv = _
    unfold bzmpop
    rw [minArgs_eq hlen, pure_bind, show parseMultiKey argv 2 "BZMPOP" = _ from hparse]
    simp only [pure_bind]
    rw [show Edge.parse request.direction = some edge from hasks]
    rfl
  passesFirst := passes_popFirstZset ht edge
  passesSome := passes_mpopZsets ht edge
  foundFirst {key x d} hx htype keys word := by
    obtain ⟨z, rfl⟩ := zset_of_typeOf htype
    have hz : z.size ≠ 0 := by
      simpa [Value.isEmptyCollection] using hfirm _ _ _ hx
    obtain ⟨p, hp⟩ : ∃ p, (z.pop 1 (edge == .max)).1 = [p] :=
      List.length_eq_one_iff.mp (length_pop_one hz _)
    refine ⟨p, _, ?_, popFirstZset_found ht hz hx hp⟩
    rw [zset_plain]
    exact zpop_gives ht hx hp _ word
  foundSome {key x d count n} hx htype hn hcount keys word := by
    obtain ⟨z, rfl⟩ := zset_of_typeOf htype
    have hz : z.size ≠ 0 := by
      simpa [Value.isEmptyCollection] using hfirm _ _ _ hx
    refine ⟨(z.pop n (edge == .max)).1, _, ?_, mpopZsets_found ht hz hx hn⟩
    rw [zset_plain]
    exact zpop_count_gives ht hx hcount _ word

end Pop

/-- What the four spellings of a move answer from one store, and what they leave in sight. -/
structure MovesAgree (e : Env) (t : SystemTime) (s : Store) (w : World) (client : Client) : Prop where
  lmove : ∀ {takeWord putWord takeFrom putTo timeout deadline},
    End.parse takeWord = some takeFrom → End.parse putWord = some putTo →
    Accepts e s w timeout deadline → ∀ source destination word,
    ∃ (moved : Except Reply (Option Bytes)) (K' : Keyspace),
      Leaves e t s w (Lists.arms.run "LMOVE" [word, source, destination, takeWord, putWord])
        (moved.map bulkOrNil) K' ∧
      Leaves e t s w
        (handle client "BLMOVE" [word, source, destination, takeWord, putWord, timeout])
        (moved.map fun moved => Blocking.answer client
          [word, source, destination, takeWord, putWord, timeout] (moved.map .bulk) [source]
          deadline .nil) K' ∧
      (s.live t source = none → K' = s.live t) ∧ (moved = .ok none → s.live t source = none)
  rpoplpush : ∀ {takeWord putWord timeout deadline},
    End.parse takeWord = some .right → End.parse putWord = some .left →
    Accepts e s w timeout deadline → ∀ source destination word,
    ∃ (moved : Except Reply (Option Bytes)) (K' : Keyspace),
      Leaves e t s w (Lists.arms.run "RPOPLPUSH" [word, source, destination])
        (moved.map bulkOrNil) K' ∧
      Leaves e t s w (Lists.arms.run "LMOVE" [word, source, destination, takeWord, putWord])
        (moved.map bulkOrNil) K' ∧
      Leaves e t s w (handle client "BRPOPLPUSH" [word, source, destination, timeout])
        (moved.map fun moved => Blocking.answer client [word, source, destination, timeout]
          (moved.map .bulk) [source] deadline .nil) K' ∧
      (s.live t source = none → K' = s.live t) ∧ (moved = .ok none → s.live t source = none)

theorem moveEnds_of_parse {word source destination takeWord putWord : Bytes} {takeFrom putTo : End}
    (htake : End.parse takeWord = some takeFrom) (hput : End.parse putWord = some putTo)
    (rest : List Bytes) :
    Lists.moveEnds (word :: source :: destination :: takeWord :: putWord :: rest) =
      pure (takeFrom, putTo) := by
  simp [Lists.moveEnds, arg, htake, hput]

theorem movesAgree {e : Env} {t : SystemTime} {s : Store} {w : World} {client : Client}
    (ht : e.StandsAt t) (hs : Indexed s) (hfirm : NoneEmpty (s.live t)) :
    MovesAgree e t s w client where
  lmove {_ _ takeFrom putTo _ _} htake hput haccepts source destination word := by
    obtain ⟨moved, K', hmove, hsame, hnone⟩ :=
      moveChecked_gives ht source destination takeFrom putTo hfirm
    refine ⟨moved, K', leaves_of_gives hs ?_, ?_, hsame, hnone⟩
    · show GivesE e t _ (Lists.lmove _) _ _
      unfold Lists.lmove
      rw [moveEnds_of_parse htake hput]
      exact hmove bulkOrNil
    · show Leaves e t s w (blmove client _) _ _
      unfold blmove
      rw [moveEnds_of_parse htake hput]
      exact leaves_afterTimeout haccepts hs (hmove _)
  rpoplpush htake hput haccepts source destination word := by
    obtain ⟨moved, K', hmove, hsame, hnone⟩ :=
      moveChecked_gives ht source destination .right .left hfirm
    refine ⟨moved, K', leaves_of_gives hs ?_, leaves_of_gives hs ?_, ?_, hsame, hnone⟩
    · show GivesE e t _ (Lists.rpoplpush _) _ _
      exact hmove bulkOrNil
    · show GivesE e t _ (Lists.lmove _) _ _
      unfold Lists.lmove
      rw [moveEnds_of_parse htake hput]
      exact hmove bulkOrNil
    · show Leaves e t s w (brpoplpush client _) _ _
      exact leaves_afterTimeout haccepts hs (hmove _)

/-- **Blocking and multi-key pops are plain pops on the first key that exists**, and leave the
keyspace alone when none does. -/
theorem pops_plain (e : Env) (t : SystemTime) (ht : e.StandsAt t) (s : Store) (hs : Indexed s)
    (hfirm : NonEmpty s) (w : World) (client : Client) :
    (∀ side, (Pop.list side).Agrees e t s w client) ∧
      (∀ config edge, (Pop.zset config edge).Agrees e t s w client) ∧
      MovesAgree e t s w client := by
  have hlive : NoneEmpty (s.live t) := fun _ _ _ hx => nonEmpty_liveAt hfirm hx
  exact ⟨fun side => (Pop.list_searches ht hlive side).agrees hs,
    fun config edge => (Pop.zset_searches ht hlive config edge).agrees hs, movesAgree ht hs hlive⟩

/-- A store with a list. -/
theorem pops_plain_list : ∃ s, Indexed s ∧ NonEmpty s ∧ (s.live 5 [107]).isSome = true ∧
    ∀ w client, (∀ side, (Pop.list side).Agrees (stillEnv 5) 5 s w client) ∧
      (∀ config edge, (Pop.zset config edge).Agrees (stillEnv 5) 5 s w client) ∧
      MovesAgree (stillEnv 5) 5 s w client := by
  have hrun : Act.Sat (StoreOp.exec (.getOrCreateList [107] fun _ => [[97], [98]])) (stillEnv 5) {} {}
      (fun _ s _ => (s.live 5 [107]).isSome = true ∧
        ∀ p ∈ s.map.pairs, p.2.value.isEmptyCollection = false) (fun _ => False) := by
    decide +kernel
  obtain ⟨_, s, _, hdone, hthere, hall⟩ := Act.exists_of_sat hrun
  have hs : Indexed s := ((Reachable.start 0).step _ hdone).indexed
  have hfirm : NonEmpty s := by
    intro k x d hx
    obtain ⟨entry, hentry, hp⟩ := Option.map_eq_some_iff.mp hx
    cases hp
    exact hall (k, entry) (Assoc.mem_pairs.mpr hentry)
  exact ⟨s, hs, hfirm, hthere, pops_plain (stillEnv 5) 5 (fun _ => rfl) s hs hfirm⟩

end Klyro
