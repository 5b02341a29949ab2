import Klyro.Util.Glob
import Mathlib.Computability.Language

/-!
# The language of a glob pattern

* `Token`, `language` — a pattern is a sequence of tokens, and its language the product of theirs.
* `ReadsBody`, `Reads` — the grammar: which tokens a pattern is read as.
* `classLoop_reads`, `globMatchBytes_reads` — the matcher decides the language.
* `globMatchBytesChecked` — the matcher once more, with every index and every slice checked.
* `glob_exact` — the four together, and patterns made of escapes.
-/

set_option autoImplicit false

namespace Klyro.Glob

/-! ## Tokens -/

/-- A member of a class. -/
inductive Item where
  | byte (b : UInt8)
  | range (lo hi : UInt8)

/-- Whether a byte is in it. -/
def Item.has (c : UInt8) : Item → Bool
  | .byte b => b == c
  | .range lo hi => decide (lo ≤ c) && decide (c ≤ hi)

/-- A token of a pattern. -/
inductive Token where
  /-- `*`. -/
  | run
  /-- `?`. -/
  | any
  /-- `[...]`. -/
  | oneOf (negated : Bool) (items : List Item)
  /-- A byte that stands for itself. -/
  | byte (b : UInt8)

namespace Token

/-- Which single bytes a token stands for. -/
def admits (c : UInt8) : Token → Bool
  | .run => false
  | .any => true
  | .oneOf negated items => negated != items.any (Item.has c)
  | .byte b => b == c

/-- The strings a token stands for. -/
def language : Token → Language UInt8
  | .run => {_s | True}
  | token => {s | ∃ c, token.admits c = true ∧ s = [c]}

end Token

/-- The strings a sequence of tokens stands for. -/
noncomputable def language (tokens : List Token) : Language UInt8 := (tokens.map Token.language).prod

variable {tokens : List Token} {token : Token} {s : Bytes}

theorem mem_nil : s ∈ language [] ↔ s = [] := Language.mem_one s

theorem mem_run : s ∈ language (.run :: tokens) ↔ ∃ i ≤ s.length, s.drop i ∈ language tokens := by
  unfold language
  rw [List.map_cons, List.prod_cons, Language.mem_mul]
  constructor
  · rintro ⟨a, -, b, hb, rfl⟩
    refine ⟨a.length, by rw [List.length_append]; omega, ?_⟩
    rwa [List.drop_left]
  · rintro ⟨i, -, h⟩
    exact ⟨s.take i, trivial, s.drop i, h, List.take_append_drop i s⟩

theorem mem_single (h : token.language = {s | ∃ c, token.admits c = true ∧ s = [c]}) :
    s ∈ language (token :: tokens) ↔ ∃ c t, s = c :: t ∧ token.admits c = true ∧ t ∈ language tokens := by
  unfold language
  rw [List.map_cons, List.prod_cons, Language.mem_mul, h]
  constructor
  · rintro ⟨_, ⟨c, hc, rfl⟩, t, ht, rfl⟩
    exact ⟨c, t, rfl, hc, ht⟩
  · rintro ⟨c, t, rfl, hc, ht⟩
    exact ⟨[c], ⟨c, hc, rfl⟩, t, ht, rfl⟩

/-! ## The grammar -/

/-- The negation in front of a class: whether there is one, and what follows. -/
def negation : Bytes → Bool × Bytes
  | 94 :: body => (true, body)
  | 33 :: body => (true, body)
  | body => (false, body)

/-- `ReadsBody first body items tail`: the class that starts with `body` has the members `items`, and
the pattern goes on with `tail`, which starts with the closing bracket unless there is none.  `first`
says that nothing of the class was read yet, when a closing bracket is a member. -/
inductive ReadsBody : Bool → Bytes → List Item → Bytes → Prop
  | finish (first : Bool) : ReadsBody first [] [] []
  | close (rest : Bytes) : ReadsBody false (93 :: rest) [] (93 :: rest)
  | escaped {first : Bool} {b : UInt8} {rest tail : Bytes} {items : List Item}
      (h : ReadsBody false rest items tail) : ReadsBody first (92 :: b :: rest) (.byte b :: items) tail
  | range {first : Bool} {lo hi : UInt8} {rest tail : Bytes} {items : List Item} (hlo : lo ≠ 92)
      (hopen : lo = 93 → first = true) (hhi : hi ≠ 93) (h : ReadsBody false rest items tail) :
      ReadsBody first (lo :: 45 :: hi :: rest) (.range lo hi :: items) tail
  | byte {first : Bool} {b : UInt8} {rest tail : Bytes} {items : List Item} (hescape : b = 92 → rest = [])
      (hopen : b = 93 → first = true) (hrange : ∀ hi rest', rest = 45 :: hi :: rest' → hi = 93)
      (h : ReadsBody false rest items tail) : ReadsBody first (b :: rest) (.byte b :: items) tail

/-- The tokens a pattern is read as. -/
inductive Reads : Bytes → List Token → Prop
  | nil : Reads [] []
  | run {rest : Bytes} {tokens : List Token} (h : Reads rest tokens) :
      Reads (42 :: rest) (.run :: tokens)
  | any {rest : Bytes} {tokens : List Token} (h : Reads rest tokens) :
      Reads (63 :: rest) (.any :: tokens)
  | closed {rest tail : Bytes} {items : List Item} {tokens : List Token}
      (hbody : ReadsBody true (negation rest).2 items (93 :: tail)) (h : Reads tail tokens) :
      Reads (91 :: rest) (.oneOf (negation rest).1 items :: tokens)
  | unterminated {rest : Bytes} {items : List Item} (hbody : ReadsBody true (negation rest).2 items []) :
      Reads (91 :: rest) [.oneOf (negation rest).1 items]
  | escaped {b : UInt8} {rest : Bytes} {tokens : List Token} (h : Reads rest tokens) :
      Reads (92 :: b :: rest) (.byte b :: tokens)
  | byte {b : UInt8} {rest : Bytes} {tokens : List Token} (hb : b ≠ 42 ∧ b ≠ 63 ∧ b ≠ 91)
      (hescape : b = 92 → rest = []) (h : Reads rest tokens) : Reads (b :: rest) (.byte b :: tokens)

/-! ## Every pattern is read in one way -/

theorem readsBody_total : ∀ (first : Bool) (body : Bytes), ∃ items tail, ReadsBody first body items tail
  | first, [] => ⟨[], [], .finish first⟩
  | first, b :: rest => by
    by_cases hclose : b = 93 ∧ first = false
    · obtain ⟨rfl, rfl⟩ := hclose
      exact ⟨[], 93 :: rest, .close rest⟩
    have hopen : b = 93 → first = true := fun hb => by
      cases first with
      | true => rfl
      | false => exact absurd ⟨hb, rfl⟩ hclose
    have hbyte : (b = 92 → rest = []) → (∀ hi rest', rest = 45 :: hi :: rest' → hi = 93) →
        ∃ items tail, ReadsBody first (b :: rest) items tail := fun hescape hrange => by
      obtain ⟨items, tail, h⟩ := readsBody_total false rest
      exact ⟨.byte b :: items, tail, .byte hescape hopen hrange h⟩
    by_cases hescape : b = 92
    · subst hescape
      cases rest with
      | nil => exact hbyte (fun _ => rfl) nofun
      | cons q rest =>
        obtain ⟨items, tail, h⟩ := readsBody_total false rest
        exact ⟨.byte q :: items, tail, .escaped h⟩
    · rcases rest with _ | ⟨q, _ | ⟨hi, rest⟩⟩
      · exact hbyte (fun h => absurd h hescape) nofun
      · exact hbyte (fun h => absurd h hescape) fun hi rest' h => by cases h
      · by_cases hrange : q = 45 ∧ hi ≠ 93
        · obtain ⟨rfl, hhi⟩ := hrange
          obtain ⟨items, tail, h⟩ := readsBody_total false rest
          exact ⟨.range b hi :: items, tail, .range hescape hopen hhi h⟩
        · refine hbyte (fun h => absurd h hescape) fun hi' rest' h => ?_
          cases h
          exact not_not.mp fun hne => hrange ⟨rfl, hne⟩
  termination_by _ body => body.length

theorem ReadsBody.unique {first : Bool} {body tail tail' : Bytes} {items items' : List Item}
    (h : ReadsBody first body items tail) (h' : ReadsBody first body items' tail') :
    items = items' ∧ tail = tail' := by
  induction h generalizing items' tail' with
  | finish first =>
    cases h'
    exact ⟨rfl, rfl⟩
  | close rest =>
    cases h' with
    | close => exact ⟨rfl, rfl⟩
    | range _ hopen => cases hopen rfl
    | byte _ hopen => cases hopen rfl
  | escaped h ih =>
    cases h' with
    | escaped h' =>
      obtain ⟨rfl, rfl⟩ := ih h'
      exact ⟨rfl, rfl⟩
    | range hlo => exact absurd rfl hlo
    | byte hescape => cases hescape rfl
  | range hlo hopen hhi h ih =>
    cases h' with
    | close => cases hopen rfl
    | escaped => exact absurd rfl hlo
    | range _ _ _ h' =>
      obtain ⟨rfl, rfl⟩ := ih h'
      exact ⟨rfl, rfl⟩
    | byte _ _ hrange => exact absurd (hrange _ _ rfl) hhi
  | byte hescape hopen hrange h ih =>
    cases h' with
    | close => cases hopen rfl
    | escaped => cases hescape rfl
    | range _ _ hhi => exact absurd (hrange _ _ rfl) hhi
    | byte _ _ _ h' =>
      obtain ⟨rfl, rfl⟩ := ih h'
      exact ⟨rfl, rfl⟩

/-- What a class leaves of the pattern is its end, or starts with the closing bracket. -/
theorem ReadsBody.tail_cases {first : Bool} {body tail : Bytes} {items : List Item}
    (h : ReadsBody first body items tail) : tail <:+ body ∧ (tail = [] ∨ ∃ rest, tail = 93 :: rest) := by
  induction h with
  | finish => exact ⟨List.suffix_refl _, .inl rfl⟩
  | close rest => exact ⟨List.suffix_refl _, .inr ⟨rest, rfl⟩⟩
  | escaped _ ih => exact ⟨(ih.1.trans (List.suffix_cons _ _)).trans (List.suffix_cons _ _), ih.2⟩
  | range _ _ _ _ ih =>
    exact ⟨((ih.1.trans (List.suffix_cons _ _)).trans (List.suffix_cons _ _)).trans
      (List.suffix_cons _ _), ih.2⟩
  | byte _ _ _ _ ih => exact ⟨ih.1.trans (List.suffix_cons _ _), ih.2⟩

theorem negation_suffix (rest : Bytes) : (negation rest).2 <:+ rest := by
  unfold negation
  split
  · exact List.suffix_cons _ _
  · exact List.suffix_cons _ _
  · exact List.suffix_refl _

theorem reads_total : ∀ pattern : Bytes, ∃ tokens, Reads pattern tokens
  | [] => ⟨[], .nil⟩
  | b :: rest => by
    by_cases hrun : b = 42
    · subst hrun
      obtain ⟨tokens, h⟩ := reads_total rest
      exact ⟨_, .run h⟩
    by_cases hany : b = 63
    · subst hany
      obtain ⟨tokens, h⟩ := reads_total rest
      exact ⟨_, .any h⟩
    by_cases hclass : b = 91
    · subst hclass
      obtain ⟨items, tail, hbody⟩ := readsBody_total true (negation rest).2
      rcases hbody.tail_cases.2 with rfl | ⟨tail', rfl⟩
      · exact ⟨_, .unterminated hbody⟩
      · have hlen := (hbody.tail_cases.1.trans (negation_suffix rest)).length_le
        rw [List.length_cons] at hlen
        have hshorter : tail'.length ≤ rest.length := by omega
        obtain ⟨tokens, h⟩ := reads_total tail'
        exact ⟨_, .closed hbody h⟩
    by_cases hescape : b = 92
    · subst hescape
      cases rest with
      | nil => exact ⟨_, .byte (by decide) (fun _ => rfl) .nil⟩
      | cons q rest =>
        obtain ⟨tokens, h⟩ := reads_total rest
        exact ⟨_, .escaped h⟩
    · obtain ⟨tokens, h⟩ := reads_total rest
      exact ⟨_, .byte ⟨hrun, hany, hclass⟩ (fun h => absurd h hescape) h⟩
  termination_by pattern => pattern.length

theorem Reads.unique {pattern : Bytes} {tokens tokens' : List Token} (h : Reads pattern tokens)
    (h' : Reads pattern tokens') : tokens = tokens' := by
  induction h generalizing tokens' with
  | nil =>
    cases h'
    rfl
  | run h ih =>
    cases h' with
    | run h' => rw [ih h']
    | byte hb => exact absurd rfl hb.1
  | any h ih =>
    cases h' with
    | any h' => rw [ih h']
    | byte hb => exact absurd rfl hb.2.1
  | closed hbody h ih =>
    cases h' with
    | closed hbody' h' =>
      obtain ⟨rfl, htail⟩ := hbody.unique hbody'
      cases htail
      rw [ih h']
    | unterminated hbody' => cases (hbody.unique hbody').2
    | byte hb => exact absurd rfl hb.2.2
  | unterminated hbody =>
    cases h' with
    | closed hbody' => cases (hbody.unique hbody').2
    | unterminated hbody' => rw [(hbody.unique hbody').1]
    | byte hb => exact absurd rfl hb.2.2
  | escaped h ih =>
    cases h' with
    | escaped h' => rw [ih h']
    | byte _ hescape => cases hescape rfl
  | byte hb hescape h ih =>
    cases h' with
    | run => exact absurd rfl hb.1
    | any => exact absurd rfl hb.2.1
    | closed => exact absurd rfl hb.2.2
    | unterminated => exact absurd rfl hb.2.2
    | escaped => cases hescape rfl
    | byte _ _ h' => rw [ih h']

/-! ## The matcher decides the language -/

theorem getElem?_of_drop {p rest : Bytes} {b : UInt8} {i : Nat} (h : p.drop i = b :: rest) :
    p[i]? = some b ∧ p.drop (i + 1) = rest ∧ p.length = i + (rest.length + 1) := by
  have hhead : (p.drop i)[0]? = some b := by rw [h]; rfl
  rw [List.getElem?_drop, Nat.add_zero] at hhead
  have hlt := (List.getElem?_eq_some_iff.mp hhead).1
  have hlen := congrArg List.length h
  rw [List.length_drop, List.length_cons] at hlen
  refine ⟨hhead, ?_, by omega⟩
  rw [← List.drop_drop, h]
  rfl

/-- **The loop of `match_class`**, by induction on how the class is read. -/
theorem classLoop_reads {first : Bool} {body tail : Bytes} {items : List Item}
    (h : ReadsBody first body items tail) (c : UInt8) (p : Bytes) :
    ∀ (i fuel : Nat) (found : Bool), p.drop i = body → i ≤ p.length → body.length ≤ fuel →
      classLoop p c fuel i found first = (found || items.any (Item.has c), p.length - tail.length) := by
  induction h with
  | finish first =>
    intro i fuel found hi hle _
    have hend : p.length = i := by
      have hlen := congrArg List.length hi
      rw [List.length_drop, List.length_nil] at hlen
      omega
    have hnone : p[i]? = none := List.getElem?_eq_none_iff.mpr (by omega)
    cases fuel with
    | zero =>
      unfold classLoop
      simp [hend]
    | succ fuel =>
      unfold classLoop
      rw [hnone]
      simp [hend]
  | close rest =>
    intro i fuel found hi hle hfuel
    obtain ⟨hb, -, hlen⟩ := getElem?_of_drop hi
    obtain ⟨fuel, rfl⟩ := Nat.exists_eq_add_of_le' (Nat.le_trans (Nat.succ_pos rest.length) hfuel)
    unfold classLoop
    rw [hb]
    simp [hlen]
  | @escaped first b rest tail items h ih =>
    intro i fuel found hi hle hfuel
    obtain ⟨hb, hi₁, hlen⟩ := getElem?_of_drop hi
    obtain ⟨hq, hi₂, -⟩ := getElem?_of_drop hi₁
    rw [List.length_cons] at hlen hfuel
    rw [List.length_cons] at hfuel
    obtain ⟨fuel, rfl⟩ := Nat.exists_eq_add_of_le' (Nat.le_trans (Nat.succ_pos _) hfuel)
    have hget : p.getD (i + 1) 0 = b := by rw [List.getD_eq_getElem?_getD, hq, Option.getD_some]
    unfold classLoop
    rw [hb]
    dsimp only
    rw [if_pos (.inl (by decide)), if_pos ⟨rfl, by omega⟩, hget,
      ih (i + 2) fuel _ hi₂ (by omega) (by omega), List.any_cons, Bool.or_assoc]
    rfl
  | @range first lo hi rest tail items hlo hopen hhi h ih =>
    intro i fuel found hdrop hle hfuel
    obtain ⟨hb, hi₁, hlen⟩ := getElem?_of_drop hdrop
    obtain ⟨hq, hi₂, -⟩ := getElem?_of_drop hi₁
    obtain ⟨hr, hi₃, -⟩ := getElem?_of_drop hi₂
    simp only [List.length_cons] at hlen hfuel
    obtain ⟨fuel, rfl⟩ := Nat.exists_eq_add_of_le' (Nat.le_trans (Nat.succ_pos _) hfuel)
    have hdash : p.getD (i + 1) 0 = 45 := by rw [List.getD_eq_getElem?_getD, hq, Option.getD_some]
    have hget : p.getD (i + 2) 0 = hi := by rw [List.getD_eq_getElem?_getD, hr, Option.getD_some]
    have henter : lo ≠ 93 ∨ first = true := or_iff_not_imp_left.mpr fun h => hopen (not_not.mp h)
    unfold classLoop
    rw [hb]
    dsimp only
    rw [if_pos henter, if_neg fun h => hlo h.1, hdash, hget, if_pos ⟨by omega, rfl, hhi⟩,
      ih (i + 3) fuel _ hi₃ (by omega) (by omega), List.any_cons, Bool.or_assoc]
    rfl
  | @byte first b rest tail items hescape hopen hrange h ih =>
    intro i fuel found hdrop hle hfuel
    obtain ⟨hb, hi₁, hlen⟩ := getElem?_of_drop hdrop
    rw [List.length_cons] at hfuel
    obtain ⟨fuel, rfl⟩ := Nat.exists_eq_add_of_le' (Nat.le_trans (Nat.succ_pos _) hfuel)
    have henter : b ≠ 93 ∨ first = true := or_iff_not_imp_left.mpr fun h => hopen (not_not.mp h)
    have hnoescape : ¬ (b = 92 ∧ i + 1 < p.length) := by
      rintro ⟨hb, hlt⟩
      rw [hescape hb] at hlen
      simp at hlen
      omega
    have hnorange : ¬ (i + 2 < p.length ∧ p.getD (i + 1) 0 = 45 ∧ p.getD (i + 2) 0 ≠ 93) := by
      rintro ⟨hlt, hdash, hne⟩
      rcases rest with _ | ⟨q, _ | ⟨r, rest⟩⟩
      · simp at hlen
        omega
      · simp at hlen
        omega
      · obtain ⟨hq, hi₂, -⟩ := getElem?_of_drop hi₁
        obtain ⟨hr, -, -⟩ := getElem?_of_drop hi₂
        rw [List.getD_eq_getElem?_getD, hq, Option.getD_some] at hdash
        rw [List.getD_eq_getElem?_getD, hr, Option.getD_some] at hne
        exact hne (hrange r rest (by rw [hdash]))
    unfold classLoop
    rw [hb]
    dsimp only
    rw [if_pos henter, if_neg hnoescape, if_neg hnorange, ih (i + 1) fuel _ hi₁ (by omega) (by omega),
      List.any_cons, Bool.or_assoc]
    rfl

theorem negation_cases (rest : Bytes) :
    ((rest.head? = some 94 ∨ rest.head? = some 33) ∧ negation rest = (true, rest.drop 1) ∧
      1 ≤ rest.length) ∨
      (¬ (rest.head? = some 94 ∨ rest.head? = some 33) ∧ negation rest = (false, rest)) := by
  unfold negation
  split
  · exact .inl ⟨.inl rfl, rfl, Nat.succ_pos _⟩
  · exact .inl ⟨.inr rfl, rfl, Nat.succ_pos _⟩
  · rename_i h94 h33
    refine .inr ⟨?_, rfl⟩
    rintro (hb | hb)
    · obtain ⟨body, hbody⟩ := List.head?_eq_some_iff.mp hb
      exact h94 body hbody
    · obtain ⟨body, hbody⟩ := List.head?_eq_some_iff.mp hb
      exact h33 body hbody

/-- The end of a class: the closing bracket, if there is one, belongs to it. -/
theorem drop_class {rest tail : Bytes} (hsuffix : tail <:+ rest)
    (htail : tail = [] ∨ ∃ tail', tail = 93 :: tail') :
    rest.drop (if rest[rest.length - tail.length]? = some 93 then rest.length - tail.length + 1
      else rest.length - tail.length) = tail.drop 1 ∧
    (if rest[rest.length - tail.length]? = some 93 then rest.length - tail.length + 1
      else rest.length - tail.length) ≤ rest.length := by
  have hdrop : rest.drop (rest.length - tail.length) = tail := (List.suffix_iff_eq_drop.mp hsuffix).symm
  have hhead : rest[rest.length - tail.length]? = tail[0]? := by
    conv_rhs => rw [← hdrop]
    rw [List.getElem?_drop, Nat.add_zero]
  have hlen := hsuffix.length_le
  rw [hhead]
  rcases htail with rfl | ⟨tail', rfl⟩
  · rw [if_neg (by simp), hdrop]
    exact ⟨rfl, by omega⟩
  · rw [List.getElem?_cons_zero, if_pos rfl, ← List.drop_drop, hdrop]
    rw [List.length_cons] at hlen ⊢
    exact ⟨rfl, by omega⟩

/-- **`match_class`**: whether the class admits the byte, and where the pattern goes on. -/
theorem matchClass_reads {rest tail : Bytes} {items : List Item}
    (h : ReadsBody true (negation rest).2 items tail) (c : UInt8) :
    (matchClass rest c).1 = (Token.oneOf (negation rest).1 items).admits c ∧
      rest.drop (matchClass rest c).2 = tail.drop 1 ∧ (matchClass rest c).2 ≤ rest.length := by
  have hend := drop_class (h.tail_cases.1.trans (negation_suffix rest)) h.tail_cases.2
  have hshort := (negation_suffix rest).length_le
  unfold matchClass Token.admits
  dsimp only
  rcases negation_cases rest with ⟨hneg, hrest, hlen⟩ | ⟨hneg, hrest⟩
  · rw [hrest] at h hshort ⊢
    rw [if_pos hneg, if_pos hneg, classLoop_reads h c rest 1 rest.length false rfl hlen hshort,
      Bool.false_or]
    exact ⟨(Bool.true_bne _).symm, hend⟩
  · rw [hrest] at h hshort ⊢
    rw [if_neg hneg, if_neg hneg, classLoop_reads h c rest 0 rest.length false rfl (Nat.zero_le _) hshort,
      Bool.false_or]
    exact ⟨(Bool.false_bne _).symm, hend⟩

theorem mem_byte {b : UInt8} :
    s ∈ language (.byte b :: tokens) ↔ (s.head? == some b) = true ∧ s.drop 1 ∈ language tokens := by
  rw [mem_single rfl]
  constructor
  · rintro ⟨c, t, rfl, hc, ht⟩
    have hb : b = c := eq_of_beq hc
    exact ⟨by rw [hb]; simp, ht⟩
  · rintro ⟨hc, ht⟩
    obtain ⟨t, rfl⟩ := List.head?_eq_some_iff.mp (eq_of_beq hc)
    exact ⟨b, t, rfl, beq_self_eq_true b, ht⟩

/-- **`glob_match_bytes` decides the language**, by induction on how the pattern is read. -/
theorem globMatchBytes_reads {pattern : Bytes} {tokens : List Token} (h : Reads pattern tokens) :
    ∀ (fuel : Nat) (s : Bytes), pattern.length ≤ fuel →
      (globMatchBytes fuel pattern s = true ↔ s ∈ language tokens) := by
  induction h with
  | nil =>
    intro fuel s _
    rw [mem_nil, ← List.isEmpty_iff]
    cases fuel <;> rfl
  | @run rest tokens h ih =>
    intro fuel s hfuel
    rw [List.length_cons] at hfuel
    obtain ⟨fuel, rfl⟩ := Nat.exists_eq_add_of_le' (Nat.le_trans (Nat.succ_pos _) hfuel)
    unfold globMatchBytes
    rw [if_pos rfl, mem_run, Bool.or_eq_true, List.any_eq_true]
    constructor
    · rintro (hrest | ⟨i, hi, hmatch⟩)
      · have hnil : tokens = [] := by
          rw [List.isEmpty_iff.mp hrest] at h
          cases h
          rfl
        refine ⟨s.length, Nat.le_refl _, ?_⟩
        rw [hnil, mem_nil, List.drop_length]
      · exact ⟨i, Nat.lt_succ_iff.mp (List.mem_range.mp hi), (ih fuel _ (by omega)).mp hmatch⟩
    · rintro ⟨i, hi, hmatch⟩
      exact .inr ⟨i, List.mem_range.mpr (Nat.lt_succ_of_le hi), (ih fuel _ (by omega)).mpr hmatch⟩
  | @any rest tokens h ih =>
    intro fuel s hfuel
    rw [List.length_cons] at hfuel
    obtain ⟨fuel, rfl⟩ := Nat.exists_eq_add_of_le' (Nat.le_trans (Nat.succ_pos _) hfuel)
    unfold globMatchBytes
    rw [if_neg (by decide), if_pos rfl, mem_single rfl]
    cases s with
    | nil => simp
    | cons c t =>
      rw [show (!(c :: t).isEmpty) = true from rfl, Bool.true_and, List.drop_succ_cons, List.drop_zero,
        ih fuel t (by omega)]
      constructor
      · exact fun ht => ⟨c, t, rfl, rfl, ht⟩
      · rintro ⟨c', t', heq, -, ht⟩
        cases heq
        exact ht
  | @closed rest tail items tokens hbody h ih =>
    intro fuel s hfuel
    rw [List.length_cons] at hfuel
    obtain ⟨fuel, rfl⟩ := Nat.exists_eq_add_of_le' (Nat.le_trans (Nat.succ_pos _) hfuel)
    unfold globMatchBytes
    rw [if_neg (by decide), if_neg (by decide), if_pos rfl, mem_single rfl]
    cases s with
    | nil => simp
    | cons c t =>
      obtain ⟨hadmits, hdrop, -⟩ := matchClass_reads hbody c
      have hlen := (hbody.tail_cases.1.trans (negation_suffix rest)).length_le
      rw [List.length_cons] at hlen
      dsimp only
      rw [hadmits, hdrop, List.drop_succ_cons, List.drop_zero, Bool.and_eq_true, ih fuel t (by omega)]
      constructor
      · exact fun ht => ⟨c, t, rfl, ht⟩
      · rintro ⟨c', t', heq, ht⟩
        cases heq
        exact ht
  | @unterminated rest items hbody =>
    intro fuel s hfuel
    rw [List.length_cons] at hfuel
    obtain ⟨fuel, rfl⟩ := Nat.exists_eq_add_of_le' (Nat.le_trans (Nat.succ_pos _) hfuel)
    unfold globMatchBytes
    rw [if_neg (by decide), if_neg (by decide), if_pos rfl, mem_single rfl]
    cases s with
    | nil => simp
    | cons c t =>
      obtain ⟨hadmits, hdrop, -⟩ := matchClass_reads hbody c
      have hempty : globMatchBytes fuel [] t = t.isEmpty := by cases fuel <;> rfl
      dsimp only
      rw [hadmits, hdrop, List.drop_nil, hempty, Bool.and_eq_true, List.isEmpty_iff]
      constructor
      · exact fun ht => ⟨c, t, rfl, ht.1, mem_nil.mpr ht.2⟩
      · rintro ⟨c', t', heq, hc, ht⟩
        cases heq
        exact ⟨hc, mem_nil.mp ht⟩
  | @escaped b rest tokens h ih =>
    intro fuel s hfuel
    rw [List.length_cons, List.length_cons] at hfuel
    obtain ⟨fuel, rfl⟩ := Nat.exists_eq_add_of_le' (Nat.le_trans (Nat.succ_pos _) hfuel)
    unfold globMatchBytes
    rw [if_neg (by decide), if_neg (by decide), if_neg (by decide), mem_byte]
    show ((s.head? == some b && globMatchBytes fuel rest (s.drop 1)) = true) ↔ _
    rw [Bool.and_eq_true, ih fuel _ (by omega)]
  | @byte b rest tokens hb hescape h ih =>
    intro fuel s hfuel
    rw [List.length_cons] at hfuel
    obtain ⟨fuel, rfl⟩ := Nat.exists_eq_add_of_le' (Nat.le_trans (Nat.succ_pos _) hfuel)
    unfold globMatchBytes
    rw [if_neg hb.1, if_neg hb.2.1, if_neg hb.2.2, mem_byte, ← ih fuel _ (by omega), ← Bool.and_eq_true]
    split
    · rename_i hbackslash
      cases hescape (eq_of_beq hbackslash)
    · rfl

/-! ## Every index and every slice in range -/

/-- `p[i]`. -/
def byteAt (p : Bytes) (i : Nat) : Except Panic UInt8 :=
  match p[i]? with
  | some b => .ok b
  | none => .error .bounds

/-- `p[i..]`. -/
def sliceFrom (p : Bytes) (i : Nat) : Except Panic Bytes :=
  if i ≤ p.length then .ok (p.drop i) else .error .bounds

/-- The loop of `match_class`. -/
def classLoopChecked (p : Bytes) (c : UInt8) : Nat → Nat → Bool → Bool → Except Panic (Bool × Nat)
  | 0, i, found, _ => .ok (found, i)
  | fuel + 1, i, found, first =>
    if i < p.length then do
      let b ← byteAt p i
      if b ≠ 93 ∨ first then
        if b = 92 ∧ i + 1 < p.length then do
          let q ← byteAt p (i + 1)
          classLoopChecked p c fuel (i + 2) (found || q == c) false
        else if i + 2 < p.length then do
          let q ← byteAt p (i + 1)
          let hi ← byteAt p (i + 2)
          if q = 45 ∧ hi ≠ 93 then
            classLoopChecked p c fuel (i + 3) (found || (decide (b ≤ c) && decide (c ≤ hi))) false
          else classLoopChecked p c fuel (i + 1) (found || b == c) false
        else classLoopChecked p c fuel (i + 1) (found || b == c) false
      else .ok (found, i)
    else .ok (found, i)

/-- `i < p.len() && p[i] == b`. -/
def isAt (p : Bytes) (i : Nat) (b : UInt8) : Except Panic Bool :=
  if i < p.length then do
    let q ← byteAt p i
    pure (q == b)
  else pure false

/-- `match_class`. -/
def matchClassChecked (p : Bytes) (c : UInt8) : Except Panic (Bool × Nat) := do
  let caret ← isAt p 0 94
  let mark ← isAt p 0 33
  let negate := caret || mark
  let r ← classLoopChecked p c p.length (if negate then 1 else 0) false true
  let closed ← isAt p r.2 93
  pure (if negate then !r.1 else r.1, if closed then r.2 + 1 else r.2)

/-- The first hit of a loop. -/
def firstHit (f : Nat → Except Panic Bool) : List Nat → Except Panic Bool
  | [] => .ok false
  | i :: is => do
    let hit ← f i
    if hit then .ok true else firstHit f is

/-- `glob_match_bytes`. -/
def globMatchBytesChecked : Nat → Bytes → Bytes → Except Panic Bool
  | 0, _, s => .ok s.isEmpty
  | fuel + 1, pattern, s =>
    if pattern.isEmpty then .ok s.isEmpty
    else do
      let b ← byteAt pattern 0
      if b = 42 then do
        let rest ← sliceFrom pattern 1
        if rest.isEmpty then .ok true
        else firstHit (fun i => do
          let t ← sliceFrom s i
          globMatchBytesChecked fuel rest t) (List.range (s.length + 1))
      else if b = 63 then
        if s.isEmpty then .ok false
        else do
          let rest ← sliceFrom pattern 1
          let t ← sliceFrom s 1
          globMatchBytesChecked fuel rest t
      else if b = 91 then
        if s.isEmpty then .ok false
        else do
          let rest ← sliceFrom pattern 1
          let c ← byteAt s 0
          let r ← matchClassChecked rest c
          if r.1 then do
            let rest ← sliceFrom pattern (1 + r.2)
            let t ← sliceFrom s 1
            globMatchBytesChecked fuel rest t
          else .ok false
      else if b = 92 ∧ 1 < pattern.length then
        if s.isEmpty then .ok false
        else do
          let c ← byteAt s 0
          let q ← byteAt pattern 1
          if c = q then do
            let rest ← sliceFrom pattern 2
            let t ← sliceFrom s 1
            globMatchBytesChecked fuel rest t
          else .ok false
      else if s.isEmpty then .ok false
      else do
        let c ← byteAt s 0
        if c = b then do
          let rest ← sliceFrom pattern 1
          let t ← sliceFrom s 1
          globMatchBytesChecked fuel rest t
        else .ok false

/-- `glob_match`. -/
def globMatchChecked (pattern s : Bytes) : Except Panic Bool :=
  globMatchBytesChecked pattern.length pattern s

theorem byteAt_ok {p : Bytes} {i : Nat} {b : UInt8} (h : p[i]? = some b) : byteAt p i = .ok b := by
  unfold byteAt
  rw [h]

theorem byteAt_lt {p : Bytes} {i : Nat} (h : i < p.length) : byteAt p i = .ok (p.getD i 0) := by
  rw [List.getD_eq_getElem?_getD, List.getElem?_eq_getElem h]
  exact byteAt_ok (List.getElem?_eq_getElem h)

theorem sliceFrom_ok {p : Bytes} {i : Nat} (h : i ≤ p.length) : sliceFrom p i = .ok (p.drop i) := if_pos h

theorem isAt_ok (p : Bytes) (i : Nat) (b : UInt8) : isAt p i b = .ok (decide (p[i]? = some b)) := by
  unfold isAt
  by_cases h : i < p.length
  · rw [if_pos h, byteAt_ok (List.getElem?_eq_getElem h), List.getElem?_eq_getElem h]
    refine congrArg Except.ok ?_
    by_cases hb : p[i] = b
    · simp [hb]
    · simp [hb]
  · rw [if_neg h, List.getElem?_eq_none_iff.mpr (not_lt.mp h)]
    rfl

theorem classLoopChecked_ok (p : Bytes) (c : UInt8) : ∀ (fuel i : Nat) (found first : Bool),
    classLoopChecked p c fuel i found first = .ok (classLoop p c fuel i found first)
  | 0, _, _, _ => rfl
  | fuel + 1, i, found, first => by
    have ih := classLoopChecked_ok p c fuel
    unfold classLoopChecked classLoop
    by_cases hi : i < p.length
    · rw [if_pos hi, List.getElem?_eq_getElem hi, byteAt_ok (List.getElem?_eq_getElem hi)]
      dsimp only
      rw [ok_bind]
      by_cases henter : p[i] ≠ 93 ∨ first = true
      · rw [if_pos henter, if_pos henter]
        by_cases hescape : p[i] = 92 ∧ i + 1 < p.length
        · rw [if_pos hescape, if_pos hescape, byteAt_lt hescape.2]
          exact ih _ _ _
        · rw [if_neg hescape, if_neg hescape]
          by_cases hlt : i + 2 < p.length
          · rw [if_pos hlt, byteAt_lt (by omega), byteAt_lt hlt, ok_bind, ok_bind]
            by_cases hrange : p.getD (i + 1) 0 = 45 ∧ p.getD (i + 2) 0 ≠ 93
            · rw [if_pos hrange, if_pos ⟨hlt, hrange⟩]
              exact ih _ _ _
            · rw [if_neg hrange, if_neg fun h => hrange h.2]
              exact ih _ _ _
          · rw [if_neg hlt, if_neg fun h => hlt h.1]
            exact ih _ _ _
      · rw [if_neg henter, if_neg henter]
    · rw [if_neg hi, List.getElem?_eq_none_iff.mpr (not_lt.mp hi)]

theorem matchClassChecked_ok (p : Bytes) (c : UInt8) : matchClassChecked p c = .ok (matchClass p c) := by
  unfold matchClassChecked matchClass
  rw [isAt_ok, isAt_ok, ok_bind, ok_bind]
  dsimp only
  rw [classLoopChecked_ok, ok_bind, isAt_ok, ok_bind, List.head?_eq_getElem?]
  simp only [Bool.or_eq_true, decide_eq_true_eq]
  rfl

theorem firstHit_ok {f : Nat → Except Panic Bool} {g : Nat → Bool} : ∀ (is : List Nat),
    (∀ i ∈ is, f i = .ok (g i)) → firstHit f is = .ok (is.any g)
  | [], _ => rfl
  | i :: is, h => by
    unfold firstHit
    rw [h i List.mem_cons_self, ok_bind, List.any_cons]
    cases g i with
    | true => rfl
    | false => exact firstHit_ok is fun j hj => h j (List.mem_cons_of_mem _ hj)

/-- The end of a class is in the pattern, however it is read. -/
theorem matchClass_le (rest : Bytes) (c : UInt8) : (matchClass rest c).2 ≤ rest.length := by
  obtain ⟨items, tail, h⟩ := readsBody_total true (negation rest).2
  exact (matchClass_reads h c).2.2

theorem globMatchBytesChecked_ok : ∀ (fuel : Nat) (pattern s : Bytes),
    globMatchBytesChecked fuel pattern s = .ok (globMatchBytes fuel pattern s)
  | 0, _, _ => rfl
  | _ + 1, [], _ => rfl
  | fuel + 1, b :: rest, s => by
    have ih := globMatchBytesChecked_ok fuel
    have hrest : sliceFrom (b :: rest) 1 = .ok rest := sliceFrom_ok (by simp)
    have hhead : byteAt (b :: rest) 0 = .ok b := rfl
    unfold globMatchBytesChecked globMatchBytes
    rw [if_neg (by simp), hhead, hrest]
    simp only [ok_bind]
    by_cases hrun : b = 42
    · rw [if_pos hrun, if_pos hrun]
      cases hnil : rest.isEmpty with
      | true => rfl
      | false =>
        rw [Bool.false_or, if_neg Bool.false_ne_true]
        refine firstHit_ok _ fun i hi => ?_
        rw [sliceFrom_ok (Nat.lt_succ_iff.mp (List.mem_range.mp hi)), ok_bind]
        exact ih _ _
    rw [if_neg hrun, if_neg hrun]
    by_cases hany : b = 63
    · rw [if_pos hany, if_pos hany]
      cases s with
      | nil => rfl
      | cons c t =>
        show globMatchBytesChecked fuel rest t = _
        rw [ih]
        rfl
    rw [if_neg hany, if_neg hany]
    by_cases hclass : b = 91
    · rw [if_pos hclass, if_pos hclass]
      cases s with
      | nil => rfl
      | cons c t =>
        have hgo : sliceFrom (b :: rest) (1 + (matchClass rest c).2) =
            .ok (rest.drop (matchClass rest c).2) := by
          have hle := matchClass_le rest c
          rw [sliceFrom_ok (by rw [List.length_cons]; omega), Nat.add_comm, List.drop_succ_cons]
        rw [if_neg (by simp), show byteAt (c :: t) 0 = .ok c from rfl,
          show sliceFrom (c :: t) 1 = .ok t from sliceFrom_ok (by simp)]
        simp only [ok_bind, matchClassChecked_ok, hgo]
        cases (matchClass rest c).1 with
        | false => rfl
        | true => exact ih _ _
    rw [if_neg hclass, if_neg hclass]
    have hstep : ∀ (q : UInt8) (more : Bytes) (next : Except Panic Bytes), next = .ok more →
        (if s.isEmpty then .ok false
          else do
            let c ← byteAt s 0
            if c = q then do
              let rest ← next
              let t ← sliceFrom s 1
              globMatchBytesChecked fuel rest t
            else .ok false) = Except.ok (s.head? == some q && globMatchBytes fuel more (s.drop 1)) := by
      rintro q more _ rfl
      cases s with
      | nil => rfl
      | cons c t =>
        rw [if_neg (by simp), show byteAt (c :: t) 0 = .ok c from rfl,
          show sliceFrom (c :: t) 1 = .ok t from sliceFrom_ok (by simp)]
        simp only [ok_bind, ih]
        by_cases hc : c = q
        · simp [hc]
        · simp [hc]
    by_cases hescape : b = 92 ∧ 1 < (b :: rest).length
    · rw [if_pos hescape]
      obtain ⟨rfl, hlen⟩ := hescape
      cases rest with
      | nil => simp at hlen
      | cons q rest =>
        have hdrop : sliceFrom (92 :: q :: rest) 2 = .ok rest := sliceFrom_ok (by simp)
        rw [show byteAt (92 :: q :: rest) 1 = .ok q from rfl]
        simp only [ok_bind]
        exact hstep q rest _ hdrop
    · rw [if_neg hescape]
      refine (hstep b rest _ rfl).trans (congrArg Except.ok ?_)
      split
      · rename_i hb
        exact absurd ⟨eq_of_beq hb, by simp⟩ hescape
      · rfl

/-! ## Escaped patterns -/

/-- A key with a backslash in front of every byte. -/
def escapedKey (k : Bytes) : Bytes := k.flatMap fun b => [92, b]

theorem reads_escapedKey : ∀ k : Bytes, Reads (escapedKey k) (k.map .byte)
  | [] => .nil
  | _ :: k => .escaped (reads_escapedKey k)

theorem mem_bytes : ∀ {k s : Bytes}, s ∈ language (k.map .byte) ↔ s = k
  | [], s => mem_nil
  | b :: k, s => by
    rw [List.map_cons, mem_byte, mem_bytes]
    cases s with
    | nil => simp
    | cons c t => simp

/-- **Glob matching is the declared language.**  A pattern is read as one sequence of tokens, and
`glob_match` decides whether a string is in the language of these; every index and slice the matcher
takes is in range; a key with a backslash in front of every byte matches that key and nothing else. -/
theorem glob_exact (pattern : Bytes) :
    (∃! tokens, Reads pattern tokens) ∧
    (∀ tokens, Reads pattern tokens → ∀ s, globMatch pattern s = true ↔ s ∈ language tokens) ∧
    (∀ s, globMatchChecked pattern s = .ok (globMatch pattern s)) ∧
    ∀ k s, globMatch (escapedKey k) s = true ↔ s = k := by
  refine ⟨?_, fun tokens h s => globMatchBytes_reads h _ s (Nat.le_refl _), fun s =>
    globMatchBytesChecked_ok _ pattern s, fun k s => ?_⟩
  · obtain ⟨tokens, h⟩ := reads_total pattern
    exact ⟨tokens, h, fun tokens' h' => h'.unique h⟩
  · rw [← mem_bytes (k := k)]
    exact globMatchBytes_reads (reads_escapedKey k) _ s (Nat.le_refl _)

end Klyro.Glob
