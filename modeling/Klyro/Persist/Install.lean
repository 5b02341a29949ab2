import Klyro.Persist.Load
import Klyro.Persist.Saved

/-!
# Installing loaded entries

What the keyspace shows after a list of entries has been installed into keys that were free.  The
last step of an installation looks the key up once more, so an entry whose deadline has passed by
then does not stay.

* `LoadedEntry.shown`, `shownAll` — what an entry, and a list of entries, leave.
* `install_spec`, `installAll_spec` — the code does that.
* `sat_load` — `load`, from the bytes of the file to the keyspace.
-/

set_option autoImplicit false

namespace Klyro

open Store Keyspace DumpReader

/-- The value an entry puts at its key. -/
def LoadedValue.value : LoadedValue → Value
  | .str value => .str value
  | .list items => .list items
  | .hash pairs => .hash (Assoc.insertAll pairs ∅)
  | .set members => .set (Assoc.insertAll (members.map fun m => (m, ())) ∅)
  | .zset pairs => .zset (Zset.addAll pairs {})
  | .memory m => .memory m

/-- How often putting a value at a key reads the clock. -/
def LoadedValue.readings : LoadedValue → Nat
  | .str _ => 0
  | _ => 1

/-- What stays of a key when it is looked up at `t`: not one that is due, nor an empty collection. -/
def shownAt (t : SystemTime) (x : Value × Option SystemTime) : Option (Value × Option SystemTime) :=
  if due t (some x) || x.1.isEmptyCollection then none else some x

namespace LoadedEntry

/-- The deadline of an entry. -/
def deadline (entry : LoadedEntry) : Option SystemTime :=
  if 0 ≤ entry.expireAt then some (fromMillis entry.expireAt.toNat : Nat) else none

/-- How often the installation reads the clock before its last lookup. -/
def readings (entry : LoadedEntry) : Nat :=
  entry.value.readings + if 0 ≤ entry.expireAt then 1 else 0

/-- What the installation of an entry leaves, from reading `i` of the clock on. -/
def shown (c : Nat → SystemTime) (i : Nat) (entry : LoadedEntry) : Option (Value × Option SystemTime) :=
  shownAt (c (i + entry.readings)) (entry.value.value, entry.deadline)

end LoadedEntry

/-- What a list of entries leaves, key by key. -/
def shownAll (c : Nat → SystemTime) :
    Nat → List LoadedEntry → List (Bytes × Option (Value × Option SystemTime))
  | _, [] => []
  | i, entry :: entries =>
    (entry.key, entry.shown c i) :: shownAll c (i + entry.readings + 1) entries

section install

variable {e : Env} {s : Store} {w : World}

/-- A collection is put at a free key. -/
theorem getOrCreate_free {τ : Type} (V : Variant τ) {key : Bytes} (f : τ → τ)
    (hfree : s.view key = none) :
    Act.Sat (do let _ ← getOrCreate V key (Act.modify f)) e s w
      (fun _ s' w' => Later 1 w w' ∧
        s'.view = Function.update s.view key (some (V.wrap (f V.empty), none)) ∧
        (Indexed s → Indexed s')) (OutOfRange s) := by
  rw [Act.sat_bind]
  refine sat_getOrCreate (fun _ h => h) ?_ ?_
  · intro x d s' w' _ hlive
    rw [liveAt_none hfree] at hlive
    cases hlive
  · intro v d s' w' hw hlive hview hidx
    rw [liveAt_none hfree] at hlive
    obtain h | ⟨-, rfl, rfl⟩ := hlive
    · cases h
    · refine ⟨hw, ?_, fun h => (hidx h).setValue⟩
      refine view_setValue.trans ?_
      rw [hview, Function.update_self, Function.update_idem]
      rfl

theorem installValue_spec {key : Bytes} (value : LoadedValue) (hfree : s.view key = none) :
    Act.Sat (LoadedEntry.installValue key value) e s w
      (fun _ s' w' => Later value.readings w w' ∧
        s'.view = Function.update s.view key (some (value.value, none)) ∧ (Indexed s → Indexed s'))
      (OutOfRange s) := by
  cases value with
  | str v => exact setString_spec key v
  | list items => exact getOrCreate_free .list (· ++ items) hfree
  | set members =>
    exact getOrCreate_free .set (Assoc.insertAll (members.map fun m => (m, ()))) hfree
  | hash pairs => exact getOrCreate_free .hash (Assoc.insertAll pairs) hfree
  | zset pairs => exact getOrCreate_free .zset (Zset.addAll pairs) hfree
  | memory m =>
    unfold LoadedEntry.installValue
    rw [Act.sat_bind]
    refine Act.sat_mono (createMemory_spec key m) ?_ (fun _ h => h)
    rintro r s' w' ⟨hw, -, hidx, hview⟩
    rw [liveAt_none hfree, Option.isSome_none, if_neg Bool.false_ne_true] at hview
    exact ⟨hw, hview, hidx⟩

theorem installExpiry_spec {key : Bytes} {v : Value} {expireAt : Int} (hmax : expireAt ≤ i64Max)
    (hkey : s.view key = some (v, none)) :
    Act.Sat (LoadedEntry.installExpiry key expireAt) e s w
      (fun _ s' w' => Later (if 0 ≤ expireAt then 1 else 0) w w' ∧
        s'.view = Function.update s.view key
          (some (v, if 0 ≤ expireAt then some (fromMillis expireAt.toNat : Nat) else none)) ∧
        (Indexed s → Indexed s')) (OutOfRange s) := by
  unfold LoadedEntry.installExpiry
  rw [Act.sat_ite]
  refine ⟨fun hpos => ?_, fun hneg => ?_⟩
  · have hrange : inTimeRange (0 + ((fromMillis expireAt.toNat : Nat) : Int)) = true := by
      unfold inTimeRange fromMillis nanosPerMilli i64Min i64Max
      unfold i64Max at hmax
      rw [decide_eq_true_eq]
      push_cast
      omega
    unfold addDuration
    rw [if_pos hrange]
    simp only [Act.sat_bind, Act.sat_pure, Int.zero_add]
    refine Act.sat_mono (setExpireAt_spec key _) ?_ (fun _ h => h)
    rintro r s' w' ⟨hw, -, hview, hidx⟩
    rw [if_pos hpos, if_pos hpos]
    rw [liveAt_eq hkey (by simp)] at hview
    exact ⟨hw, hview, hidx⟩
  · rw [if_neg hneg, if_neg hneg, ← hkey, Function.update_eq_self]
    exact ⟨.refl _, rfl, id⟩

theorem unlessEmpty_liveAt {K : Keyspace} {t : SystemTime} {key : Bytes}
    {x : Value × Option SystemTime} (h : K key = some x) :
    unlessEmpty (K.liveAt t key) = shownAt t x := by
  unfold liveAt shownAt
  rw [h]
  cases due t (some x) with
  | true => rfl
  | false => rfl

/-- **An entry installed at a free key** leaves what `shown` says and touches no other key. -/
theorem install_spec (entry : LoadedEntry) (hfree : s.view entry.key = none)
    (hmax : entry.expireAt ≤ i64Max) :
    Act.Sat entry.install e s w
      (fun _ s' w' => Later (entry.readings + 1) w w' ∧
        s'.view = Function.update s.view entry.key (entry.shown e.clock w.ticks) ∧
        (Indexed s → Indexed s')) (OutOfRange s) := by
  unfold LoadedEntry.install
  simp only [Act.sat_bind]
  refine Act.sat_mono (installValue_spec entry.value hfree) ?_ (fun _ h => h)
  rintro _ s₁ w₁ ⟨hw₁, hview₁, hidx₁⟩
  have hkey₁ : s₁.view entry.key = some (entry.value.value, none) := by
    rw [hview₁, Function.update_self]
  refine Act.sat_mono (installExpiry_spec hmax hkey₁) ?_ (fun _ h => h.of_indexed hidx₁)
  rintro _ s₂ w₂ ⟨hw₂, hview₂, hidx₂⟩
  have hkey₂ : s₂.view entry.key = some (entry.value.value, entry.deadline) := by
    rw [hview₂, Function.update_self]
    rfl
  refine Act.sat_mono (deleteIfEmpty_spec entry.key) ?_
    (fun _ h => h.of_indexed fun h => hidx₂ (hidx₁ h))
  rintro _ s₃ w₃ ⟨hw₃, hview₃, hidx₃⟩
  refine ⟨(hw₁.trans hw₂).trans hw₃, ?_, fun h => hidx₃ (hidx₂ (hidx₁ h))⟩
  rw [hview₃, unlessEmpty_liveAt hkey₂, hview₂, hview₁, Function.update_idem, Function.update_idem,
    (hw₁.trans hw₂).ticks]
  rfl

theorem mem_shownAll {c : Nat → SystemTime} {x : Bytes × Option (Value × Option SystemTime)} :
    ∀ {es : List LoadedEntry} {i : Nat}, x ∈ shownAll c i es → x.1 ∈ es.map LoadedEntry.key
  | [], _, h => by cases h
  | entry :: es, i, h => by
    rw [shownAll, List.mem_cons] at h
    rw [List.map_cons, List.mem_cons]
    rcases h with rfl | h
    · exact .inl rfl
    · exact .inr (mem_shownAll h)

/-- **Entries with different keys, all free**, leave what `shownAll` says. -/
theorem installAll_spec : ∀ {es : List LoadedEntry} {s : Store} {w : World},
    (es.map LoadedEntry.key).Nodup → (∀ entry ∈ es, s.view entry.key = none) →
    (∀ entry ∈ es, entry.expireAt ≤ i64Max) →
    Act.Sat (Act.forList LoadedEntry.install es) e s w
      (fun _ s' _ => (∀ x ∈ shownAll e.clock w.ticks es, s'.view x.1 = x.2) ∧
        (∀ k, k ∉ es.map LoadedEntry.key → s'.view k = s.view k) ∧ (Indexed s → Indexed s'))
      (OutOfRange s)
  | [], s, w, _, _, _ => ⟨by simp [shownAll], fun _ _ => rfl, id⟩
  | entry :: es, s, w, hn, hfree, hmax => by
    rw [List.map_cons, List.nodup_cons] at hn
    rw [Act.forList, Act.sat_bind]
    refine Act.sat_mono (install_spec entry (hfree entry (by simp)) (hmax entry (by simp))) ?_
      (fun _ h => h)
    rintro _ s₁ w₁ ⟨hw₁, hview₁, hidx₁⟩
    have hfree₁ : ∀ other ∈ es, s₁.view other.key = none := by
      intro other ho
      have hne : other.key ≠ entry.key := by
        intro hk
        exact hn.1 (List.mem_map.mpr ⟨other, ho, hk⟩)
      rw [hview₁, Function.update_of_ne hne]
      exact hfree other (List.mem_cons_of_mem _ ho)
    refine Act.sat_mono (installAll_spec hn.2 hfree₁ fun o ho => hmax o (List.mem_cons_of_mem _ ho)) ?_
      (fun _ h => h.of_indexed hidx₁)
    rintro _ s₂ w₂ ⟨hshown, hothers, hidx₂⟩
    rw [hw₁.ticks] at hshown
    refine ⟨?_, ?_, fun h => hidx₂ (hidx₁ h)⟩
    · intro x hx
      rw [shownAll, List.mem_cons] at hx
      rcases hx with rfl | hx
      · dsimp only
        rw [hothers entry.key hn.1, hview₁, Function.update_self]
      · exact hshown x hx
    · intro k hk
      rw [List.map_cons, List.mem_cons, not_or] at hk
      rw [hothers k hk.2, hview₁, Function.update_of_ne hk.1]

end install

/-! ## From the file to the keyspace -/

section load

variable {e : Env} {w : World} {R : Panic → Prop}

theorem lineText_magic : LineText dumpMagic.toList where
  ascii := Text.forall_chars (by decide)
  unbroken := Text.forall_chars (by decide)

/-- After the magic line of the current format. -/
theorem sat_loadEntries {maxTerms : Nat} {rest : Bytes} {Q : List LoadedEntry → Bytes → World → Prop}
    {E : IoError → Bytes → World → Prop}
    (h : Act.SatE (loadV2 maxTerms (magicBytes ++ rest).length) e rest w Q E R) :
    Act.SatE (loadEntries maxTerms) e (magicBytes ++ rest) w Q E R := by
  have hmagic : magicBytes ++ rest = Text.utf8 dumpMagic.toList ++ 10 :: rest := by
    unfold magicBytes Piece.bytes Text.bytes
    rw [List.append_assoc]
    rfl
  unfold loadEntries
  simp only [Act.satE_bind, Act.satE_lift, Act.sat_get]
  have hline : ∀ {Q' : Option (List Char) → Bytes → World → Prop}, Q' (some dumpMagic.toList) rest w →
      Act.SatE line e (magicBytes ++ rest) w Q' E R := by
    intro Q' hQ'
    rw [hmagic]
    exact sat_line lineText_magic hQ'
  refine hline ?_
  have hstart : (startsWith dumpMagic.toList dumpMagic || startsWith dumpMagic.toList v2Magic) = true := by
    decide
  dsimp only
  rw [if_pos hstart]
  exact h

theorem sat_readFiles {s : Store} {Q : Assoc String Bytes → Store → World → Prop} :
    Act.Sat readFiles e s w Q R ↔ Q w.files s w := Iff.rfl

/-- `load`: the entries of the file are installed, an input error installs nothing. -/
theorem sat_load {persist : Persist} {maxTerms : Nat} {s : Store} {content : Bytes}
    {Q : Unit → Store → World → Prop} (hfile : w.files.lookup persist.path = some content)
    (h : Act.SatE (loadEntries maxTerms) e content w
      (fun es _ w' => Act.Sat (Act.forList LoadedEntry.install es) e s w' Q R)
      (fun _ _ w' => Q () s w') R) :
    Act.Sat (persist.load maxTerms) e s w Q R := by
  unfold Persist.load
  rw [Act.sat_bind, sat_readFiles, hfile]
  simp only [Act.sat_bind, Act.sat_zoom]
  refine Act.sat_mono h ?_ (fun _ h => h)
  rintro (err | es) s' w' hr
  · exact hr
  · exact hr

end load

end Klyro
