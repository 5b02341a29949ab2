import Klyro.Types.Memory.Alike
import Klyro.Types.Memory.Metadata
import Klyro.Types.Memory.Steps

/-!
# The keyword index of the records

Under one cap the inverted index of a memory index is that of the texts of its records, whatever has
happened to it.

* `Memory.Documented` — the invariant.
* `add_documented`, `del_documented`, `onLive_documented` — the operations keep it.
* `IndexOp.OneCap` — the steps that index under the cap in force, which stays as it is.
* `Retouched` — what a change of one record does.
* `Memory.KeptBy` — what such steps keep, from what the operations keep.
-/

set_option autoImplicit false

namespace Klyro

open TextIndex

namespace Memory

/-- These are the texts of the records. -/
def TextsOf (m : Memory) (docs : Assoc Bytes Bytes) : Prop :=
  ∀ id, docs.lookup id = (m.records.lookup id).map MemoryRecord.text

/-- The keyword index is that of the texts of the records, under the cap; an index without texts has an
empty one. -/
structure Documented (cap : Nat) (m : Memory) : Prop where
  keyed : m.Keyed
  indexed : m.config.mode.indexesText = true → ∃ docs, TextIndex.Counted cap docs m.text ∧ m.TextsOf docs
  textless : m.config.mode.indexesText = false → m.text = {}

variable {m m' : Memory} {e : Env} {w : World} {cap : Nat} {id : Bytes}

theorem documented_new (config : MemoryConfig) (cap : Nat) : (Memory.new config).Documented cap where
  keyed id r h := by cases h
  indexed _ := ⟨∅, counted_empty cap, fun _ => rfl⟩
  textless _ := rfl

/-- Neither the texts nor the ids of the records have changed. -/
theorem Documented.congr (h : m.Documented cap) (hconfig : m'.config = m.config) (htext : m'.text = m.text)
    (hrecords : ∀ id, (m'.records.lookup id).map (fun r => (r.id, r.text)) =
      (m.records.lookup id).map fun r => (r.id, r.text)) : m'.Documented cap where
  keyed id r' hr' := by
    have hsame := hrecords id
    rw [hr'] at hsame
    obtain ⟨r, hr, heq⟩ := Option.map_eq_some_iff.mp hsame.symm
    rw [← h.keyed id r hr]
    exact (congrArg Prod.fst heq).symm
  indexed hmode := by
    rw [hconfig] at hmode
    obtain ⟨docs, hcounted, hdocs⟩ := h.indexed hmode
    rw [htext]
    refine ⟨docs, hcounted, fun id => ?_⟩
    have hsame := congrArg (Option.map Prod.snd) (hrecords id)
    rw [Option.map_map, Option.map_map] at hsame
    exact (hdocs id).trans hsame.symm
  textless hmode := by
    rw [hconfig] at hmode
    rw [htext]
    exact h.textless hmode

/-- **A record is filed**, whether or not its id is new. -/
theorem Documented.filed (h : m.Documented cap) (hcap : 0 < cap) {r : MemoryRecord} (hid : r.id = id) :
    (m.filed id ((m.records.lookup id).map MemoryRecord.text) r cap).Documented cap where
  keyed id' r' hr' := by
    have hl : (m.records.insert id r).lookup id' = some r' := hr'
    rw [Assoc.lookup_insert_eq] at hl
    split at hl
    · cases hl
      exact hid.trans (‹id' = id›).symm
    · exact h.keyed id' r' hl
  indexed hmode := by
    have hmode : m.config.mode.indexesText = true := hmode
    obtain ⟨docs, hcounted, hdocs⟩ := h.indexed hmode
    have happlied := apply_counted hcap (s := ⟨docs, m.text⟩) hcounted (.index id r.text)
    refine ⟨docs.insert id r.text, ?_, fun id' => ?_⟩
    · show TextIndex.Counted cap (docs.insert id r.text) (if m.config.mode.indexesText = true then _ else _)
      rw [if_pos hmode, ← hdocs id]
      exact happlied
    · show _ = ((m.records.insert id r).lookup id').map MemoryRecord.text
      rw [Assoc.lookup_insert_eq, Assoc.lookup_insert_eq, hdocs id']
      split <;> rfl
  textless hmode := by
    have hmode : m.config.mode.indexesText = false := hmode
    show (if m.config.mode.indexesText = true then _ else _) = _
    rw [hmode]
    exact h.textless hmode

/-- **A removal** takes the document out with the record. -/
theorem del_documented (hcap : 0 < cap) (h : m.Documented cap) (id : Bytes) :
    (m.del id cap).2.Documented cap := by
  unfold del
  cases hr : m.records.lookup id with
  | none => exact h
  | some r =>
    refine ⟨fun id' r' hr' => ?_, fun hmode => ?_, fun hmode => ?_⟩
    · have hl : (m.records.erase id).lookup id' = some r' := hr'
      rw [Assoc.lookup_erase_eq] at hl
      split at hl
      · cases hl
      · exact h.keyed id' r' hl
    · have hmode : m.config.mode.indexesText = true := hmode
      obtain ⟨docs, hcounted, hdocs⟩ := h.indexed hmode
      have hdoc : docs.lookup id = some r.text := by rw [hdocs id, hr, Option.map_some]
      refine ⟨docs.erase id, ?_, fun id' => ?_⟩
      · show TextIndex.Counted cap (docs.erase id) (if m.config.mode.indexesText = true then _ else _)
        rw [if_pos hmode]
        exact hcounted.remove hcap hdoc
      · show _ = ((m.records.erase id).lookup id').map MemoryRecord.text
        rw [Assoc.lookup_erase_eq, Assoc.lookup_erase_eq, hdocs id']
        split <;> rfl
    · have hmode : m.config.mode.indexesText = false := hmode
      show (if m.config.mode.indexesText = true then _ else _) = _
      rw [hmode]
      exact h.textless hmode

/-- **An addition** files one record. -/
theorem add_documented (hcap : 0 < cap) (h : m.Documented cap) (request : AddRequest) (maxRecords : Nat) :
    Act.Sat (add request cap maxRecords) e m w (fun _ m' _ => m'.Documented cap) (fun _ => True) := by
  have hn : (m.numbered request).Documented cap := by
    rw [numbered_eq]
    exact h.congr rfl rfl fun _ => rfl
  refine sat_add (fun _ _ => hn) fun _ => sat_addChecked (fun _ _ _ => trivial) ?_
  have hid : ((m.numbered request).added request (m.addedId request) (e.clock w.ticks)).id =
      m.addedId request := by
    have hadded := (addedRecord_same hn.keyed request (m.addedId request) (e.clock w.ticks)).1
    unfold added
    split <;> exact hadded
  refine Act.sat_mono (placeVector_same _ request.vector) ?_ (fun _ h => h)
  rintro r m' w' ⟨hr, -, hm'⟩
  have hplaced : m'.Documented cap := hn.congr (by rw [hm']) (by rw [hm']) fun _ => by rw [hm']
  have hrecords : m'.records = (m.numbered request).records := by rw [hm']
  have hfiled := hplaced.filed hcap (hr.trans hid)
  rw [hrecords] at hfiled
  exact hfiled

/-- A change of a live record that keeps its id and its text. -/
theorem onLive_documented {α : Type} (h : m.Documented cap)
    {f : SystemTime → MemoryRecord → Run Memory (α × MemoryRecord)}
    (hf : ∀ t r w, Act.Sat (f t r) e m w
      (fun p m' _ => m' = m ∧ p.2.id = r.id ∧ p.2.text = r.text) (fun _ => True)) :
    Act.Sat (onLive id f) e m w (fun _ m' _ => m'.Documented cap) (fun _ => True) := by
  refine sat_onLive (fun _ => h) fun r hr => Act.sat_mono (hf _ r _) ?_ (fun _ h => h)
  rintro p m' w' ⟨rfl, hid, htext⟩
  have hold := (liveRecord_some hr).1
  refine h.congr rfl rfl fun id' => ?_
  show ((m'.records.insert id p.2).lookup id').map _ = _
  rw [Assoc.lookup_insert_eq]
  split
  · rename_i heq
    rw [heq, hold, Option.map_some, Option.map_some, hid, htext]
  · rfl

end Memory

/-! ## Runs under one cap -/

/-- The operation indexes under the cap in force and leaves it; a copy is indexed without a cap. -/
def IndexOp.OneCap : IndexOp → Prop
  | .copy => False
  | .setCap _ => False
  | _ => True

instance (op : IndexOp) : Decidable op.OneCap := by
  cases op <;> unfold IndexOp.OneCap <;> infer_instance

/-- A change of one record is about its metadata and its times. -/
structure Retouched (r r' : MemoryRecord) : Prop where
  id : r'.id = r.id
  text : r'.text = r.text
  slot : r'.slot = r.slot
  importance : r'.importance = r.importance
  metadata : InOrder r.metadata → InOrder r'.metadata

namespace Retouched

variable (t : SystemTime) (r : MemoryRecord)

/-- Only the metadata are others, and the time. -/
theorem of_metadata {r r' : MemoryRecord} (h : r' = { r with metadata := r'.metadata })
    (hmeta : InOrder r.metadata → InOrder r'.metadata) : Retouched r { r' with updatedAt := t } where
  id := (congrArg MemoryRecord.id h :)
  text := (congrArg MemoryRecord.text h :)
  slot := (congrArg MemoryRecord.slot h :)
  importance := (congrArg MemoryRecord.importance h :)
  metadata := hmeta

theorem setMeta (pairs : List (Bytes × Bytes)) :
    Retouched r { (MemoryRecord.setMetaAll pairs r).2 with updatedAt := t } :=
  of_metadata t (MemoryRecord.setMetaAll_eq pairs r) fun h => (MemoryRecord.setMetaAll_spec pairs h).1

theorem removeMeta (fields : List Bytes) :
    Retouched r { (MemoryRecord.removeMetaAll fields r).2 with updatedAt := t } :=
  of_metadata t (MemoryRecord.removeMetaAll_eq fields r) fun h => MemoryRecord.removeMetaAll_inOrder fields h

theorem expireAt (deadline : Option SystemTime) : Retouched r { r with expireAt := deadline } :=
  ⟨rfl, rfl, rfl, rfl, fun h => h⟩

end Retouched

/-- Additions of such requests, removals and changes of one record keep `I`. -/
structure Memory.KeptBy (e : Env) (cap : Nat) (Ok : AddRequest → Prop) (I : Memory → Prop) : Prop where
  add : ∀ {m : Memory} {w : World} (request : AddRequest) (maxRecords : Nat), Ok request → I m →
    Act.Sat (Memory.add request cap maxRecords) e m w (fun _ m' _ => I m') (fun _ => True)
  del : ∀ {m : Memory} (id : Bytes), I m → I (m.del id cap).2
  onLive : ∀ {α : Type} {m : Memory} {w : World} {id : Bytes}
    {f : SystemTime → MemoryRecord → Run Memory (α × MemoryRecord)}, I m →
    (∀ t r w, Act.Sat (f t r) e m w (fun p m' _ => m' = m ∧ Retouched r p.2) (fun _ => True)) →
    Act.Sat (Memory.onLive id f) e m w (fun _ m' _ => I m') (fun _ => True)

namespace Memory.KeptBy

variable {e : Env} {s : IndexState} {w : World} {Ok : AddRequest → Prop} {I : Memory → Prop}

theorem delAll {cap : Nat} (h : KeptBy e cap Ok I) : ∀ (ids : List Bytes) {m : Memory}, I m →
    I (Memory.delAll cap ids m).2
  | [], _, hm => hm
  | id :: ids, m, hm => delAll h ids (m := (m.del id cap).2) (h.del id hm)

/-- **One step** under the cap keeps it. -/
theorem exec (h : KeptBy e s.cap Ok I) (hs : I s.memory) {op : IndexOp} (hop : op.OneCap)
    (hok : ∀ request maxRecords, op = .add request maxRecords → Ok request) :
    Act.Sat op.exec e s w (fun _ s' _ => s'.cap = s.cap ∧ I s'.memory) (fun _ => True) := by
  have hlive : ∀ {α : Type} {id : Bytes} {f : SystemTime → MemoryRecord → Run Memory (α × MemoryRecord)},
      (∀ t r w, Act.Sat (f t r) e s.memory w (fun p m' _ => m' = s.memory ∧ Retouched r p.2)
        (fun _ => True)) →
      Act.Sat (do let _ ← onIndex (Memory.onLive id f)) e s w
        (fun _ s' _ => s'.cap = s.cap ∧ I s'.memory) (fun _ => True) := by
    intro α id f hf
    unfold onIndex
    rw [Act.sat_bind, Act.sat_zoom]
    exact Act.sat_mono (h.onLive hs hf) (fun _ _ _ hm => ⟨rfl, hm⟩) (fun _ h => h)
  cases op with
  | add request maxRecords =>
    unfold IndexOp.exec onIndex
    rw [Act.sat_bind, Act.sat_get, Act.sat_bind, Act.sat_zoom]
    exact Act.sat_mono (h.add request maxRecords (hok request maxRecords rfl) hs) (fun _ _ _ hm => ⟨rfl, hm⟩) (fun _ h => h)
  | del ids => exact ⟨rfl, h.delAll ids hs⟩
  | sweep =>
    unfold IndexOp.exec onIndex sweepExpired
    simp only [Act.sat_bind, Act.sat_get, Act.sat_zoom, sat_now, Act.sat_set, Act.sat_pure]
    exact ⟨trivial, h.delAll _ hs⟩
  | copy => exact hop.elim
  | setMeta id pairs => exact hlive fun t r w => ⟨rfl, .setMeta t r pairs⟩
  | removeMeta id fields => exact hlive fun t r w => ⟨rfl, .removeMeta t r fields⟩
  | setTtl id ttl =>
    refine hlive fun t r w => ?_
    cases ttl with
    | none => exact ⟨rfl, .expireAt r none⟩
    | some d =>
      simp only [addDuration, Act.sat_bind, Act.sat_ite, Act.sat_pure, Act.sat_panic]
      exact ⟨fun _ => ⟨trivial, .expireAt r _⟩, fun _ => trivial⟩
  | setCap cap => exact hop.elim

end Memory.KeptBy

theorem Memory.keptBy_documented {e : Env} {cap : Nat} (hcap : 0 < cap) :
    Memory.KeptBy e cap (fun _ => True) (Memory.Documented cap) where
  add request maxRecords _ h := Memory.add_documented hcap h request maxRecords
  del id h := Memory.del_documented hcap h id
  onLive h hf := Memory.onLive_documented h fun t r w =>
    Act.sat_mono (hf t r w) (fun _ _ _ h => ⟨h.1, h.2.id, h.2.text⟩) (fun _ h => h)

end Klyro
