import Klyro.Store.Spec

/-!
# Runs of store operations

Every public operation of the store as one step, and the index invariant over whole runs.

* `StoreOp` / `StoreOp.exec` — the operations.  A `&mut` that an operation hands out is used by an
  arbitrary function of the value.
* `exec_indexed` — one step keeps the invariant, whatever the clock, the generator and the answers
  of the monotonic clock are, and `swap_remove` is in range.
* `run_indexed` — so does every run from an empty store.
-/

set_option autoImplicit false

namespace Klyro

/-- A public operation of the store. -/
inductive StoreOp where
  | setString (key value : Bytes)
  | updateString (key value : Bytes)
  | del (key : Bytes)
  | setExpireAt (key : Bytes) (deadline : Option SystemTime)
  | rename (key newKey : Bytes)
  | copy (key dest : Bytes) (replace : Bool)
  | flush
  | getOrCreateList (key : Bytes) (use : ListValue → ListValue)
  | readList (key : Bytes)
  | writeList (key : Bytes) (use : ListValue → ListValue)
  | getOrCreateHash (key : Bytes) (use : HashValue → HashValue)
  | readHash (key : Bytes)
  | writeHash (key : Bytes) (use : HashValue → HashValue)
  | getOrCreateSet (key : Bytes) (use : SetValue → SetValue)
  | readSet (key : Bytes)
  | writeSet (key : Bytes) (use : SetValue → SetValue)
  | getOrCreateZset (key : Bytes) (use : Zset → Zset)
  | readZset (key : Bytes)
  | writeZset (key : Bytes) (use : Zset → Zset)
  | deleteIfEmpty (key : Bytes)
  | createMemory (key : Bytes) (memory : Memory)
  | existingMemory (key : Bytes) (use : Memory → Memory)
  | evict (key : Bytes)
  | sweepExpired
  | hasKey (key : Bytes)
  | typeOf (key : Bytes)
  | peekType (key : Bytes)
  | hasExpiry (key : Bytes)
  | ttl (key : Bytes)
  | pttlMs (key : Bytes)
  | getString (key : Bytes)
  | randomKey
  | size
  | volatileSize
  | typeBreakdown
  | sample (volatileOnly : Bool) (count : Nat)
  | foreachKey
  | foreachEntry
  | memoryKeys
  | scan (startCursor minCount : Nat)
  | markDirty
  | resetDirty

/-- Run an operation and forget its answer. -/
def forget {σ α : Type} (m : Run σ α) : Run σ Unit := do
  let _ ← m
  pure ()

/-- What an operation runs. -/
def StoreOp.exec : StoreOp → Run Store Unit
  | .setString key value => Store.setString key value
  | .updateString key value => Store.updateString key value
  | .del key => forget (Store.del key)
  | .setExpireAt key deadline => forget (Store.setExpireAt key deadline)
  | .rename key newKey => forget (Store.rename key newKey)
  | .copy key dest replace => forget (Store.copy key dest replace)
  | .flush => forget Store.flush
  | .getOrCreateList key use => forget (Store.getOrCreateList key (Act.modify use))
  | .readList key => forget (Store.readList key)
  | .writeList key use => forget (Store.writeList key (Act.modify use))
  | .getOrCreateHash key use => forget (Store.getOrCreateHash key (Act.modify use))
  | .readHash key => forget (Store.readHash key)
  | .writeHash key use => forget (Store.writeHash key (Act.modify use))
  | .getOrCreateSet key use => forget (Store.getOrCreateSet key (Act.modify use))
  | .readSet key => forget (Store.readSet key)
  | .writeSet key use => forget (Store.writeSet key (Act.modify use))
  | .getOrCreateZset key use => forget (Store.getOrCreateZset key (Act.modify use))
  | .readZset key => forget (Store.readZset key)
  | .writeZset key use => forget (Store.writeZset key (Act.modify use))
  | .deleteIfEmpty key => Store.deleteIfEmpty key
  | .createMemory key memory => forget (Store.createMemory key memory)
  | .existingMemory key use => forget (Store.existingMemory key (Act.modify use))
  | .evict key => forget (Store.evict key)
  | .sweepExpired => Store.sweepExpired
  | .hasKey key => forget (Store.hasKey key)
  | .typeOf key => forget (Store.typeOf key)
  | .peekType key => forget (Store.peekType key)
  | .hasExpiry key => forget (Store.hasExpiry key)
  | .ttl key => forget (Store.ttl key)
  | .pttlMs key => forget (Store.pttlMs key)
  | .getString key => forget (Store.getString key)
  | .randomKey => forget Store.randomKey
  | .size => forget Store.size
  | .volatileSize => forget Store.volatileSize
  | .typeBreakdown => forget Store.typeBreakdown
  | .sample volatileOnly count => forget (Store.sample volatileOnly count)
  | .foreachKey => forget Store.foreachKey
  | .foreachEntry => forget Store.foreachEntry
  | .memoryKeys => forget Store.memoryKeys
  | .scan startCursor minCount => forget (Store.scan startCursor minCount)
  | .markDirty => Store.markDirty
  | .resetDirty => Store.resetDirty

namespace Store

variable {e : Env} {s : Store} {w : World} {α : Type}

/-- From a store in order, `m` ends in a store in order, and no `swap_remove` is out of range. -/
def KeepsIndexes (e : Env) (m : Run Store α) : Prop :=
  ∀ s w, Indexed s → Act.Sat m e s w (fun _ s' _ => Indexed s') (· ≠ .swapRemove)

/-- A specification that keeps the invariant is enough. -/
theorem KeepsIndexes.of_spec {m : Run Store α} {Q : Store → World → α → Store → World → Prop}
    (h : ∀ s w, Act.Sat m e s w (Q s w) (OutOfRange s))
    (hQ : ∀ s w a s' w', Q s w a s' w' → Indexed s → Indexed s') : KeepsIndexes e m := by
  intro s w hs
  refine Act.sat_mono (h s w) (fun a s' w' hq => hQ s w a s' w' hq hs) ?_
  intro p hp
  exact absurd hs hp.2

theorem KeepsIndexes.forget {m : Run Store α} (h : KeepsIndexes e m) : KeepsIndexes e (forget m) := by
  intro s w hs
  unfold Klyro.forget
  rw [Act.sat_bind]
  exact h s w hs

/-- A computation that leaves the store as it is and does not use `swap_remove`. -/
theorem KeepsIndexes.of_reads {m : Run Store α}
    (h : ∀ s w, Act.Sat m e s w (fun _ s' _ => s' = s) (· ≠ .swapRemove)) : KeepsIndexes e m := by
  intro s w hs
  refine Act.sat_mono (h s w) ?_ (fun _ h => h)
  rintro _ s' _ rfl
  exact hs

theorem KeepsIndexes.bind_pure {β : Type} {m : Run Store α} {f : α → β} (h : KeepsIndexes e m) :
    KeepsIndexes e (do let a ← m; pure (f a)) := by
  intro s w hs
  rw [Act.sat_bind]
  exact h s w hs

theorem keepsIndexes_find (key : Bytes) : KeepsIndexes e (find key) :=
  .of_spec (fun _ _ => find_spec key) fun _ _ _ _ _ h => h.2.2.2.2

theorem keepsIndexes_getOrCreate {τ : Type} (V : Variant τ) (key : Bytes) (use : τ → τ) :
    KeepsIndexes e (getOrCreate V key (Act.modify use)) := by
  intro s w hs
  refine sat_getOrCreate (fun p hp => absurd hs hp.2) ?_ ?_
  · intro x d s' w' _ _ _ _ hidx
    exact hidx hs
  · intro v d s' w' _ _ _ hidx
    exact (hidx hs).setValue

theorem keepsIndexes_write {τ : Type} (V : Variant τ) (key : Bytes) (use : τ → τ) :
    KeepsIndexes e (write V key (Act.modify use)) := by
  intro s w hs
  refine sat_write (fun p hp => absurd hs hp.2) ?_ ?_
  · intro s' w' _ _ _ hidx
    exact hidx hs
  · intro v d s' w' _ _ _ hidx
    exact (hidx hs).setValue

theorem keepsIndexes_existingMemory (key : Bytes) (use : Memory → Memory) :
    KeepsIndexes e (existingMemory key (Act.modify use)) := by
  intro s w hs
  refine sat_existingMemory (fun p hp => absurd hs hp.2) ?_ ?_
  · intro s' w' _ _ _ hidx
    exact hidx hs
  · intro v d s' w' _ _ _ hidx
    exact (hidx hs).setValue

theorem keepsIndexes_read {τ : Type} (V : Variant τ) (key : Bytes) : KeepsIndexes e (read V key) :=
  (keepsIndexes_find key).bind_pure

theorem indexed_empty (s : Store) : Indexed { s with map := ∅, keys := [], volatile := [] } where
  keys_nodup := List.nodup_nil
  mem_keys := by simp
  slot := by simp
  volatile_nodup := List.nodup_nil
  mem_volatile := by simp
  volatile_slot := by simp
  stable := by simp

theorem keepsIndexes_sweepExpired : KeepsIndexes e sweepExpired := by
  intro s w hs
  unfold sweepExpired
  simp only [Act.sat_bind, sat_now, Act.sat_get]
  refine Act.sat_forList (I := fun s _ => Indexed s) ?_ _ _ _ hs
  intro key s w hs
  rw [Act.sat_bind]
  refine Act.sat_mono (removeEntry_spec key) ?_ (fun p hp => absurd hs hp.2)
  rintro _ s' w' ⟨-, -, -, hidx⟩
  exact (hidx hs).congr rfl rfl rfl

/-! ## Copies of memory indexes -/

theorem insert_panics (values : List F32) (v : VectorIndex) (w : World) :
    Act.Sat (VectorIndex.insert values) e v w (fun _ _ _ => True) (· ≠ .swapRemove) := by
  unfold VectorIndex.insert VectorIndex.takeSlot
  simp only [Act.sat_bind, Act.sat_get]
  split
  · simp [VectorIndex.write]
  · simp [VectorIndex.write]

theorem loadRecord_panics (record : MemoryRecord) (vector : Option (List F32)) (maxTerms : Nat)
    (m : Memory) (w : World) :
    Act.Sat (Memory.loadRecord record vector maxTerms) e m w (fun _ _ _ => True) (· ≠ .swapRemove) := by
  unfold Memory.loadRecord
  simp only [Act.sat_bind, Act.sat_modify, Act.sat_get]
  split
  · split
    · simp only [Act.sat_bind, Memory.onVectors, Act.sat_zoom, Act.sat_pure, Act.sat_modify]
      exact insert_panics _ _ _
    · trivial
  · trivial

theorem clone_panics (m : Memory) (w : World) :
    Act.Sat Memory.clone e m w (fun _ _ _ => True) (· ≠ .swapRemove) := by
  unfold Memory.clone Memory.recordsForDump Memory.sortedIds
  simp only [Act.sat_bind, sat_now, Act.sat_get, Act.sat_pure, Act.sat_zoom]
  exact Act.sat_forList (I := fun _ _ => True) (fun p m w _ => loadRecord_panics p.1 p.2 _ m w)
    _ _ _ trivial

theorem keepsIndexes_copy (key dest : Bytes) (replace : Bool) : KeepsIndexes e (copy key dest replace) := by
  intro s w hs
  refine sat_copy (fun p hp => absurd hs hp.2) ?_ ?_ ?_ ?_
  · intro s' w' _ _ _ hidx
    exact hidx hs
  · intro s' w' _ _ _ _ _ hidx
    exact hidx hs
  · intros
    simp
  · intro x d s' w' _ _ _ _ hidx
    refine sat_cloneValue (fun _ => ⟨rfl, fun s'' _ h => h (hidx hs)⟩) fun m _ => ?_
    refine Act.sat_mono (clone_panics m w') ?_ (fun _ h => h)
    exact fun m' _ w'' _ => ⟨rfl, fun s'' _ h => h (hidx hs)⟩

/-! ## Samples and draws -/

theorem below_spec {σ : Type} {t : σ} (n : Nat) :
    Act.Sat (below n) e t w (fun i t' w' => t' = t ∧ Later 0 w w' ∧ (0 < n → i < n)) (fun _ => False) := by
  unfold below
  simp only [Act.sat_ite, Act.sat_pure, Act.sat_bind, sat_nextU64]
  refine ⟨fun h => ⟨trivial, .refl _, by omega⟩, fun h => ⟨trivial, ⟨rfl, rfl, rfl⟩, fun hn => ?_⟩⟩
  exact Nat.mod_lt _ hn

theorem randomKeyLoop_reads (t : SystemTime) : ∀ (n : Nat) (s : Store) (w : World),
    Act.Sat (randomKeyLoop t n) e s w (fun _ s' _ => s' = s) (fun _ => False)
  | 0, s, w => rfl
  | n + 1, s, w => by
    unfold randomKeyLoop
    simp only [Act.sat_bind, Act.sat_get, Act.sat_ite, Act.sat_pure, implies_true, true_and]
    intro hne
    refine Act.sat_mono (below_spec _) ?_ (fun _ h => h)
    rintro i s' w' ⟨rfl, -, hi⟩
    have hlt : i < s'.keys.length := hi (by simpa [List.length_pos_iff] using hne)
    rw [List.getElem?_eq_getElem hlt]
    simp only [Act.sat_ite, Act.sat_pure, implies_true, true_and]
    exact fun _ => randomKeyLoop_reads t n s' w'

theorem sampleLoop_reads (pool : List Bytes) (hpool : pool ≠ []) (t : SystemTime) (m : Nat) :
    ∀ (n : Nat) (s : Store) (w : World),
      Act.Sat (sampleLoop pool t m n) e s w (fun _ s' _ => s' = s) (fun _ => False)
  | 0, s, w => rfl
  | n + 1, s, w => by
    unfold sampleLoop
    simp only [Act.sat_bind]
    refine Act.sat_mono (below_spec _) ?_ (fun _ h => h)
    rintro i s' w' ⟨rfl, -, hi⟩
    rw [List.getElem?_eq_getElem (hi (List.length_pos_iff.mpr hpool))]
    simp only [Act.sat_bind, Act.sat_get, Act.sat_pure]
    exact sampleLoop_reads pool hpool t m n s' w'

theorem sample_reads (volatileOnly : Bool) (count : Nat) (s : Store) (w : World) :
    Act.Sat (sample volatileOnly count) e s w (fun _ s' _ => s' = s) (· = .capacity) := by
  unfold sample
  simp only [Act.sat_bind, Act.sat_get, Act.sat_ite, Act.sat_pure, implies_true, true_and, sat_now]
  intro hne
  refine Act.sat_mono minute_spec ?_ (fun _ h => h.elim)
  rintro m s' w' ⟨rfl, -⟩
  simp only [Act.sat_panic, implies_true, true_and]
  rw [not_or] at hne
  intro _
  refine Act.sat_mono (sampleLoop_reads _ ?_ _ _ _ _ _) (fun _ _ _ h => h) (fun _ h => h.elim)
  intro hnil
  rw [hnil] at hne
  exact hne.1 rfl

/-! ## Steps and runs -/

/-- **One operation keeps the index vectors in step with the map.** -/
theorem exec_indexed (op : StoreOp) : KeepsIndexes e op.exec := by
  cases op with
  | setString key value => exact .of_spec (fun _ _ => setString_spec key value) fun _ _ _ _ _ h => h.2.2
  | updateString key value =>
    exact .of_spec (fun _ _ => updateString_spec key value) fun _ _ _ _ _ h => h.2.2
  | del key => exact (KeepsIndexes.of_spec (fun _ _ => del_spec key) fun _ _ _ _ _ h => h.2.2.2).forget
  | setExpireAt key deadline =>
    exact (KeepsIndexes.of_spec (fun _ _ => setExpireAt_spec key deadline)
      fun _ _ _ _ _ h => h.2.2.2).forget
  | rename key newKey =>
    exact (KeepsIndexes.of_spec (fun _ _ => rename_spec key newKey) fun _ _ _ _ _ h => h.2.2.1).forget
  | copy key dest replace => exact (keepsIndexes_copy key dest replace).forget
  | flush => exact KeepsIndexes.forget fun s _ _ => (indexed_empty s).congr rfl rfl rfl
  | getOrCreateList key use => exact (keepsIndexes_getOrCreate .list key use).forget
  | readList key => exact (keepsIndexes_read .list key).forget
  | writeList key use => exact (keepsIndexes_write .list key use).forget
  | getOrCreateHash key use => exact (keepsIndexes_getOrCreate .hash key use).forget
  | readHash key => exact (keepsIndexes_read .hash key).forget
  | writeHash key use => exact (keepsIndexes_write .hash key use).forget
  | getOrCreateSet key use => exact (keepsIndexes_getOrCreate .set key use).forget
  | readSet key => exact (keepsIndexes_read .set key).forget
  | writeSet key use => exact (keepsIndexes_write .set key use).forget
  | getOrCreateZset key use => exact (keepsIndexes_getOrCreate .zset key use).forget
  | readZset key => exact (keepsIndexes_read .zset key).forget
  | writeZset key use => exact (keepsIndexes_write .zset key use).forget
  | deleteIfEmpty key => exact .of_spec (fun _ _ => deleteIfEmpty_spec key) fun _ _ _ _ _ h => h.2.2
  | createMemory key memory =>
    exact (KeepsIndexes.of_spec (fun _ _ => createMemory_spec key memory)
      fun _ _ _ _ _ h => h.2.2.1).forget
  | existingMemory key use => exact (keepsIndexes_existingMemory key use).forget
  | evict key => exact (KeepsIndexes.of_spec (fun _ _ => evict_spec key) fun _ _ _ _ _ h => h.2.2.2).forget
  | sweepExpired => exact keepsIndexes_sweepExpired
  | hasKey key => exact (keepsIndexes_find key).bind_pure.forget
  | typeOf key => exact (keepsIndexes_find key).bind_pure.forget
  | peekType key =>
    exact (KeepsIndexes.of_spec (fun _ _ => peekType_spec key) fun _ _ _ _ _ h => h.2.2.2).forget
  | hasExpiry key => exact (keepsIndexes_find key).bind_pure.forget
  | ttl key =>
    exact (KeepsIndexes.of_spec (fun _ _ => pttlMs_spec key) fun _ _ _ _ _ h => h.2.1).bind_pure.forget
  | pttlMs key =>
    exact (KeepsIndexes.of_spec (fun _ _ => pttlMs_spec key) fun _ _ _ _ _ h => h.2.1).forget
  | getString key => exact (keepsIndexes_find key).bind_pure.forget
  | randomKey =>
    refine (KeepsIndexes.of_reads fun s w => ?_).forget
    unfold randomKey
    rw [Act.sat_bind, sat_now]
    exact Act.sat_mono (randomKeyLoop_reads _ _ _ _) (fun _ _ _ h => h) (fun _ h => h.elim)
  | size => exact (KeepsIndexes.of_reads (m := Store.size) fun _ _ => rfl).forget
  | volatileSize => exact (KeepsIndexes.of_reads (m := Store.volatileSize) fun _ _ => rfl).forget
  | typeBreakdown => exact (KeepsIndexes.of_reads (m := Store.typeBreakdown) fun _ _ => rfl).forget
  | sample volatileOnly count =>
    refine (KeepsIndexes.of_reads fun s w => ?_).forget
    exact Act.sat_mono (sample_reads _ _ _ _) (fun _ _ _ h => h) (by rintro _ rfl; simp)
  | foreachKey => exact (KeepsIndexes.of_reads (m := Store.foreachKey) fun _ _ => rfl).forget
  | foreachEntry => exact (KeepsIndexes.of_reads (m := Store.foreachEntry) fun _ _ => rfl).forget
  | memoryKeys => exact (KeepsIndexes.of_reads (m := Store.memoryKeys) fun _ _ => rfl).forget
  | scan startCursor minCount =>
    refine (KeepsIndexes.of_reads fun s w => ?_).forget
    unfold scan
    simp
  | markDirty => exact fun s _ hs => indexed_bumpDirty.mpr hs
  | resetDirty => exact fun s _ hs => hs.congr rfl rfl rfl

/-- **Every run of store operations from an empty store keeps the index vectors in step with the
map**, under any readings of the clocks, and no `swap_remove` is ever out of range. -/
theorem run_indexed (e : Env) (started : Instant) (ops : List StoreOp) (w : World) :
    Act.Sat (Act.forList StoreOp.exec ops) e { started := started } w (fun _ s _ => Indexed s)
      (· ≠ .swapRemove) :=
  Act.sat_forList (I := fun s _ => Indexed s) (fun op s w hs => exec_indexed op s w hs) ops _ w
    ((indexed_empty { started := started }).congr rfl rfl rfl)

end Store

end Klyro
