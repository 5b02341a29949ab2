import Klyro.Hub

/-!
# Watched keys

* `Watch.Agrees` — the registry counts, for each key, the clients that watch it.
* `Tracked` — the version a client recorded for a key, against the signals since it did.
* `Watching` — both, for every connected client; `run_watching` says that every run keeps it.
* `exec_exact` — EXEC runs nothing exactly when a watched key was signalled.
-/

set_option autoImplicit false

namespace Klyro

/-- There are exactly `n` ids with a property. -/
def Exactly (n : Nat) (p : Nat → Prop) : Prop :=
  ∃ ids : List Nat, ids.Nodup ∧ ids.length = n ∧ ∀ id, id ∈ ids ↔ p id

theorem Exactly.congr {n : Nat} {p q : Nat → Prop} (h : Exactly n p) (hpq : ∀ id, p id ↔ q id) :
    Exactly n q := by
  obtain ⟨ids, hnodup, hlen, hids⟩ := h
  exact ⟨ids, hnodup, hlen, fun id => (hids id).trans (hpq id)⟩

theorem Exactly.insert {n id : Nat} {p q : Nat → Prop} (h : Exactly n p) (hnew : ¬ p id)
    (hq : ∀ i, q i ↔ i = id ∨ p i) : Exactly (n + 1) q := by
  obtain ⟨ids, hnodup, hlen, hids⟩ := h
  refine ⟨id :: ids, List.nodup_cons.mpr ⟨fun hid => hnew ((hids id).mp hid), hnodup⟩, ?_, fun i => ?_⟩
  · rw [List.length_cons, hlen]
  · rw [List.mem_cons, hids, hq]

theorem Exactly.remove {n id : Nat} {p q : Nat → Prop} (h : Exactly n p) (hold : p id)
    (hq : ∀ i, q i ↔ i ≠ id ∧ p i) : Exactly (n - 1) q ∧ 0 < n := by
  obtain ⟨ids, hnodup, hlen, hids⟩ := h
  have hid : id ∈ ids := (hids id).mpr hold
  refine ⟨⟨ids.erase id, hnodup.erase id, ?_, fun i => ?_⟩, ?_⟩
  · rw [List.length_erase_of_mem hid, hlen]
  · rw [hnodup.mem_erase_iff, hids, hq]
  · rw [← hlen]
    exact List.length_pos_of_mem hid

theorem Exactly.pos {n id : Nat} {p : Nat → Prop} (h : Exactly n p) (hp : p id) : 0 < n := by
  obtain ⟨ids, -, hlen, hids⟩ := h
  rw [← hlen]
  exact List.length_pos_of_mem ((hids id).mpr hp)

/-! ## The registry -/

namespace Watch

variable {w : Watch} {held : Nat → List Bytes} {key : Bytes} {id : Nat}

/-- **The registry counts the clients that watch a key**, and has no entry for a key nobody
watches. -/
structure Agrees (w : Watch) (held : Nat → List Bytes) : Prop where
  counted : ∀ key, Exactly ((w.counts key).getD 0) fun id => key ∈ held id
  used : ∀ key, w.counts key ≠ some 0

theorem agrees_empty : Agrees {} fun _ => [] where
  counted _ := ⟨[], List.nodup_nil, rfl, fun _ => by simp⟩
  used _ := by simp [counts]

theorem counts_entered (k : Bytes) : (w.entered key).counts k =
    if k = key then some ((w.counts key).getD 0 + 1) else w.counts k := by
  unfold entered counts
  rw [Assoc.lookup_insert_eq]
  split <;> rfl

theorem version_entered (k : Bytes) : (w.entered key).version k =
    if k = key then some ((w.version key).getD 0) else w.version k := by
  unfold entered version
  rw [Assoc.lookup_insert_eq]
  split <;> rfl

theorem Agrees.entered (h : w.Agrees held) (hnew : key ∉ held id) {keys : List Bytes}
    (hkeys : ∀ k, k ∈ keys ↔ k = key ∨ k ∈ held id) :
    (w.entered key).Agrees (Function.update held id keys) := by
  constructor
  · intro k
    rw [counts_entered]
    split
    · rename_i hk
      rw [hk]
      refine (h.counted key).insert hnew fun i => ?_
      by_cases hi : i = id
      · subst hi
        simp [hkeys]
      · simp [hi]
    · rename_i hk
      refine (h.counted k).congr fun i => ?_
      by_cases hi : i = id
      · subst hi
        simp [hkeys, hk]
      · simp [hi]
  · intro k
    rw [counts_entered]
    split
    · simp
    · exact h.used k

theorem counts_released (k : Bytes) : (w.released key).counts k =
    if k = key then ((w.counts key).map (· - 1)).filter (· ≠ 0) else w.counts k := by
  unfold released counts
  cases hentry : w.keys.lookup key with
  | none =>
    by_cases hk : k = key
    · subst hk
      simp [hentry]
    · simp [hk]
  | some entry =>
    by_cases hlast : entry.watchers ≤ 1
    · have hnone : entry.watchers - 1 = 0 := by omega
      by_cases hk : k = key
      · subst hk
        simp [hlast, hnone, Option.filter]
      · simp [hlast, hk]
    · have hsome : entry.watchers - 1 ≠ 0 := by omega
      by_cases hk : k = key
      · subst hk
        simp [hlast, Option.filter, hsome]
      · simp [hlast, hk]

/-- A version stays while somebody watches. -/
theorem version_released {k : Bytes} (hk : k = key → 1 < (w.counts key).getD 0) :
    (w.released key).version k = w.version k := by
  unfold released version
  unfold counts at hk
  cases hentry : w.keys.lookup key with
  | none => rfl
  | some entry =>
    rw [hentry] at hk
    by_cases hkey : k = key
    · have hmany : ¬ entry.watchers ≤ 1 := Nat.not_le.mpr (hk hkey)
      subst hkey
      simp [hmany, hentry]
    · by_cases hlast : entry.watchers ≤ 1
      · simp [hlast, hkey]
      · simp [hlast, hkey]

theorem Agrees.released (h : w.Agrees held) (hold : key ∈ held id) {keys : List Bytes}
    (hkeys : ∀ k, k ∈ keys ↔ k ≠ key ∧ k ∈ held id) :
    (w.released key).Agrees (Function.update held id keys) := by
  constructor
  · intro k
    rw [counts_released]
    split
    · rename_i hk
      rw [hk]
      have hremove := (h.counted key).remove (q := fun i => key ∈ Function.update held id keys i) hold
        fun i => by
          by_cases hi : i = id
          · subst hi
            simp [hkeys]
          · simp [hi]
      have hcount : (((w.counts key).map (· - 1)).filter (· ≠ 0)).getD 0 = (w.counts key).getD 0 - 1 := by
        cases w.counts key with
        | none => rfl
        | some n =>
          by_cases hn : n - 1 = 0
          · simp [Option.filter, hn]
          · simp [Option.filter, hn]
      rw [hcount]
      exact hremove.1
    · rename_i hk
      refine (h.counted k).congr fun i => ?_
      by_cases hi : i = id
      · subst hi
        simp [hkeys, hk]
      · simp [hi]
  · intro k
    rw [counts_released]
    split
    · intro hzero
      have hne := (Option.filter_eq_some_iff.mp hzero).2
      simp at hne
    · exact h.used k

/-- A client leaves every key on its list. -/
theorem Agrees.releasedAll (id : Nat) (watched : List (Bytes × Nat)) :
    ∀ {w : Watch} {held : Nat → List Bytes}, w.Agrees held → (watched.map Prod.fst).Nodup →
      (∀ k, k ∈ held id ↔ k ∈ watched.map Prod.fst) →
      (w.releasedAll watched).Agrees (Function.update held id []) ∧
        ∀ k, (∃ i, i ≠ id ∧ k ∈ held i) → (w.releasedAll watched).version k = w.version k := by
  induction watched with
  | nil =>
    intro w held h _ hheld
    refine ⟨⟨fun k => (h.counted k).congr fun i => ?_, h.used⟩, fun _ _ => rfl⟩
    by_cases hi : i = id
    · subst hi
      simp [hheld]
    · simp [hi]
  | cons p watched ih =>
    intro w held h hnodup hheld
    rw [List.map_cons, List.nodup_cons] at hnodup
    have hold : p.1 ∈ held id := (hheld p.1).mpr List.mem_cons_self
    have hrest : ∀ k, k ∈ watched.map Prod.fst ↔ k ≠ p.1 ∧ k ∈ held id := by
      intro k
      rw [hheld, List.map_cons, List.mem_cons]
      constructor
      · intro hk
        exact ⟨fun heq => hnodup.1 (heq ▸ hk), .inr hk⟩
      · rintro ⟨hne, heq | hk⟩
        · exact absurd heq hne
        · exact hk
    obtain ⟨hagrees, hversions⟩ := ih (h.released hold hrest) hnodup.2
      (fun k => by rw [Function.update_self])
    rw [Function.update_idem] at hagrees
    refine ⟨hagrees, fun k ⟨i, hi, hk⟩ => ?_⟩
    have hstep : (w.released p.1).version k = w.version k := by
      refine version_released fun hkey => ?_
      have htwo := (h.counted p.1).remove (q := fun j => j ≠ id ∧ p.1 ∈ held j) hold fun _ => Iff.rfl
      have hone := htwo.1.pos (⟨hi, hkey ▸ hk⟩ : i ≠ id ∧ p.1 ∈ held i)
      omega
    rw [← hstep]
    refine hversions k ⟨i, hi, ?_⟩
    rwa [Function.update_of_ne hi]

theorem version_touch (w : Watch) (key k : Bytes) :
    (w.touch key).version k = if k = key then (w.version k).map (· + 1) else w.version k := by
  unfold touch version
  rw [Assoc.lookup_adjust]
  split
  · rename_i hk
    rw [hk, Option.map_map, Option.map_map]
    rfl
  · rfl

/-- Every version goes up by one. -/
theorem version_touchAll (w : Watch) (k : Bytes) :
    w.touchAll.version k = (w.version k).map (· + 1) := by
  have hfold : ∀ (keys : List Bytes) (m : Assoc Bytes Watched), keys.Nodup →
      (keys.foldl (fun m key => m.adjust key Watched.touched) m).lookup k =
        if k ∈ keys then (m.lookup k).map Watched.touched else m.lookup k := by
    intro keys
    induction keys with
    | nil => exact fun _ _ => rfl
    | cons key keys ih =>
      intro m hnodup
      rw [List.nodup_cons] at hnodup
      rw [List.foldl_cons, ih _ hnodup.2, Assoc.lookup_adjust]
      by_cases hk : k = key
      · subst hk
        rw [if_neg hnodup.1, if_pos rfl, if_pos List.mem_cons_self]
      · simp [hk]
  unfold touchAll version
  rw [hfold _ _ w.keys.keys_nodup]
  split
  · rw [Option.map_map, Option.map_map]
    rfl
  · rename_i hk
    have hnone : w.keys.lookup k = none := AList.lookup_eq_none.mpr hk
    rw [hnone]
    rfl

end Watch

/-! ## What a client recorded -/

/-- Whether an event signals a key. -/
def WatchEvent.signals (key : Bytes) : WatchEvent → Bool
  | .signalled k => k = key
  | .flushed => true
  | _ => false

/-- The events since a client put a key on its list, newest first. -/
def eventsSince (id : Nat) (key : Bytes) (history : List WatchEvent) : List WatchEvent :=
  history.takeWhile (· ≠ .watched id key)

/-- A key was signalled after the WATCH that put it on the client's list. -/
def SignalledSince (id : Nat) (key : Bytes) (history : List WatchEvent) : Prop :=
  ∃ event ∈ eventsSince id key history, event.signals key = true

/-- **What a client recorded for a key**: the WATCH is in the history, the list has not been dropped
since, and the version has gone up once for each signal. -/
structure Tracked (a : App) (id : Nat) (p : Bytes × Nat) : Prop where
  entered : .watched id p.1 ∈ a.history
  kept : .dropped id ∉ eventsSince id p.1 a.history
  version : a.watch.version p.1 =
    some (p.2 + (eventsSince id p.1 a.history).countP (WatchEvent.signals p.1))

theorem eventsSince_cons {id : Nat} {key : Bytes} {event : WatchEvent} {history : List WatchEvent}
    (h : event ≠ .watched id key) :
    eventsSince id key (event :: history) = event :: eventsSince id key history := by
  unfold eventsSince
  rw [List.takeWhile_cons_of_pos (by simpa using h)]

/-- One more event, told in the version if it signals the key. -/
theorem Tracked.cons {a a' : App} {id : Nat} {p : Bytes × Nat} {event : WatchEvent}
    (h : Tracked a id p) (hhistory : a'.history = event :: a.history)
    (hwatched : event ≠ .watched id p.1) (hdropped : event ≠ .dropped id)
    (hversion : a'.watch.version p.1 =
      (a.watch.version p.1).map (· + if event.signals p.1 then 1 else 0)) : Tracked a' id p := by
  constructor
  · rw [hhistory]
    exact List.mem_cons_of_mem _ h.entered
  · rw [hhistory, eventsSince_cons hwatched, List.mem_cons, not_or]
    exact ⟨hdropped.symm, h.kept⟩
  · rw [hhistory, eventsSince_cons hwatched, hversion, h.version, List.countP_cons, Option.map_some,
      Nat.add_assoc]

theorem Tracked.same {a a' : App} {id : Nat} {p : Bytes × Nat} (h : Tracked a id p)
    (hwatch : a'.watch = a.watch) (hhistory : a'.history = a.history) : Tracked a' id p := by
  constructor
  · rw [hhistory]
    exact h.entered
  · rw [hhistory]
    exact h.kept
  · rw [hhistory, hwatch]
    exact h.version

/-- The recorded version is stale exactly when the key was signalled since. -/
theorem Tracked.stale_iff {a : App} {id : Nat} {p : Bytes × Nat} (h : Tracked a id p) :
    a.watch.version p.1 ≠ some p.2 ↔ SignalledSince id p.1 a.history := by
  rw [h.version]
  unfold SignalledSince
  rw [← List.countP_pos_iff]
  simp only [ne_eq, Option.some.injEq]
  omega

/-! ## Every client -/

namespace Hub

/-- The keys a client id watches. -/
def watchedKeys (h : Hub) (id : Nat) : List Bytes :=
  (h.clients id).elim [] fun c => c.watched.map Prod.fst

/-- **The registry counts the watchers, and every recorded version tells the signals since.** -/
structure Watching (h : Hub) : Prop where
  ids : ∀ id c, h.clients id = some c → c.id = id ∧ id ≤ h.app.nextClientId
  distinct : ∀ id, (h.watchedKeys id).Nodup
  agrees : h.app.watch.Agrees h.watchedKeys
  tracked : ∀ id c p, h.clients id = some c → p ∈ c.watched → Tracked h.app id p

variable {h : Hub} {id : Nat} {a a' : App} {c c' : Client}

theorem watchedKeys_put : (h.put id a c).watchedKeys =
    Function.update h.watchedKeys id (c.watched.map Prod.fst) := by
  funext i
  unfold watchedKeys put
  by_cases hi : i = id
  · subst hi; simp
  · simp [hi]

theorem mem_watchedKeys {p : Bytes × Nat} (hc : h.clients id = some c) (hp : p ∈ c.watched) :
    p.1 ∈ h.watchedKeys id := by
  unfold watchedKeys
  rw [hc]
  exact List.mem_map_of_mem hp

theorem watching_put : (h.put id a c).Watching ↔
    ((c.id = id ∧ id ≤ a.nextClientId) ∧ (c.watched.map Prod.fst).Nodup ∧
      ∀ p ∈ c.watched, Tracked a id p) ∧
    (∀ i, i ≠ id → (h.watchedKeys i).Nodup ∧ ∀ c, h.clients i = some c →
      (c.id = i ∧ i ≤ a.nextClientId) ∧ ∀ p ∈ c.watched, Tracked a i p) ∧
    a.watch.Agrees (Function.update h.watchedKeys id (c.watched.map Prod.fst)) := by
  constructor
  · intro hw
    have hdistinct := hw.distinct
    have hagrees := hw.agrees
    rw [watchedKeys_put] at hdistinct hagrees
    refine ⟨⟨hw.ids id c (clients_put ..), ?_, fun p => hw.tracked id c p (clients_put ..)⟩, ?_, hagrees⟩
    · have := hdistinct id
      rwa [Function.update_self] at this
    · intro i hi
      refine ⟨?_, fun c' hc' => ?_⟩
      · have := hdistinct i
        rwa [Function.update_of_ne hi] at this
      · rw [← clients_put_of_ne hi a c] at hc'
        exact ⟨hw.ids i c' hc', fun p => hw.tracked i c' p hc'⟩
  · rintro ⟨⟨hid, hnodup, htracked⟩, hothers, hagrees⟩
    constructor
    · intro i c' hc'
      by_cases hi : i = id
      · subst hi
        rw [clients_put] at hc'
        cases hc'
        exact hid
      · rw [clients_put_of_ne hi] at hc'
        exact ((hothers i hi).2 c' hc').1
    · intro i
      rw [watchedKeys_put]
      by_cases hi : i = id
      · rw [hi, Function.update_self]
        exact hnodup
      · rw [Function.update_of_ne hi]
        exact (hothers i hi).1
    · rw [watchedKeys_put]
      exact hagrees
    · intro i c' p hc' hp
      by_cases hi : i = id
      · subst hi
        rw [clients_put] at hc'
        cases hc'
        exact htracked p hp
      · rw [clients_put_of_ne hi] at hc'
        exact ((hothers i hi).2 c' hc').2 p hp

/-- Nothing happens to the registry, or it is told to everybody at once. -/
theorem Watching.told (hw : (h.put id a c).Watching) (hid : c'.id = c.id)
    (hwatched : c'.watched = c.watched) (hnext : a'.nextClientId = a.nextClientId)
    (hcounts : a'.watch.counts = a.watch.counts)
    (htracked : ∀ i p, Tracked a i p → Tracked a' i p) : (h.put id a' c').Watching := by
  obtain ⟨⟨hc, hnodup, hold⟩, hothers, hagrees⟩ := watching_put.mp hw
  refine watching_put.mpr ⟨⟨?_, ?_, ?_⟩, fun i hi => ⟨(hothers i hi).1, fun c'' hc'' => ?_⟩, ?_⟩
  · rw [hid, hnext]
    exact hc
  · rw [hwatched]
    exact hnodup
  · rw [hwatched]
    exact fun p hp => htracked id p (hold p hp)
  · obtain ⟨hids, htold⟩ := (hothers i hi).2 c'' hc''
    rw [hnext]
    exact ⟨hids, fun p hp => htracked i p (htold p hp)⟩
  · rw [hwatched]
    exact ⟨fun k => by rw [hcounts]; exact hagrees.counted k, fun k => by rw [hcounts]; exact hagrees.used k⟩

theorem Watching.same (hw : (h.put id a c).Watching) (hid : c'.id = c.id)
    (hwatched : c'.watched = c.watched) (hnext : a'.nextClientId = a.nextClientId)
    (hwatch : a'.watch = a.watch) (hhistory : a'.history = a.history) : (h.put id a' c').Watching :=
  hw.told hid hwatched hnext (by rw [hwatch]) fun _ _ ht => ht.same hwatch hhistory

/-- A client starts to watch a key. -/
theorem Watching.enter (hw : (h.put id a c).Watching) {key : Bytes}
    (hfresh : ∀ p ∈ c.watched, p.1 ≠ key) (hwatch : a'.watch = a.watch.entered key)
    (hhistory : a'.history = .watched id key :: a.history) (hnext : a'.nextClientId = a.nextClientId)
    (hid : c'.id = c.id) (hwatched : c'.watched = c.watched ++ [(key, (a.watch.version key).getD 0)]) :
    (h.put id a' c').Watching := by
  obtain ⟨⟨hc, hnodup, hold⟩, hothers, hagrees⟩ := watching_put.mp hw
  have hnew : key ∉ c.watched.map Prod.fst := fun hmem => by
    obtain ⟨p, hp, hkey⟩ := List.mem_map.mp hmem
    exact hfresh p hp hkey
  have hkeep : ∀ i p, (i = id → p.1 ≠ key) → Tracked a i p → Tracked a' i p := by
    intro i p hne ht
    refine ht.cons hhistory ?_ (fun heq => by cases heq) ?_
    · intro heq
      injection heq with hi hk
      exact hne hi.symm hk.symm
    · rw [hwatch, Watch.version_entered]
      split
      · rename_i hk
        rw [← hk, ht.version]
        rfl
      · show a.watch.version p.1 = (a.watch.version p.1).map (· + 0)
        cases a.watch.version p.1 <;> rfl
  refine watching_put.mpr ⟨⟨?_, ?_, ?_⟩, fun i hi => ⟨(hothers i hi).1, fun c'' hc'' => ?_⟩, ?_⟩
  · rw [hid, hnext]
    exact hc
  · rw [hwatched, List.map_append]
    refine List.Nodup.append hnodup (List.nodup_singleton _) ?_
    intro k hk hk'
    have hkey : k = key := List.mem_singleton.mp hk'
    exact hnew (hkey ▸ hk)
  · intro p hp
    rw [hwatched, List.mem_append, List.mem_singleton] at hp
    rcases hp with hp | rfl
    · exact hkeep id p (fun _ => hfresh p hp) (hold p hp)
    · have hnone : eventsSince id key a'.history = [] := by
        rw [hhistory]
        unfold eventsSince
        rw [List.takeWhile_cons_of_neg (by simp)]
      constructor
      · rw [hhistory]
        exact List.mem_cons_self
      · rw [hnone]
        exact List.not_mem_nil
      · rw [hnone, hwatch, Watch.version_entered, if_pos rfl]
        rfl
  · obtain ⟨hids, htold⟩ := (hothers i hi).2 c'' hc''
    rw [hnext]
    exact ⟨hids, fun p hp => hkeep i p (fun h => absurd h hi) (htold p hp)⟩
  · rw [hwatch]
    have hentered := hagrees.entered
      (by rwa [Function.update_self] :
        key ∉ Function.update h.watchedKeys id (c.watched.map Prod.fst) id)
      (fun k => by
        rw [Function.update_self, hwatched]
        simp [or_comm] : ∀ k, k ∈ c'.watched.map Prod.fst ↔ _)
    rwa [Function.update_idem] at hentered

/-- A client drops its list, and perhaps leaves. -/
theorem Watching.release (hw : (h.put id a c).Watching)
    (hwatch : a'.watch = a.watch.releasedAll c.watched)
    (hhistory : a'.history = .dropped id :: a.history) :
    a'.watch.Agrees (Function.update h.watchedKeys id []) ∧
      ∀ i c p, i ≠ id → h.clients i = some c → p ∈ c.watched → Tracked a' i p := by
  obtain ⟨⟨hc, hnodup, -⟩, hothers, hagrees⟩ := watching_put.mp hw
  obtain ⟨hreleased, hversions⟩ := hagrees.releasedAll id c.watched hnodup fun k => by
    rw [Function.update_self]
  rw [Function.update_idem] at hreleased
  refine ⟨hwatch ▸ hreleased, fun i c' p hi hc' hp => ?_⟩
  refine (((hothers i hi).2 c' hc').2 p hp).cons hhistory (fun heq => by cases heq) ?_ ?_
  · intro heq
    injection heq with heq
    exact hi heq.symm
  · have hversion : a'.watch.version p.1 = a.watch.version p.1 := by
      rw [hwatch]
      refine hversions p.1 ⟨i, hi, ?_⟩
      rw [Function.update_of_ne hi]
      exact mem_watchedKeys hc' hp
    rw [hversion]
    show a.watch.version p.1 = (a.watch.version p.1).map (· + 0)
    cases a.watch.version p.1 <;> rfl

theorem Watching.drop (hw : (h.put id a c).Watching)
    (hwatch : a'.watch = a.watch.releasedAll c.watched)
    (hhistory : a'.history = .dropped id :: a.history) (hnext : a'.nextClientId = a.nextClientId)
    (hid : c'.id = c.id) (hwatched : c'.watched = []) : (h.put id a' c').Watching := by
  obtain ⟨⟨hc, -, -⟩, hothers, -⟩ := watching_put.mp hw
  obtain ⟨hagrees, htracked⟩ := hw.release hwatch hhistory
  refine watching_put.mpr ⟨⟨?_, ?_, ?_⟩, fun i hi => ⟨(hothers i hi).1, fun c'' hc'' => ?_⟩, ?_⟩
  · rw [hid, hnext]
    exact hc
  · rw [hwatched]
    exact List.nodup_nil
  · rw [hwatched]
    exact fun _ hp => by cases hp
  · rw [hnext]
    exact ⟨((hothers i hi).2 c'' hc'').1, fun p hp => htracked i c'' p hi hc'' hp⟩
  · rw [hwatched]
    exact hagrees

theorem change_watching {s s' : Served} (hchange : Change s s')
    (hw : (h.put id s.app s.client).Watching) : (h.put id s'.app s'.client).Watching := by
  have hid : s.client.id = id := (watching_put.mp hw).1.1.1
  cases hchange with
  | aside ha => exact hw.same ha.id ha.watched ha.nextClientId ha.watch ha.history
  | signalled key =>
    refine hw.told rfl rfl rfl (Watch.counts_touch _ key) fun i p ht => ?_
    refine ht.cons rfl (fun heq => by cases heq) (fun heq => by cases heq) ?_
    show (s.app.watch.touch key).version p.1 = _
    rw [Watch.version_touch]
    by_cases hk : p.1 = key
    · simp [WatchEvent.signals, hk]
    · have hk' : ¬ key = p.1 := fun heq => hk heq.symm
      simp [WatchEvent.signals, hk, hk']
  | readied key => exact hw.same rfl rfl rfl rfl rfl
  | flushed =>
    refine hw.told rfl rfl rfl (Watch.counts_touchAll _) fun i p ht => ?_
    refine ht.cons rfl (fun heq => by cases heq) (fun heq => by cases heq) ?_
    exact Watch.version_touchAll ..
  | watched key hfresh => exact hw.enter hfresh rfl (by rw [hid]) rfl rfl rfl
  | dropped => exact hw.drop rfl (by rw [hid]) rfl rfl rfl
  | joined patterns name =>
    unfold PubSubs.subscribed
    split
    · split
      · exact hw
      · exact hw.same rfl rfl rfl rfl rfl
    · split
      · exact hw
      · exact hw.same rfl rfl rfl rfl rfl
  | parted patterns name =>
    unfold PubSubs.unsubscribed
    split
    · split
      · exact hw.same rfl rfl rfl rfl rfl
      · exact hw
    · split
      · exact hw.same rfl rfl rfl rfl rfl
      · exact hw
  | left => exact hw.same rfl rfl rfl rfl rfl
  | published channel payload => exact hw.same rfl rfl rfl rfl rfl

theorem changes_watching {s s' : Served} (hchanges : Changes s s')
    (hw : (h.put id s.app s.client).Watching) : (h.put id s'.app s'.client).Watching :=
  hchanges.keep (I := fun s => (h.put id s.app s.client).Watching) change_watching hw

/-- One step keeps the counts and the recorded versions true. -/
theorem step_watching {h' : Hub} (hstep : Step h h') (hw : h.Watching) : h'.Watching := by
  cases hstep with
  | served hc hs =>
    refine changes_watching hs ?_
    rw [put_self hc]
    exact hw
  | aside ha =>
    exact ⟨fun i c hc => ha.nextClientId ▸ hw.ids i c hc, hw.distinct, ha.watch ▸ hw.agrees,
      fun i c p hc hp => (hw.tracked i c p hc hp).same ha.watch ha.history⟩
  | settled hc hsame =>
    rw [← put_self hc] at hw
    exact hw.same hsame.id hsame.watched rfl rfl rfl
  | connected addr created =>
    have hfree : h.watchedKeys (h.app.nextClientId + 1) = [] := by
      unfold watchedKeys
      cases hc : h.clients (h.app.nextClientId + 1) with
      | none => rfl
      | some c =>
        have hle := (hw.ids _ c hc).2
        omega
    refine watching_put.mpr ⟨⟨⟨rfl, le_rfl⟩, List.nodup_nil, fun _ hp => by cases hp⟩, fun i _ => ?_, ?_⟩
    · refine ⟨hw.distinct i, fun c hc => ?_⟩
      obtain ⟨hid, hle⟩ := hw.ids i c hc
      exact ⟨⟨hid, Nat.le_succ_of_le hle⟩, fun p hp => (hw.tracked i c p hc hp).same rfl rfl⟩
    · show h.app.watch.Agrees (Function.update h.watchedKeys (h.app.nextClientId + 1) [])
      rw [← hfree, Function.update_eq_self]
      exact hw.agrees
  | @left id c hc =>
    have hid : c.id = id := (hw.ids id c hc).1
    have hput := hw
    rw [← put_self hc] at hput
    obtain ⟨hagrees, htracked⟩ := hput.release
      (rfl : App.watch { h.app with
        pubsub := h.app.pubsub.dropClient c.id
        blocked := h.app.blocked.filter fun waiter => waiter.id ≠ c.id
        watch := h.app.watch.releasedAll c.watched
        history := .dropped c.id :: h.app.history } = _) (by rw [hid])
    have hkeys : watchedKeys { h with clients := Function.update h.clients id none } =
        Function.update h.watchedKeys id [] := by
      funext i
      unfold watchedKeys
      by_cases hi : i = id
      · subst hi; simp
      · simp [hi]
    have hother : ∀ i c', Function.update h.clients id none i = some c' →
        i ≠ id ∧ h.clients i = some c' := by
      intro i c' hc'
      by_cases hi : i = id
      · rw [hi, Function.update_self] at hc'
        cases hc'
      · rw [Function.update_of_ne hi] at hc'
        exact ⟨hi, hc'⟩
    constructor
    · exact fun i c' hc' => hw.ids i c' (hother i c' hc').2
    · intro i
      show (watchedKeys { h with clients := Function.update h.clients id none } i).Nodup
      rw [hkeys]
      by_cases hi : i = id
      · rw [hi, Function.update_self]
        exact List.nodup_nil
      · rw [Function.update_of_ne hi]
        exact hw.distinct i
    · show Watch.Agrees _ (watchedKeys { h with clients := Function.update h.clients id none })
      rw [hkeys]
      exact hagrees
    · intro i c' p hc' hp
      obtain ⟨hi, hold⟩ := hother i c' hc'
      exact htracked i c' p hi hold hp

theorem start_watching (store : Store) (persist : Persist) (config : Config) (stats : Stats) :
    (start store persist config stats).Watching where
  ids _ _ hc := by cases hc
  distinct _ := List.nodup_nil
  agrees := Watch.agrees_empty
  tracked _ _ _ hc := by cases hc

/-- Every run from the start keeps them true. -/
theorem run_watching (store : Store) (persist : Persist) (config : Config) (stats : Stats)
    (events : List Event) (e : Env) (w : World) :
    Act.Sat (run events) e (start store persist config stats) w (fun _ h _ => h.Watching)
      (fun _ => True) :=
  Act.sat_mono (run_steps events e _ w) (fun _ _ _ hs => hs.keep step_watching
    (start_watching store persist config stats)) (fun _ h => h)

end Hub

/-! ## EXEC -/

open Served

/-- The count of watchers is not zero, so it can go down. -/
theorem Watch.unwatch_done {key : Bytes} {r : Watch} (hused : r.counts key ≠ some 0) (e : Env)
    (w : World) : Watch.unwatch key e r w = .done () (r.released key) w := by
  unfold Watch.unwatch Watch.released
  unfold Watch.counts at hused
  rw [Act.bind_apply]
  dsimp only [Act.get]
  cases hentry : r.keys.lookup key with
  | none => rfl
  | some entry =>
    obtain ⟨version, watchers⟩ := entry
    rw [hentry] at hused
    cases watchers with
    | zero => exact absurd rfl hused
    | succ n =>
      cases n with
      | zero => rfl
      | succ n => rfl

/-- A client leaves its keys without a panic, and the registry counts one watcher less for each. -/
theorem App.unwatchAll_done {held : Nat → List Bytes} {c : Client} {a : App} {id : Nat}
    (hagrees : a.watch.Agrees held) (hnodup : (c.watched.map Prod.fst).Nodup)
    (hheld : ∀ k, k ∈ held id ↔ k ∈ c.watched.map Prod.fst) (e : Env) (w : World) :
    App.unwatchAll c e a w = .done { c with watched := [] } { a with
      watch := a.watch.releasedAll c.watched, history := .dropped c.id :: a.history } w := by
  have hloop : ∀ (watched : List (Bytes × Nat)) (held : Nat → List Bytes) (a : App),
      a.watch.Agrees held → (watched.map Prod.fst).Nodup →
      (∀ k, k ∈ held id ↔ k ∈ watched.map Prod.fst) →
      Act.forList (fun p => App.onWatch (Watch.unwatch p.1)) watched e a w =
        .done () { a with watch := a.watch.releasedAll watched } w := by
    intro watched
    induction watched with
    | nil => exact fun _ _ _ _ _ => rfl
    | cons p watched ih =>
      intro held a hagrees hnodup hheld
      rw [List.map_cons, List.nodup_cons] at hnodup
      have hrest : ∀ k, k ∈ watched.map Prod.fst ↔ k ≠ p.1 ∧ k ∈ held id := by
        intro k
        rw [hheld, List.map_cons, List.mem_cons]
        constructor
        · intro hk
          exact ⟨fun heq => hnodup.1 (heq ▸ hk), .inr hk⟩
        · rintro ⟨hne, heq | hk⟩
          · exact absurd heq hne
          · exact hk
      have hold : p.1 ∈ held id := (hheld p.1).mpr List.mem_cons_self
      have hstep := ih _ { a with watch := a.watch.released p.1 } (hagrees.released hold hrest) hnodup.2
        (fun k => by rw [Function.update_self])
      unfold Act.forList
      rw [Act.bind_apply]
      unfold App.onWatch Act.zoom
      rw [Watch.unwatch_done (hagrees.used p.1)]
      exact hstep
  unfold App.unwatchAll
  rw [Act.bind_apply, hloop c.watched held a hagrees hnodup hheld]
  rfl

/-- A client and the server once EXEC has taken the transaction and dropped the watch list. -/
def Served.abandoned (s : Served) : Served where
  app := { s.app with
    watch := s.app.watch.releasedAll s.client.watched
    history := .dropped s.client.id :: s.app.history }
  client := { s.client with transaction := none, watched := [] }

/-- A watched key was signalled after the WATCH that put it on the client's list. -/
def Served.Broken (s : Served) : Prop :=
  ∃ p ∈ s.client.watched, SignalledSince s.client.id p.1 s.app.history

/-- EXEC past its checks: the whole queue, in order. -/
def runQueue (queued : List (List Bytes)) : Run Served Response := do
  onApp (Act.modify fun a =>
    { a with stats := { a.stats with transactions := a.stats.transactions + 1 } })
  onClient (Act.modify fun c => { c with inExec := true })
  let responses ← Act.mapList runQueuedOne queued
  onClient (Act.modify fun c => { c with inExec := false })
  pure (Transactions.collected responses)

namespace Hub

variable {h : Hub} {id : Nat} {c : Client} {a : App}

theorem Watching.unwatchAll_done (hw : (h.put id a c).Watching) (e : Env) (w : World) :
    App.unwatchAll c e a w = .done { c with watched := [] } { a with
      watch := a.watch.releasedAll c.watched, history := .dropped c.id :: a.history } w := by
  obtain ⟨⟨-, hnodup, -⟩, -, hagrees⟩ := watching_put.mp hw
  exact App.unwatchAll_done hagrees hnodup
    (fun k => by rw [Function.update_self] :
      ∀ k, k ∈ Function.update h.watchedKeys id (c.watched.map Prod.fst) id ↔ _) e w

/-- The recorded versions tell whether a watched key was signalled. -/
theorem Watching.watchBroken_iff (hw : (h.put id a c).Watching) :
    Transactions.watchBroken ⟨a, c⟩ = true ↔ Served.Broken ⟨a, c⟩ := by
  obtain ⟨⟨hid, -, htracked⟩, -, -⟩ := watching_put.mp hw
  unfold Transactions.watchBroken Served.Broken
  rw [List.any_eq_true]
  refine exists_congr fun p => and_congr_right fun hp => ?_
  rw [decide_eq_true_eq]
  show a.watch.version p.1 ≠ some p.2 ↔ SignalledSince c.id p.1 a.history
  rw [hid.1]
  exact (htracked p hp).stale_iff

/-- EXEC of a transaction that has not failed. -/
theorem Watching.exec_runs (hw : (h.put id a c).Watching) {t : Transaction}
    (ht : c.transaction = some t) (hfailed : t.failed = false) (e : Env) (w : World) :
    (Served.Broken ⟨a, c⟩ → exec e ⟨a, c⟩ w = .done (.new .nilArray) (Served.abandoned ⟨a, c⟩) w) ∧
      (¬ Served.Broken ⟨a, c⟩ →
        exec e ⟨a, c⟩ w = runQueue t.queued e (Served.abandoned ⟨a, c⟩) w) := by
  have hunwatched : Transactions.unwatchAll e ⟨a, { c with transaction := none }⟩ w =
      .done () (Served.abandoned ⟨a, c⟩) w := by
    have hdone : App.unwatchAll { c with transaction := none } e a w =
        .done { c with transaction := none, watched := [] } { a with
          watch := a.watch.releasedAll c.watched, history := .dropped c.id :: a.history } w :=
      (hw.same rfl rfl rfl rfl rfl :
        (h.put id a { c with transaction := none }).Watching).unwatchAll_done e w
    unfold Transactions.unwatchAll
    rw [Act.bind_apply]
    dsimp only [Act.get]
    rw [Act.bind_apply]
    unfold Served.onApp Act.zoom
    rw [hdone]
    rfl
  have hexec : exec e ⟨a, c⟩ w = (if Transactions.watchBroken ⟨a, c⟩ then
      (pure (.new .nilArray) : Run Served Response) else runQueue t.queued)
        e (Served.abandoned ⟨a, c⟩) w := by
    unfold exec Transactions.exec
    rw [Act.bind_apply]
    dsimp only [Act.get]
    rw [ht]
    dsimp only
    rw [Act.bind_apply]
    dsimp only [Served.onClient, Act.zoom, Act.modify]
    rw [Act.bind_apply, hunwatched]
    dsimp only
    rw [hfailed, if_neg Bool.false_ne_true]
    rfl
  rw [hexec]
  constructor
  · intro hbroken
    rw [if_pos (hw.watchBroken_iff.mpr hbroken)]
    rfl
  · intro hkept
    rw [if_neg fun hbroken => hkept (hw.watchBroken_iff.mp hbroken)]

/-- **WATCH and EXEC are exact.**  After every run the registry counts the clients that watch each
key and has no entry for the others, so no client leaves its keys with a panic; and EXEC of a
transaction that has not failed, in the state its memory gate leaves, answers the null array without
running anything exactly when a key on the client's list was signalled after the WATCH that put it
there, and runs the whole queue otherwise. -/
theorem exec_exact (store : Store) (persist : Persist) (config : Config) (stats : Stats)
    (events : List Event) (e : Env) (w : World) :
    Act.Sat (run events) e (start store persist config stats) w (fun _ h w' =>
      h.app.watch.Agrees h.watchedKeys ∧ ∀ id c, h.clients id = some c →
        (∃ a, App.unwatchAll c e h.app w' = .done { c with watched := [] } a w') ∧
        ∀ t, c.transaction = some t → t.failed = false →
          Act.Sat (memoryGate "EXEC") e (Served.counted ⟨h.app, c⟩).app w' (fun refusal a w₁ =>
            refusal = none ∧
            (Served.Broken ⟨a, c⟩ →
              exec e ⟨a, c⟩ w₁ = .done (.new .nilArray) (Served.abandoned ⟨a, c⟩) w₁) ∧
            (¬ Served.Broken ⟨a, c⟩ →
              exec e ⟨a, c⟩ w₁ = runQueue t.queued e (Served.abandoned ⟨a, c⟩) w₁))
            (fun _ => True)) (fun _ => True) := by
  refine Act.sat_mono (run_watching store persist config stats events e w) ?_ (fun _ h => h)
  intro _ h w' hw
  refine ⟨hw.agrees, fun id c hc => ⟨?_, fun t ht hfailed => ?_⟩⟩
  · rw [← put_self hc] at hw
    exact ⟨_, hw.unwatchAll_done e w'⟩
  · have hcounted : Changes ⟨h.app, c⟩ (Served.counted ⟨h.app, c⟩) := by
      apply Change.changes
      exact .aside ⟨rfl, rfl, rfl, rfl, rfl, rfl, rfl, rfl, rfl, rfl, rfl, rfl, rfl⟩
    have hgate := memoryGate_none (e := e) (w := w')
      (a := (Served.counted ⟨h.app, c⟩).app) (by decide : deniesOom "EXEC" = false)
    refine Act.sat_mono (Act.sat_and hgate (memoryGate_changes e _ w')) ?_
      (fun _ _ => trivial)
    rintro refusal a w₁ ⟨⟨hnone, -⟩, hchanges⟩
    refine ⟨hnone, ?_⟩
    have hreached : Changes ⟨h.app, c⟩ ⟨a, c⟩ := trans_of Changes hcounted (hchanges c)
    rw [← put_self hc] at hw
    exact (changes_watching hreached hw).exec_runs ht hfailed e w₁

end Hub

end Klyro
