import Klyro.Hub

/-!
# Subscriptions and deliveries

* `Table.Agrees` — a table of subscribers against the names each client holds.
* `Registered` — both tables agree with the connected clients; `run_registered` says that every run
  keeps it.
* `publish_exact` — a publication makes the frames the clients' own sets ask for, and counts them.
-/

set_option autoImplicit false

namespace Klyro

/-! ## Ordered sets -/

section ordered

variable {α : Type} {cmp : α → α → Ordering}

/-- A new element joins the others. -/
theorem treeInsert_perm (hcmp : ∀ a b, cmp a b = .eq → a = b) {a : α} {bs : List α} (ha : a ∉ bs) :
    (treeInsert cmp a bs).Perm (a :: bs) := by
  induction bs with
  | nil => exact .refl _
  | cons b bs ih =>
    rw [List.mem_cons, not_or] at ha
    unfold treeInsert
    split
    · exact .refl _
    · rename_i heq
      exact absurd (hcmp a b heq) ha.1
    · exact ((ih ha.2).cons b).trans (.swap a b bs)

theorem mem_treeRemove [DecidableEq α] {a b : α} {bs : List α} :
    b ∈ treeRemove a bs ↔ b ≠ a ∧ b ∈ bs := by
  unfold treeRemove
  rw [List.mem_filter, decide_eq_true_eq, and_comm]

end ordered

/-! ## Tables -/

namespace Table

variable {table : Table} {held : Nat → List Bytes} {name : Bytes} {id : Nat}

/-- The subscribers under a name. -/
def under (table : Table) (name : Bytes) : List Nat := (table.lookup name).getD []

theorem lookup_add (n : Bytes) : (table.add name id).lookup n =
    if n = name then some (treeInsert compare id (table.under name)) else table.lookup n :=
  Assoc.lookup_insert_eq ..

theorem lookup_remove (n : Bytes) : (table.remove name id).lookup n =
    if n = name then (if treeRemove id (table.under name) = [] then none
      else some (treeRemove id (table.under name)))
    else table.lookup n := by
  unfold Table.remove under
  cases hentry : table.lookup name with
  | none =>
    by_cases hn : n = name
    · subst hn
      simp [hentry, treeRemove]
    · simp [hn]
  | some subscribers =>
    by_cases hempty : treeRemove id subscribers = []
    · simp [hempty, Assoc.lookup_erase_eq]
    · simp [hempty, Assoc.lookup_insert_eq]

/-- **A table agrees with the names each client holds.** -/
structure Agrees (table : Table) (held : Nat → List Bytes) : Prop where
  mem : ∀ name id, id ∈ table.under name ↔ name ∈ held id
  nonempty : ∀ name, table.lookup name ≠ some []
  nodup : ∀ name, (table.under name).Nodup
  distinct : ∀ id, (held id).Nodup

theorem agrees_empty : Agrees ∅ fun _ => [] where
  mem _ _ := by simp [under]
  nonempty _ := by simp
  nodup _ := by simp [under]
  distinct _ := List.nodup_nil

/-- A client that holds nothing new. -/
theorem Agrees.same (h : table.Agrees held) : table.Agrees (Function.update held id (held id)) := by
  rwa [Function.update_eq_self]

theorem Agrees.add (h : table.Agrees held) (hnew : name ∉ held id) :
    (table.add name id).Agrees (Function.update held id (treeInsert cmpBytes name (held id))) := by
  have hfresh : id ∉ table.under name := fun hid => hnew ((h.mem name id).mp hid)
  have hids := treeInsert_perm (fun _ _ h => Nat.compare_eq_eq.mp h) hfresh
  have hnames := treeInsert_perm cmpBytes_eq hnew
  have hunder : ∀ n, (table.add name id).under n =
      if n = name then treeInsert compare id (table.under name) else table.under n := by
    intro n
    unfold under
    rw [lookup_add]
    split <;> rfl
  constructor
  · intro n i
    rw [hunder]
    by_cases hi : i = id
    · subst hi
      rw [Function.update_self, hnames.mem_iff, List.mem_cons]
      split
      · rename_i hn
        simp [hids.mem_iff, hn]
      · rename_i hn
        simp [hn, h.mem]
    · rw [Function.update_of_ne hi, ← h.mem]
      split
      · rename_i hn
        rw [hids.mem_iff, List.mem_cons, hn]
        simp [hi]
      · rfl
  · intro n
    rw [lookup_add]
    split
    · intro hnil
      have hlen := hids.length_eq
      rw [Option.some.inj hnil] at hlen
      cases hlen
    · exact h.nonempty n
  · intro n
    rw [hunder]
    split
    · exact hids.nodup_iff.mpr (List.nodup_cons.mpr ⟨hfresh, h.nodup name⟩)
    · exact h.nodup n
  · intro i
    by_cases hi : i = id
    · rw [hi, Function.update_self]
      exact hnames.nodup_iff.mpr (List.nodup_cons.mpr ⟨hnew, h.distinct id⟩)
    · rw [Function.update_of_ne hi]
      exact h.distinct i

theorem Agrees.remove (h : table.Agrees held) (name : Bytes) (id : Nat) :
    (table.remove name id).Agrees (Function.update held id (treeRemove name (held id))) := by
  have hunder : ∀ n, (table.remove name id).under n =
      if n = name then treeRemove id (table.under name) else table.under n := by
    intro n
    unfold under
    rw [lookup_remove]
    split
    · split
      · rename_i hempty
        exact hempty.symm
      · rfl
    · rfl
  constructor
  · intro n i
    rw [hunder]
    by_cases hi : i = id
    · subst hi
      rw [Function.update_self, mem_treeRemove]
      split
      · rename_i hn
        simp [mem_treeRemove, hn]
      · rename_i hn
        simp [hn, h.mem]
    · rw [Function.update_of_ne hi, ← h.mem]
      split
      · rename_i hn
        rw [mem_treeRemove, hn]
        simp [hi]
      · rfl
  · intro n
    rw [lookup_remove]
    split
    · split
      · simp
      · simpa
    · exact h.nonempty n
  · intro n
    rw [hunder]
    split
    · exact (h.nodup name).filter _
    · exact h.nodup n
  · intro i
    by_cases hi : i = id
    · rw [hi, Function.update_self]
      exact (h.distinct id).filter _
    · rw [Function.update_of_ne hi]
      exact h.distinct i

theorem Agrees.removeAll (id : Nat) (names : List Bytes) :
    ∀ {table : Table} {held : Nat → List Bytes}, table.Agrees held →
      (names.foldl (fun t name => t.remove name id) table).Agrees
        (Function.update held id ((held id).filter (· ∉ names))) := by
  induction names with
  | nil =>
    intro table held h
    have hall : (held id).filter (· ∉ ([] : List Bytes)) = held id := by simp
    rw [hall]
    exact h.same
  | cons name names ih =>
    intro table held h
    have hstep := ih (h.remove name id)
    have hnames : ((held id).filter fun n => n ∉ name :: names) =
        (treeRemove name (held id)).filter (· ∉ names) := by
      unfold treeRemove
      rw [List.filter_filter]
      refine List.filter_congr fun n _ => ?_
      simp [Bool.and_comm]
    rw [Function.update_self, Function.update_idem] at hstep
    rw [hnames]
    exact hstep

/-- A client that gives up everything it holds, and perhaps more. -/
theorem Agrees.removeHeld (h : table.Agrees held) {names : List Bytes}
    (hall : ∀ n ∈ held id, n ∈ names) :
    (names.foldl (fun t name => t.remove name id) table).Agrees (Function.update held id []) := by
  have hnone : (held id).filter (· ∉ names) = [] := by
    rw [List.filter_eq_nil_iff]
    intro n hn
    simpa using hall n hn
  rw [← hnone]
  exact h.removeAll id names

theorem Agrees.dropClient (h : table.Agrees held) (id : Nat) :
    (table.dropClient id).Agrees (Function.update held id []) := by
  refine h.removeHeld fun n hn => ?_
  have hid : id ∈ table.under n := (h.mem n id).mpr hn
  unfold under at hid
  cases hentry : table.lookup n with
  | none =>
    rw [hentry] at hid
    cases hid
  | some _ => exact AList.mem_keys.mp (AList.lookup_isSome.mp (by rw [hentry]; rfl))

end Table

/-! ## The registry and the clients -/

namespace Hub

/-- The channels a client id holds. -/
def channels (h : Hub) (id : Nat) : List Bytes := (h.clients id).elim [] Client.channels

/-- The patterns a client id holds. -/
def patterns (h : Hub) (id : Nat) : List Bytes := (h.clients id).elim [] Client.patterns

/-- **The registry agrees with the connected clients.** -/
structure Registered (h : Hub) : Prop where
  ids : ∀ id c, h.clients id = some c → c.id = id ∧ id ≤ h.app.nextClientId
  channels : h.app.pubsub.channels.Agrees h.channels
  patterns : h.app.pubsub.patterns.Agrees h.patterns

variable {h : Hub} {id : Nat} {a a' : App} {c c' : Client}

theorem channels_put : (h.put id a c).channels = Function.update h.channels id c.channels := by
  funext i
  unfold channels put
  by_cases hi : i = id
  · subst hi; simp
  · simp [hi]

theorem patterns_put : (h.put id a c).patterns = Function.update h.patterns id c.patterns := by
  funext i
  unfold patterns put
  by_cases hi : i = id
  · subst hi; simp
  · simp [hi]

theorem registered_put : (h.put id a c).Registered ↔
    (c.id = id ∧ id ≤ a.nextClientId) ∧
      (∀ i c, i ≠ id → h.clients i = some c → c.id = i ∧ i ≤ a.nextClientId) ∧
      a.pubsub.channels.Agrees (Function.update h.channels id c.channels) ∧
      a.pubsub.patterns.Agrees (Function.update h.patterns id c.patterns) := by
  constructor
  · intro hr
    refine ⟨hr.ids id c (clients_put ..), fun i c' hi hc' => ?_, ?_, ?_⟩
    · refine hr.ids i c' ?_
      rwa [clients_put_of_ne hi]
    · rw [← channels_put (a := a)]
      exact hr.channels
    · rw [← patterns_put (a := a)]
      exact hr.patterns
  · rintro ⟨hid, hothers, hchannels, hpatterns⟩
    constructor
    · intro i c' hc'
      by_cases hi : i = id
      · subst hi
        rw [clients_put] at hc'
        cases hc'
        exact hid
      · rw [clients_put_of_ne hi] at hc'
        exact hothers i c' hi hc'
    · rw [channels_put]
      exact hchannels
    · rw [patterns_put]
      exact hpatterns

/-- Nothing the registry knows has changed. -/
theorem Registered.same (hr : (h.put id a c).Registered) (hpubsub : a'.pubsub = a.pubsub)
    (hnext : a'.nextClientId = a.nextClientId) (hid : c'.id = c.id)
    (hchannels : c'.channels = c.channels) (hpatterns : c'.patterns = c.patterns) :
    (h.put id a' c').Registered := by
  rw [registered_put] at hr ⊢
  rw [hpubsub, hnext, hid, hchannels, hpatterns]
  exact hr

theorem subscribed_registered (patterns : Bool) (name : Bytes) {s : Served}
    (hr : (h.put id s.app s.client).Registered) :
    (h.put id (PubSubs.subscribed patterns name s).app
      (PubSubs.subscribed patterns name s).client).Registered := by
  obtain ⟨hid, hothers, hchannels, hpatterns⟩ := registered_put.mp hr
  unfold PubSubs.subscribed
  split
  · split
    · exact hr
    · rename_i hnew
      refine registered_put.mpr ⟨hid, hothers, hchannels, ?_⟩
      have hadd := hpatterns.add
        (by rwa [Function.update_self] : name ∉ Function.update h.patterns id s.client.patterns id)
      rw [Function.update_self, Function.update_idem, ← hid.1] at hadd
      rw [← hid.1]
      exact hadd
  · split
    · exact hr
    · rename_i hnew
      refine registered_put.mpr ⟨hid, hothers, ?_, hpatterns⟩
      have hadd := hchannels.add
        (by rwa [Function.update_self] : name ∉ Function.update h.channels id s.client.channels id)
      rw [Function.update_self, Function.update_idem, ← hid.1] at hadd
      rw [← hid.1]
      exact hadd

theorem unsubscribed_registered (patterns : Bool) (name : Bytes) {s : Served}
    (hr : (h.put id s.app s.client).Registered) :
    (h.put id (PubSubs.unsubscribed patterns name s).app
      (PubSubs.unsubscribed patterns name s).client).Registered := by
  obtain ⟨hid, hothers, hchannels, hpatterns⟩ := registered_put.mp hr
  unfold PubSubs.unsubscribed
  split
  · split
    · refine registered_put.mpr ⟨hid, hothers, hchannels, ?_⟩
      have hremove := hpatterns.remove name id
      rw [Function.update_self, Function.update_idem, ← hid.1] at hremove
      rw [← hid.1]
      exact hremove
    · exact hr
  · split
    · refine registered_put.mpr ⟨hid, hothers, ?_, hpatterns⟩
      have hremove := hchannels.remove name id
      rw [Function.update_self, Function.update_idem, ← hid.1] at hremove
      rw [← hid.1]
      exact hremove
    · exact hr

/-- The channels' table of a registry a client leaves, channel by channel. -/
theorem foldl_unsubscribe (names : List Bytes) (id : Nat) (p : PubSub) :
    names.foldl (fun p name => p.unsubscribe name id) p =
      { p with channels := names.foldl (fun t name => t.remove name id) p.channels } := by
  induction names generalizing p with
  | nil => rfl
  | cons name names ih => rw [List.foldl_cons, ih]; rfl

theorem foldl_punsubscribe (names : List Bytes) (id : Nat) (p : PubSub) :
    names.foldl (fun p name => p.punsubscribe name id) p =
      { p with patterns := names.foldl (fun t name => t.remove name id) p.patterns } := by
  induction names generalizing p with
  | nil => rfl
  | cons name names ih => rw [List.foldl_cons, ih]; rfl

theorem change_registered {s s' : Served} (hchange : Change s s')
    (hr : (h.put id s.app s.client).Registered) : (h.put id s'.app s'.client).Registered := by
  cases hchange with
  | aside ha => exact hr.same ha.pubsub ha.nextClientId ha.id ha.channels ha.patterns
  | signalled key => exact hr.same rfl rfl rfl rfl rfl
  | readied key => exact hr.same rfl rfl rfl rfl rfl
  | flushed => exact hr.same rfl rfl rfl rfl rfl
  | watched key hfresh => exact hr.same rfl rfl rfl rfl rfl
  | dropped => exact hr.same rfl rfl rfl rfl rfl
  | joined patterns name => exact subscribed_registered patterns name hr
  | parted patterns name => exact unsubscribed_registered patterns name hr
  | left =>
    obtain ⟨hid, hothers, hchannels, hpatterns⟩ := registered_put.mp hr
    refine registered_put.mpr ⟨hid, hothers, ?_, ?_⟩
    · have hremove := hchannels.removeHeld
        (by rw [Function.update_self]; exact fun _ hn => hn :
          ∀ n ∈ Function.update _ id _ id, n ∈ s.client.channels)
      rw [Function.update_idem, ← hid.1] at hremove
      rw [foldl_punsubscribe, foldl_unsubscribe, ← hid.1]
      exact hremove
    · have hremove := hpatterns.removeHeld
        (by rw [Function.update_self]; exact fun _ hn => hn :
          ∀ n ∈ Function.update _ id _ id, n ∈ s.client.patterns)
      rw [Function.update_idem, ← hid.1] at hremove
      rw [foldl_punsubscribe, foldl_unsubscribe, ← hid.1]
      exact hremove
  | published channel payload => exact hr.same rfl rfl rfl rfl rfl

theorem changes_registered {s s' : Served} (hchanges : Changes s s')
    (hr : (h.put id s.app s.client).Registered) : (h.put id s'.app s'.client).Registered :=
  hchanges.keep (I := fun s => (h.put id s.app s.client).Registered) change_registered hr

/-- One step keeps the registry in agreement. -/
theorem step_registered {h' : Hub} (hstep : Step h h') (hr : h.Registered) : h'.Registered := by
  cases hstep with
  | served hc hs =>
    refine changes_registered hs ?_
    rw [put_self hc]
    exact hr
  | aside ha =>
    exact ⟨fun i c hc => ha.nextClientId ▸ hr.ids i c hc, ha.pubsub ▸ hr.channels,
      ha.pubsub ▸ hr.patterns⟩
  | settled hc hsame =>
    rw [← put_self hc] at hr
    exact hr.same rfl rfl hsame.id hsame.channels hsame.patterns
  | connected addr created =>
    have hfree : h.clients (h.app.nextClientId + 1) = none := by
      cases hc : h.clients (h.app.nextClientId + 1) with
      | none => rfl
      | some c =>
        have hle := (hr.ids _ c hc).2
        omega
    refine registered_put.mpr ⟨⟨rfl, le_rfl⟩, fun i c _ hc => ?_, ?_, ?_⟩
    · obtain ⟨hid, hle⟩ := hr.ids i c hc
      exact ⟨hid, Nat.le_succ_of_le hle⟩
    · have hnone : h.channels (h.app.nextClientId + 1) = [] := by
        unfold channels
        rw [hfree]
        rfl
      show h.app.pubsub.channels.Agrees (Function.update h.channels (h.app.nextClientId + 1) [])
      rw [← hnone]
      exact hr.channels.same
    · have hnone : h.patterns (h.app.nextClientId + 1) = [] := by
        unfold patterns
        rw [hfree]
        rfl
      show h.app.pubsub.patterns.Agrees (Function.update h.patterns (h.app.nextClientId + 1) [])
      rw [← hnone]
      exact hr.patterns.same
  | @left id c hc =>
    obtain ⟨hid, -⟩ := hr.ids id c hc
    constructor
    · intro i c' hc'
      change Function.update h.clients id none i = some c' at hc'
      by_cases hi : i = id
      · rw [hi, Function.update_self] at hc'
        cases hc'
      · rw [Function.update_of_ne hi] at hc'
        exact hr.ids i c' hc'
    · have hheld : channels { h with clients := Function.update h.clients id none } =
          Function.update h.channels id [] := by
        funext i
        unfold channels
        by_cases hi : i = id
        · subst hi; simp
        · simp [hi]
      show (h.app.pubsub.channels.dropClient c.id).Agrees
        (channels { h with clients := Function.update h.clients id none })
      rw [hheld, hid]
      exact hr.channels.dropClient id
    · have hheld : patterns { h with clients := Function.update h.clients id none } =
          Function.update h.patterns id [] := by
        funext i
        unfold patterns
        by_cases hi : i = id
        · subst hi; simp
        · simp [hi]
      show (h.app.pubsub.patterns.dropClient c.id).Agrees
        (patterns { h with clients := Function.update h.clients id none })
      rw [hheld, hid]
      exact hr.patterns.dropClient id

theorem start_registered (store : Store) (persist : Persist) (config : Config) (stats : Stats) :
    (start store persist config stats).Registered where
  ids _ _ hc := by cases hc
  channels := Table.agrees_empty
  patterns := Table.agrees_empty

/-- Every run from the start keeps the registry in agreement. -/
theorem run_registered (store : Store) (persist : Persist) (config : Config) (stats : Stats)
    (events : List Event) (e : Env) (w : World) :
    Act.Sat (run events) e (start store persist config stats) w (fun _ h _ => h.Registered)
      (fun _ => True) :=
  Act.sat_mono (run_steps events e _ w) (fun _ _ _ hs => hs.keep step_registered
    (start_registered store persist config stats)) (fun _ h => h)

/-! ## Publishing -/

/-- The frames a client is owed of a publication: one for the channel, one for each pattern. -/
def owedTo (c : Client) (channel payload : Bytes) : List Reply :=
  (if channel ∈ c.channels then [PubSub.messageFrame channel payload] else []) ++
    (c.patterns.filter fun pattern => globMatch pattern channel).map fun pattern =>
      PubSub.pmessageFrame pattern channel payload

/-- The frames all the clients are owed, each with the client's id. -/
def owed (h : Hub) (channel payload : Bytes) : List (Nat × Reply) :=
  (List.range (h.app.nextClientId + 1)).flatMap fun id =>
    ((h.clients id).elim [] fun c => owedTo c channel payload).map fun frame => (id, frame)

/-- What a publication by `c` delivers: what is owed, the publisher's own frames in its response and
the others in the outbox, and their number at the end of the response. -/
def Delivered (h : Hub) (c : Client) (channel payload : Bytes) (response : Response)
    (outbox : List (Nat × Reply)) : Prop :=
  ∃ (own : List Reply) (others : List (Nat × Reply)),
    response = .frames (own ++ [.integer (h.owed channel payload).length]) ∧
      outbox = h.app.outbox ++ others ∧ (∀ p ∈ others, p.1 ≠ c.id) ∧
      (own.map (fun frame => (c.id, frame)) ++ others).Perm (h.owed channel payload)

section publish

variable {channel payload : Bytes}

theorem messageFrame_ne (pattern : Bytes) :
    PubSub.messageFrame channel payload ≠ PubSub.pmessageFrame pattern channel payload := by
  intro h
  have hitems := congrArg List.length (Reply.push.inj h)
  cases hitems

theorem pmessageFrame_inj {p q : Bytes}
    (h : PubSub.pmessageFrame p channel payload = PubSub.pmessageFrame q channel payload) : p = q := by
  have hitems := (List.cons.inj (Reply.push.inj h)).2
  exact Reply.bulk.inj (List.cons.inj hitems).1

theorem owedTo_nodup {c : Client} (hc : c.patterns.Nodup) : (owedTo c channel payload).Nodup := by
  refine List.Nodup.append ?_ ((hc.filter _).map fun _ _ => pmessageFrame_inj) ?_
  · split
    · exact List.nodup_singleton _
    · exact List.nodup_nil
  · intro frame hmessage hpmessage
    obtain ⟨pattern, -, rfl⟩ := List.mem_map.mp hpmessage
    split at hmessage
    · exact messageFrame_ne pattern (List.mem_singleton.mp hmessage).symm
    · cases hmessage

theorem owed_nodup (hr : h.Registered) : (h.owed channel payload).Nodup := by
  refine List.nodup_flatMap.mpr ⟨fun id _ => ?_, ?_⟩
  · refine List.Nodup.map (fun _ _ h => (Prod.mk.inj h).2) ?_
    cases hc : h.clients id with
    | none => exact List.nodup_nil
    | some c =>
      have hpatterns := hr.patterns.distinct id
      unfold patterns at hpatterns
      rw [hc] at hpatterns
      exact owedTo_nodup hpatterns
  · refine List.nodup_range.imp fun {i j} hij => ?_
    intro p hi hj
    obtain ⟨_, -, rfl⟩ := List.mem_map.mp hi
    obtain ⟨_, -, hp⟩ := List.mem_map.mp hj
    exact hij (Prod.mk.inj hp).1.symm

theorem mem_owed (hr : h.Registered) {id : Nat} {frame : Reply} :
    (id, frame) ∈ h.owed channel payload ↔
      (channel ∈ h.channels id ∧ frame = PubSub.messageFrame channel payload) ∨
        ∃ pattern ∈ h.patterns id, globMatch pattern channel = true ∧
          frame = PubSub.pmessageFrame pattern channel payload := by
  have hrange : ∀ c, h.clients id = some c → id < h.app.nextClientId + 1 := fun c hc =>
    Nat.lt_succ_of_le (hr.ids id c hc).2
  unfold owed channels patterns
  rw [List.mem_flatMap]
  cases hc : h.clients id with
  | none =>
    constructor
    · rintro ⟨i, -, hi⟩
      obtain ⟨_, hframe, hp⟩ := List.mem_map.mp hi
      rw [(Prod.mk.inj hp).1, hc] at hframe
      cases hframe
    · simp
  | some c =>
    have hto : frame ∈ owedTo c channel payload ↔
        (channel ∈ c.channels ∧ frame = PubSub.messageFrame channel payload) ∨
          ∃ pattern ∈ c.patterns, globMatch pattern channel = true ∧
            frame = PubSub.pmessageFrame pattern channel payload := by
      unfold owedTo
      rw [List.mem_append]
      refine or_congr ?_ ?_
      · split <;> simp [*]
      · rw [List.mem_map]
        constructor
        · rintro ⟨pattern, hp, rfl⟩
          obtain ⟨hheld, hglob⟩ := List.mem_filter.mp hp
          exact ⟨pattern, hheld, hglob, rfl⟩
        · rintro ⟨pattern, hheld, hglob, rfl⟩
          exact ⟨pattern, List.mem_filter.mpr ⟨hheld, hglob⟩, rfl⟩
    show _ ↔ (channel ∈ c.channels ∧ _) ∨ ∃ pattern ∈ c.patterns, _
    rw [← hto]
    constructor
    · rintro ⟨i, -, hi⟩
      obtain ⟨_, hframe, hp⟩ := List.mem_map.mp hi
      obtain ⟨rfl, rfl⟩ := Prod.mk.inj hp
      rw [hc] at hframe
      exact hframe
    · intro hframe
      refine ⟨id, List.mem_range.mpr (hrange c hc), List.mem_map.mpr ⟨frame, ?_, rfl⟩⟩
      rw [hc]
      exact hframe

/-- The deliveries of a publication, addressed. -/
def addressed (deliveries : List Delivery) : List (Nat × Reply) :=
  deliveries.map fun d => (d.id, d.frame)

theorem addressed_publish (p : PubSub) : addressed (p.publish channel payload) =
    ((p.channels.under channel).map fun id => (id, PubSub.messageFrame channel payload)) ++
      (p.patterns.pairs.filter fun q => globMatch q.1 channel).flatMap fun q =>
        q.2.map fun id => (id, PubSub.pmessageFrame q.1 channel payload) := by
  unfold addressed PubSub.publish
  simp [List.map_append, List.map_flatMap, Table.under, Function.comp_def]

theorem mem_addressed (hr : h.Registered) {id : Nat} {frame : Reply} :
    (id, frame) ∈ addressed (h.app.pubsub.publish channel payload) ↔
      (channel ∈ h.channels id ∧ frame = PubSub.messageFrame channel payload) ∨
        ∃ pattern ∈ h.patterns id, globMatch pattern channel = true ∧
          frame = PubSub.pmessageFrame pattern channel payload := by
  rw [addressed_publish, List.mem_append]
  refine or_congr ?_ ?_
  · rw [List.mem_map]
    constructor
    · rintro ⟨i, hi, hp⟩
      obtain ⟨rfl, rfl⟩ := Prod.mk.inj hp
      exact ⟨(hr.channels.mem channel i).mp hi, rfl⟩
    · rintro ⟨hheld, rfl⟩
      exact ⟨id, (hr.channels.mem channel id).mpr hheld, rfl⟩
  · rw [List.mem_flatMap]
    constructor
    · rintro ⟨⟨pattern, ids⟩, hq, hp⟩
      obtain ⟨hentry, hglob⟩ := List.mem_filter.mp hq
      obtain ⟨i, hi, hp⟩ := List.mem_map.mp hp
      obtain ⟨rfl, rfl⟩ := Prod.mk.inj hp
      refine ⟨pattern, (hr.patterns.mem pattern i).mp ?_, hglob, rfl⟩
      unfold Table.under
      rw [Assoc.mem_pairs.mp hentry]
      exact hi
    · rintro ⟨pattern, hheld, hglob, rfl⟩
      have hid := (hr.patterns.mem pattern id).mpr hheld
      unfold Table.under at hid
      cases hentry : h.app.pubsub.patterns.lookup pattern with
      | none =>
        rw [hentry] at hid
        cases hid
      | some ids =>
        rw [hentry] at hid
        exact ⟨(pattern, ids), List.mem_filter.mpr ⟨Assoc.mem_pairs.mpr hentry, hglob⟩,
          List.mem_map.mpr ⟨id, hid, rfl⟩⟩

theorem addressed_nodup (hr : h.Registered) :
    (addressed (h.app.pubsub.publish channel payload)).Nodup := by
  rw [addressed_publish]
  refine List.Nodup.append ?_ ?_ ?_
  · exact (hr.channels.nodup channel).map fun _ _ h => (Prod.mk.inj h).1
  · refine List.nodup_flatMap.mpr ⟨fun q hq => ?_, ?_⟩
    · obtain ⟨hentry, -⟩ := List.mem_filter.mp hq
      have hids := hr.patterns.nodup q.1
      unfold Table.under at hids
      rw [Assoc.mem_pairs.mp (hentry : (q.1, q.2) ∈ _)] at hids
      exact hids.map fun _ _ h => (Prod.mk.inj h).1
    · have hkeys : (h.app.pubsub.patterns.pairs.filter fun q => globMatch q.1 channel).Pairwise
          fun p q => p.1 ≠ q.1 :=
        (List.pairwise_map.mp h.app.pubsub.patterns.nodup_pairs_fst).filter _
      refine hkeys.imp fun {p q} hpq => ?_
      intro r hp hq
      obtain ⟨_, -, rfl⟩ := List.mem_map.mp hp
      obtain ⟨_, -, hr⟩ := List.mem_map.mp hq
      exact hpq (pmessageFrame_inj (Prod.mk.inj hr).2).symm
  · intro p hmessage hpmessage
    obtain ⟨_, -, rfl⟩ := List.mem_map.mp hmessage
    obtain ⟨q, -, hp⟩ := List.mem_flatMap.mp hpmessage
    obtain ⟨_, -, hp⟩ := List.mem_map.mp hp
    exact messageFrame_ne q.1 (Prod.mk.inj hp).2.symm

/-- The registry addresses exactly what the clients are owed. -/
theorem addressed_owed (hr : h.Registered) :
    (addressed (h.app.pubsub.publish channel payload)).Perm (h.owed channel payload) := by
  refine (List.perm_ext_iff_of_nodup (addressed_nodup hr) (owed_nodup hr)).mpr ?_
  rintro ⟨id, frame⟩
  rw [mem_addressed hr, mem_owed hr]

/-- The publisher's own frames and the others' are all of them. -/
theorem split_addressed (id : Nat) (deliveries : List Delivery) :
    ((PubSubs.ownFrames id deliveries).map (fun frame => (id, frame)) ++
      PubSubs.otherFrames id deliveries).Perm (addressed deliveries) := by
  have hown : (PubSubs.ownFrames id deliveries).map (fun frame => (id, frame)) =
      (deliveries.filter fun d => d.id = id).map fun d => (d.id, d.frame) := by
    unfold PubSubs.ownFrames
    rw [List.map_map]
    refine List.map_congr_left fun d hd => ?_
    obtain ⟨-, hid⟩ := List.mem_filter.mp hd
    rw [decide_eq_true_eq] at hid
    rw [Function.comp_apply, ← hid]
  unfold PubSubs.otherFrames addressed
  rw [hown, ← List.map_append]
  refine List.Perm.map _ ?_
  have hperm := List.filter_append_perm (fun d : Delivery => decide (d.id = id)) deliveries
  have hnot : deliveries.filter (fun d => decide (d.id ≠ id)) =
      deliveries.filter fun d => !decide (d.id = id) :=
    List.filter_congr fun d _ => decide_not
  rw [hnot]
  exact hperm

/-- `publish`, by a connected client. -/
theorem publish_delivered (hr : h.Registered) {c : Client} {s : Served} (hid : s.client.id = c.id)
    (hpubsub : s.app.pubsub = h.app.pubsub) (houtbox : s.app.outbox = h.app.outbox) (e : Env)
    (w : World) : Act.Sat (PubSubs.publish channel payload) e s w
      (fun r s' _ => h.Delivered c channel payload r s'.app.outbox) (fun _ => True) := by
  refine ⟨PubSubs.ownFrames c.id (h.app.pubsub.publish channel payload),
    PubSubs.otherFrames c.id (h.app.pubsub.publish channel payload), ?_, ?_, ?_, ?_⟩
  · have hlength : (h.app.pubsub.publish channel payload).length = (h.owed channel payload).length := by
      rw [← (addressed_owed hr).length_eq]
      exact (List.length_map _).symm
    rw [← hlength, ← hpubsub, ← hid]
  · show s.app.outbox ++ _ = _
    rw [houtbox, hpubsub, hid]
  · intro p hp
    obtain ⟨d, hd, rfl⟩ := List.mem_map.mp hp
    simpa using (List.mem_filter.mp hd).2
  · exact (split_addressed c.id _).trans (addressed_owed hr)

/-- What stands in front of a publication, and behind it, leaves the registry and the outbox. -/
theorem execute_publish (hr : h.Registered) {c : Client} (verb : Bytes) (e : Env) (w : World) :
    Act.Sat (execute "PUBLISH" [verb, channel, payload]) e ⟨h.app, c⟩ w (fun r s _ =>
      if c.confined "PUBLISH" then (∃ message, r = .new (.error message)) ∧ s.app.outbox = h.app.outbox
      else h.Delivered c channel payload r s.app.outbox) (fun _ => True) := by
  refine sat_executeWith (fun hconfined message => ?_) fun hfree => ?_
  · rw [if_pos hconfined]
    exact ⟨⟨message, rfl⟩, rfl⟩
  · have hgate := memoryGate_none (e := e) (w := w)
      (a := (Served.counted ⟨h.app, c⟩).app) (by decide : deniesOom "PUBLISH" = false)
    refine Act.sat_mono (Act.sat_and hgate (memoryGate_rest e _ w)) ?_
      (fun _ _ => trivial)
    rintro refusal a w₁ ⟨⟨hnone, -⟩, hrest⟩
    refine ⟨fun r hsome => (by rw [hnone] at hsome; cases hsome), fun _ => ?_⟩
    have hpubsub : a.pubsub = h.app.pubsub := congrArg App.Rest.pubsub hrest
    have houtbox : a.outbox = h.app.outbox := congrArg App.Rest.outbox hrest
    have hfamily : family "PUBLISH" = some .pubsub := by decide
    unfold runWith
    rw [hfamily]
    show Act.Sat (PubSubs.publish channel payload) e ⟨a, c⟩ w₁ _ _
    refine Act.sat_mono (publish_delivered hr (s := ⟨a, c⟩) rfl hpubsub houtbox e w₁) ?_ (fun _ h => h)
    intro r s w₂ hdelivered stats _
    refine Act.sat_mono (signalWrites_rest r e { s.app with stats := stats } w₂) ?_ (fun _ h => h)
    intro _ a' _ hrest'
    rw [if_neg (by rw [hfree]; exact Bool.false_ne_true)]
    have houtbox' : a'.outbox = s.app.outbox := congrArg App.Rest.outbox hrest'
    show h.Delivered c channel payload r a'.outbox
    rw [houtbox']
    exact hdelivered

end publish

/-- **The registry and the clients agree, and a publication delivers exactly.**  After every run a
client id is under a name in the registry exactly when the client holds the name, no entry is empty,
and a PUBLISH that is executed makes one frame for each client subscribed to the channel and one for
each client and matching pattern, and answers their number. -/
theorem publish_exact (store : Store) (persist : Persist) (config : Config) (stats : Stats)
    (events : List Event) (e : Env) (w : World) :
    Act.Sat (run events) e (start store persist config stats) w (fun _ h w' => h.Registered ∧
      ∀ id c, h.clients id = some c → ∀ verb channel payload,
        Act.Sat (execute "PUBLISH" [verb, channel, payload]) e ⟨h.app, c⟩ w' (fun r s _ =>
          if c.confined "PUBLISH" then
            (∃ message, r = .new (.error message)) ∧ s.app.outbox = h.app.outbox
          else h.Delivered c channel payload r s.app.outbox) (fun _ => True)) (fun _ => True) := by
  refine Act.sat_mono (run_registered store persist config stats events e w) ?_ (fun _ h => h)
  intro _ h w' hr
  exact ⟨hr, fun id c _ verb channel payload => execute_publish hr verb e w'⟩

end Hub

end Klyro
