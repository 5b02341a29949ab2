import Klyro.Commands.Gate

/-!
# Commands nobody implements, inside MULTI

Queueing asks the router, which knows the memory family by its prefix only; whether a command is
implemented is decided by the arms of its family.

* `Unimplemented` — the router does not know the name, or its family has no arm for it.
* `Dialogue` — what one client sends between MULTI and EXEC, whatever others do in between.
* `AbortsTransaction` — the command is refused, and the EXEC that follows runs nothing.
* `abortsTransaction_iff` — it does exactly for the names without the memory prefix.
-/

set_option autoImplicit false

namespace Klyro

open Served

/-! ## Names -/

/-- The names a family has arms for. -/
def Family.armNames : Family → List String
  | .server => Server.arms.map Prod.fst
  | .transaction => (Transactions.arms innerExec).map Prod.fst
  | .pubsub => PubSubs.arms.map Prod.fst
  | .blocking => Blocking.arms.map Prod.fst
  | .generic => (Generic.arms {}).map Prod.fst
  | .string => (Strings.arms {}).map Prod.fst
  | .list => Lists.arms.map Prod.fst
  | .hash => Hashes.arms.map Prod.fst
  | .set => Sets.arms.map Prod.fst
  | .zset => (Zsets.arms {}).map Prod.fst
  | .memory => (Memories.arms {}).map Prod.fst

/-- A name that the router, or the handler of its family, answers as unknown. -/
def Unimplemented (name : String) : Prop := ∀ group, family name = some group → name ∉ group.armNames

/-- Every name the router lists has an arm. -/
theorem listed_implemented : ∀ group ∈ familyNames, ∀ name ∈ group.2, name ∈ group.1.armNames := by
  decide +kernel

theorem family_cases (name : String) :
    (∃ group ∈ familyNames, name ∈ group.2 ∧ family name = some group.1) ∨
    (∀ group ∈ familyNames, name ∉ group.2) ∧
      family name = if memoryPrefixed name then some .memory else none := by
  unfold family
  cases hfind : familyNames.find? fun group => group.2.contains name with
  | some group =>
    have hmem := List.mem_of_find?_eq_some hfind
    have hname := List.find?_some hfind
    exact .inl ⟨group, hmem, by simpa using hname, rfl⟩
  | none =>
    rw [List.find?_eq_none] at hfind
    exact .inr ⟨fun group hmem hname => hfind group hmem (by simpa using hname), rfl⟩

/-- An unimplemented name is none the router lists. -/
theorem Unimplemented.unlisted {name : String} (h : Unimplemented name) :
    (∀ group ∈ familyNames, name ∉ group.2) ∧
      family name = if memoryPrefixed name then some .memory else none := by
  rcases family_cases name with ⟨group, hmem, hname, hfam⟩ | hrest
  · exact absurd (listed_implemented group hmem name hname) (h group.1 hfam)
  · exact hrest

theorem lookup_none_of_names {β : Type} {arms : List (String × β)} {names : List String}
    {name : String} (hsame : arms.map Prod.fst = names) (h : name ∉ names) :
    arms.lookup name = none := by
  rw [← hsame] at h
  rw [List.lookup_eq_none_iff]
  intro p hp
  rw [bne_iff_ne]
  rintro rfl
  exact h (List.mem_map_of_mem hp)

theorem onArms_unknown {arms : Config → Arms} {name : String} {s : Served}
    (h : (arms s.app.config).lookup name = none) (argv : List Bytes) (e : Env) (w : World) :
    onArms arms name argv e s w = .done (.new unknownVerb) s w := by
  unfold onArms Arms.run
  rw [Act.bind_apply]
  simp only [Act.get, h]
  rfl

theorem armNames_memory (config : Config) :
    (Memories.arms config).map Prod.fst = Family.armNames .memory := by
  simp only [Memories.arms, Family.armNames, List.map_cons, List.map_nil]

/-- **On its own** an unimplemented command is answered with an unknown-command error. -/
theorem run_unimplemented {name : String} (h : Unimplemented name) (exec : Run Served Response)
    (argv : List Bytes) (e : Env) (s : Served) (w : World) :
    runWith exec name argv e s w = .done (.new (unknownCommand argv)) s w ∨
      runWith exec name argv e s w = .done (.new unknownVerb) s w := by
  obtain ⟨-, hfam⟩ := h.unlisted
  unfold runWith
  by_cases hmem : memoryPrefixed name = true
  · right
    rw [if_pos hmem] at hfam
    have hnone : (Memories.arms s.app.config).lookup name = none :=
      lookup_none_of_names (armNames_memory s.app.config) (h .memory hfam)
    simp only [hfam]
    exact onArms_unknown hnone argv e w
  · left
    rw [if_neg hmem] at hfam
    simp only [hfam]
    rfl

/-! ## Inside MULTI -/

/-- Whether a request is an EXEC that is carried out. -/
def isExec (argv : List Bytes) : Bool := toUpper (arg argv 0) == "EXEC" && argv.length == 1

/-- A client that was just answered OK to MULTI. -/
def Opened (e : Env) (c : Client) : Prop := ∃ argv a c₀ w a' w',
  toUpper (arg argv 0) = "MULTI" ∧
    dispatch argv e ⟨a, c₀⟩ w = .done (some (.new .ok)) ⟨a', c⟩ w'

/-- The requests of one client that leave it in its transaction; between two of them the others may
do anything to the shared state. -/
inductive Dialogue (e : Env) : List (List Bytes) → Client → Client → Prop where
  | nil (c : Client) : Dialogue e [] c c
  | cons {argv : List Bytes} {rest : List (List Bytes)} {a : App} {w w' : World} {c c' : Client}
      {r : Option Response} {s' : Served} (hexec : isExec argv = false)
      (hstep : dispatch argv e ⟨a, c⟩ w = .done r s' w') (hin : s'.client.inTransaction = true)
      (hrest : Dialogue e rest s'.client c') : Dialogue e (argv :: rest) c c'

/-- Whether the client's transaction will not run. -/
def Client.aborted (c : Client) : Prop := ∃ t, c.transaction = some t ∧ t.failed = true

/-- Whether subscriptions keep the client from most commands. -/
def Client.restricted (c : Client) : Prop := c.protocol = .resp2 ∧ c.isSubscriber = true

theorem confined_of_not_restricted {c : Client} {name : String} (h : ¬ c.restricted) :
    c.confined name = false := by
  unfold Client.confined
  unfold Client.restricted at h
  by_cases hp : c.protocol = .resp2
  · have hs : c.isSubscriber = false := by
      rw [← Bool.not_eq_true]
      exact fun hs => h ⟨hp, hs⟩
    simp [hs]
  · have hp' : (c.protocol == .resp2) = false := by simpa using hp
    rw [hp']
    rfl

/-- What a client in a transaction keeps while it stays there. -/
def Client.badge (c : Client) : Protocol × List Bytes × List Bytes := (c.protocol, c.channels, c.patterns)

theorem restricted_of_badge {c c' : Client} (h : c'.badge = c.badge) (hr : ¬ c.restricted) :
    ¬ c'.restricted := by
  unfold Client.badge at h
  simp only [Prod.mk.injEq] at h
  unfold Client.restricted Client.isSubscriber Client.subscriptionCount at hr ⊢
  rw [h.1, h.2.1, h.2.2]
  exact hr

/-- The watch list of a client agrees with the registry: no key twice, none without a watcher. -/
structure Watching (a : App) (c : Client) : Prop where
  nodup : (c.watched.map Prod.fst).Nodup
  counted : ∀ p ∈ c.watched, a.watch.counts p.1 ≠ some 0

/-- The reply of an EXEC whose transaction was refused something. -/
def execAbort : Reply := .error "EXECABORT Transaction discarded because of previous errors."

/-- The request is answered with an error, changes nothing but the transaction, and that will not
run any more. -/
def Refuses (e : Env) (argv : List Bytes) (c : Client) : Prop := ∀ a w, ∃ message c',
  dispatch argv e ⟨a, c⟩ w = .done (some (.new (.error message))) ⟨a, c'⟩ w ∧ c'.aborted

/-- EXEC answers EXECABORT, and all that happens to the shared state is what the memory gate does
before every command and that the client watches no key any more. -/
def RunsNothing (e : Env) (c : Client) : Prop := ∀ argv a w, isExec argv = true → Watching a c →
  Act.Sat (dispatch argv) e ⟨a, c⟩ w
    (fun r s' w' => r = some (.new execAbort) ∧ s'.client.transaction = none ∧ ∃ a₁,
      memoryGate "EXEC" e (Served.counted ⟨a, c⟩).app w = .done none a₁ w' ∧
      s'.app = { a₁ with watch := s'.app.watch, history := s'.app.history })
    (fun p => memoryGate "EXEC" e (Served.counted ⟨a, c⟩).app w = .panicked p)

/-- Sent anywhere between MULTI and EXEC, the command is refused, and the EXEC that follows runs
nothing. -/
def AbortsTransaction (command : Bytes) : Prop :=
  ∀ (e : Env) (c c₁ : Client) (before : List (List Bytes)) (argv : List Bytes), Opened e c →
    Dialogue e before c c₁ → argv.head? = some command →
    Refuses e argv c₁ ∧ ∀ after c₃, Dialogue e (argv :: after) c₁ c₃ → RunsNothing e c₃

/-! ## Control commands -/

section control

variable {e : Env} {name : String} {argv : List Bytes} {a : App} {c : Client} {w : World}

theorem isControl_cases (h : Transactions.isControl name = true) : name = "MULTI" ∨ name = "EXEC" ∨
    name = "DISCARD" ∨ name = "WATCH" ∨ name = "RESET" ∨ name = "QUIT" := by
  simpa [Transactions.isControl] using h

/-- A control command is no read, writes no key and passes the memory gate. -/
theorem control_plain (h : Transactions.isControl name = true) : readCommands.contains name = false ∧
    writes.lookup name = none ∧ deniesOom name = false := by
  rcases isControl_cases h with rfl | rfl | rfl | rfl | rfl | rfl <;> decide

/-- The rule for a control command: refused for the client's subscriptions, or run behind the gate. -/
theorem sat_control {Q : Option Response → Served → World → Prop} {R : Panic → Prop}
    (hname : toUpper (arg argv 0) = name) (hcontrol : Transactions.isControl name = true)
    (hconfined : c.confined name = true → ∀ message,
      Q (some (.new (.error message))) (Served.counted ⟨a, c⟩) w)
    (hrun : c.confined name = false → ∀ a₁ w₁, memoryGate name e (Served.counted ⟨a, c⟩).app w = .done none a₁ w₁ →
      Act.Sat (runWith exec name argv) e ⟨a₁, c⟩ w₁ (fun r s' w' => Q (some r) s' w') R)
    (hgate : ∀ p, memoryGate name e (Served.counted ⟨a, c⟩).app w = .panicked p → R p) :
    Act.Sat (dispatch argv) e ⟨a, c⟩ w Q R := by
  obtain ⟨hread, hwrites, hoom⟩ := control_plain hcontrol
  have hne : argv.isEmpty = false := by
    cases argv with
    | nil =>
      have hempty : name = toUpper [] := hname.symm
      rw [hempty] at hcontrol
      exact absurd hcontrol (by decide)
    | cons _ _ => rfl
  unfold dispatch
  rw [hne]
  simp only [Bool.false_eq_true, if_false, hname, Act.sat_bind, Act.sat_get, hcontrol, Bool.not_true,
    Bool.and_false]
  refine sat_executeWith hconfined fun hfree => ?_
  refine Act.sat_mono (memoryGate_none hoom) ?_ hgate
  rintro refusal a₁ w₁ ⟨rfl, hdone⟩
  refine ⟨fun r hr => (by cases hr), fun _ => Act.sat_mono (hrun hfree a₁ w₁ hdone) ?_ (fun _ h => h)⟩
  intro r s₂ w₂ hQ stats hstats
  have hnone : writtenKeys name argv = none := by
    unfold writtenKeys
    rw [hwrites]
    rfl
  rw [hstats hread]
  unfold signalWrites
  rw [hnone]
  split
  · exact hQ
  · exact hQ

theorem run_multi (exec : Run Served Response) (argv : List Bytes) :
    runWith exec "MULTI" argv = (do
      let s ← Act.get
      if argv.length ≠ 1 then pure (.new (.wrongArity "MULTI"))
      else if s.client.inTransaction then
        pure (.new (.error "ERR MULTI calls can not be nested"))
      else Transactions.answered .ok (onClient (Act.modify Client.beginTransaction)) :
        Run Served Response) := rfl

theorem run_exec (exec : Run Served Response) (argv : List Bytes) :
    runWith exec "EXEC" argv =
      (if argv.length ≠ 1 then pure (.new (.wrongArity "EXEC")) else exec) := rfl

theorem run_discard (exec : Run Served Response) (argv : List Bytes) :
    runWith exec "DISCARD" argv = (do
      let s ← Act.get
      if argv.length ≠ 1 then pure (.new (.wrongArity "DISCARD"))
      else if !s.client.inTransaction then pure (.new (.error "ERR DISCARD without MULTI"))
      else Transactions.answered .ok Transactions.discard : Run Served Response) := rfl

theorem run_watch (exec : Run Served Response) (argv : List Bytes) :
    runWith exec "WATCH" argv = (do
      let s ← Act.get
      if argv.length ≤ 1 then pure (.new (.wrongArity "WATCH"))
      else if s.client.inTransaction then
        pure (.new (.error "ERR WATCH inside MULTI is not allowed"))
      else Transactions.answered .ok (Act.forList Transactions.watchOne (argv.drop 1)) :
        Run Served Response) := rfl

theorem run_reset (exec : Run Served Response) (argv : List Bytes) :
    runWith exec "RESET" argv = Transactions.answered (.simple "RESET") (do
      Transactions.discard
      Transactions.unsubscribeEverything) := rfl

theorem run_quit (exec : Run Served Response) (argv : List Bytes) :
    runWith exec "QUIT" argv = pure { replies := [.ok], close := true } := rfl

theorem unwatchAll_transaction :
    Act.Preserves (fun s : Served => s.client.transaction) Transactions.unwatchAll := by
  intro e s w
  unfold Transactions.unwatchAll
  simp only [Act.sat_bind, Act.sat_get, onApp, onClient, Act.sat_zoom, Act.sat_set]
  refine Act.sat_mono ?_ (fun _ _ _ h => h) (fun _ h => h)
  unfold App.unwatchAll
  simp only [Act.sat_bind, Act.sat_modify, Act.sat_pure]
  exact Act.sat_mono (Act.sat_true _) (fun _ _ _ _ => trivial) (fun _ h => h)

theorem sat_discard {s : Served} :
    Act.Sat Transactions.discard e s w (fun _ s' _ => s'.client.transaction = none) (fun _ => True) := by
  unfold Transactions.discard
  rw [Act.sat_bind, onClient, Act.sat_zoom, Act.sat_modify]
  exact unwatchAll_transaction e _ w

theorem not_restricted (h : c.confined name = false) (hname : subscriberCommands.contains name = false) :
    ¬ c.restricted := by
  rintro ⟨hp, hs⟩
  unfold Client.confined at h
  rw [hp, hs, hname] at h
  cases h

theorem Opened.spec (h : Opened e c) : c.transaction = some {} ∧ ¬ c.restricted := by
  obtain ⟨argv, a, c₀, w, a', w', hname, hdone⟩ := h
  have hsat : Act.Sat (dispatch argv) e ⟨a, c₀⟩ w (fun r s' _ => r = some (.new .ok) →
      s'.client.transaction = some {} ∧ ¬ s'.client.restricted) (fun _ => True) := by
    refine sat_control hname (by decide) (fun _ _ h => by cases h) ?_ (fun _ _ => trivial)
    intro hfree a₁ w₁ _
    have hr : ¬ c₀.restricted := not_restricted hfree (by decide)
    rw [run_multi, Act.sat_bind, Act.sat_get]
    split
    · exact fun h => by cases h
    · split
      · exact fun h => by cases h
      · exact fun _ => ⟨rfl, hr⟩
  rw [Act.sat_of_done hdone] at hsat
  exact hsat rfl

/-- What every request but EXEC does to a client in a transaction that stays in it: it keeps its
connection's standing, and a transaction that will not run stays so. -/
theorem dispatch_stays {t : Transaction} (ht : c.transaction = some t)
    (hexec : isExec argv = false) :
    Act.Sat (dispatch argv) e ⟨a, c⟩ w (fun _ s' _ => ∀ t', s'.client.transaction = some t' →
      s'.client.badge = c.badge ∧ (t.failed = true → t'.failed = true)) (fun _ => True) := by
  have hsame : ∀ t', c.transaction = some t' →
      c.badge = c.badge ∧ (t.failed = true → t'.failed = true) := by
    intro t' ht'
    rw [ht] at ht'
    cases ht'
    exact ⟨rfl, id⟩
  cases hcontrol : Transactions.isControl (toUpper (arg argv 0)) with
  | false =>
    unfold dispatch
    split
    · exact hsame
    · have hin : c.inTransaction = true := by
        unfold Client.inTransaction
        rw [ht]
        rfl
      simp only [Act.sat_bind, Act.sat_get, hin, hcontrol, Bool.not_false, Bool.and_self, if_true,
        onClient, Act.sat_zoom, Act.sat_pure]
      unfold Transactions.queue
      rw [Act.sat_bind, Act.sat_get, ht, Act.sat_bind, Act.sat_expect_some]
      split
      · intro t' ht'
        cases ht'
        exact ⟨rfl, fun _ => rfl⟩
      · intro t' ht'
        cases ht'
        exact ⟨rfl, id⟩
  | true =>
    refine sat_control rfl hcontrol (fun _ _ => hsame) ?_ (fun _ _ => trivial)
    intro _ a₁ w₁ _
    have hin : c.inTransaction = true := by
      unfold Client.inTransaction
      rw [ht]
      rfl
    have hleft : ∀ s' : Served, s'.client.transaction = none → ∀ t', s'.client.transaction = some t' →
        s'.client.badge = c.badge ∧ (t.failed = true → t'.failed = true) := by
      intro s' hnone t' ht'
      rw [hnone] at ht'
      cases ht'
    rcases isControl_cases hcontrol with hname | hname | hname | hname | hname | hname
    · rw [hname, run_multi, Act.sat_bind, Act.sat_get]
      simp only [hin, if_true]
      split <;> exact hsame
    · have hlen : argv.length ≠ 1 := by
        intro hlen
        unfold isExec at hexec
        rw [hname, hlen] at hexec
        cases hexec
      rw [hname, run_exec, if_pos hlen]
      exact hsame
    · rw [hname, run_discard, Act.sat_bind, Act.sat_get]
      split
      · exact hsame
      · split
        · exact hsame
        · unfold Transactions.answered
          rw [Act.sat_bind]
          exact Act.sat_mono sat_discard (fun _ s' _ h => hleft s' h) (fun _ h => h)
    · rw [hname, run_watch, Act.sat_bind, Act.sat_get]
      simp only [hin, if_true]
      split <;> exact hsame
    · rw [hname, run_reset]
      unfold Transactions.answered
      rw [Act.sat_bind, Act.sat_bind]
      refine Act.sat_mono sat_discard ?_ (fun _ h => h)
      exact fun _ s' _ h => hleft _ h
    · rw [hname, run_quit]
      exact hsame

/-- A client that stays in its transaction keeps it, refused or not. -/
theorem Dialogue.stays {requests : List (List Bytes)} {c' : Client} (h : Dialogue e requests c c') :
    ∀ t, c.transaction = some t → ¬ c.restricted →
      ∃ t', c'.transaction = some t' ∧ ¬ c'.restricted ∧ (t.failed = true → t'.failed = true) := by
  induction h with
  | nil c => exact fun t ht hr => ⟨t, ht, hr, id⟩
  | @cons argv rest a w w' c c'' r s' hexec hstep hin hrest ih =>
    intro t ht hr
    have hstay := dispatch_stays (e := e) (a := a) (w := w) ht hexec
    rw [Act.sat_of_done hstep] at hstay
    unfold Client.inTransaction at hin
    obtain ⟨t₁, ht₁⟩ := Option.isSome_iff_exists.mp hin
    obtain ⟨hbadge, hfailed⟩ := hstay t₁ ht₁
    obtain ⟨t', ht', hr', hfailed'⟩ := ih t₁ ht₁ (restricted_of_badge hbadge hr)
    exact ⟨t', ht', hr', fun h => hfailed' (hfailed h)⟩

/-- A request the router does not know is refused. -/
theorem refuses_unknown {t : Transaction} (ht : c.transaction = some t) {command : Bytes}
    (hargv : argv.head? = some command) (hcontrol : Transactions.isControl (toUpper command) = false)
    (hfamily : family (toUpper command) = none) : Refuses e argv c := by
  obtain ⟨rest, rfl⟩ : ∃ rest, argv = command :: rest := by
    cases argv with
    | nil => cases hargv
    | cons first rest =>
      cases hargv
      exact ⟨rest, rfl⟩
  intro a w
  obtain ⟨message, hmessage⟩ : ∃ message, unknownCommand (command :: rest) = .error message := ⟨_, rfl⟩
  refine ⟨message, { c with transaction := some t.refused }, ?_, t.refused, rfl, rfl⟩
  have hname : toUpper (arg (command :: rest) 0) = toUpper command := rfl
  have hin : c.inTransaction = true := by
    unfold Client.inTransaction
    rw [ht]
    rfl
  have hrefusal : Transactions.refusal (toUpper command) (command :: rest) =
      some (.error message) := by
    unfold Transactions.refusal
    rw [hfamily, hmessage]
    rfl
  unfold dispatch
  simp only [List.isEmpty_cons, Bool.false_eq_true, if_false, Act.bind_apply, Act.get, hname, hin,
    hcontrol, Bool.not_false, Bool.and_self, if_true, onClient, Act.zoom, Transactions.queue, ht,
    Act.expect, Act.pure_apply, hrefusal, Act.set, Act.modify]

/-- No name with the memory prefix is one that MULTI refuses. -/
theorem refusedInMulti_memory (h : memoryPrefixed name = true) :
    Transactions.refusedInMulti name = false := by
  rw [← Bool.not_eq_true]
  intro hrefused
  have hcases : name = "SUBSCRIBE" ∨ name = "UNSUBSCRIBE" ∨ name = "PSUBSCRIBE" ∨
      name = "PUNSUBSCRIBE" := by
    simpa [Transactions.refusedInMulti] using hrefused
  rcases hcases with rfl | rfl | rfl | rfl <;> exact absurd h (by decide)

/-- A request the router takes for a memory command is queued. -/
theorem dispatch_queued {t : Transaction} {command : Bytes} (ht : c.transaction = some t)
    (hargv : argv = [command]) (hcontrol : Transactions.isControl (toUpper command) = false)
    (hfamily : family (toUpper command) = some .memory)
    (hmem : memoryPrefixed (toUpper command) = true) :
    dispatch argv e ⟨a, c⟩ w = .done (some (.new (.simple "QUEUED")))
      ⟨a, { c with transaction := some (t.push argv) }⟩ w := by
  subst hargv
  have hname : toUpper (arg [command] 0) = toUpper command := rfl
  have hin : c.inTransaction = true := by
    unfold Client.inTransaction
    rw [ht]
    rfl
  have hrefusal : Transactions.refusal (toUpper command) [command] = none := by
    unfold Transactions.refusal
    rw [hfamily, refusedInMulti_memory hmem]
    rfl
  unfold dispatch
  simp only [List.isEmpty_cons, Bool.false_eq_true, if_false, Act.bind_apply, Act.get, hname, hin,
    hcontrol, Bool.not_false, Bool.and_self, if_true, onClient, Act.zoom, Transactions.queue, ht,
    Act.expect, Act.pure_apply, hrefusal, Act.set, Act.modify]

theorem sat_unwatchOne {key : Bytes} (h : a.watch.counts key ≠ some 0) :
    Act.Sat (App.onWatch (Watch.unwatch key)) e a w
      (fun _ a' w' => w' = w ∧ a' = { a with watch := a'.watch } ∧
        ∀ k, k ≠ key → a'.watch.counts k = a.watch.counts k)
      (fun _ => False) := by
  unfold App.onWatch Watch.unwatch
  rw [Act.sat_zoom, Act.sat_bind, Act.sat_get]
  unfold Watch.counts at h ⊢
  cases hentry : a.watch.keys.lookup key with
  | none => exact ⟨rfl, rfl, fun _ _ => rfl⟩
  | some entry =>
    dsimp only
    split
    · rename_i hzero
      rw [hentry, Option.map_some, hzero] at h
      exact absurd rfl h
    · refine ⟨rfl, rfl, fun k hk => ?_⟩
      show ((a.watch.keys.erase key).lookup k).map _ = _
      rw [AList.lookup_erase_ne hk]
    · refine ⟨rfl, rfl, fun k hk => ?_⟩
      show ((a.watch.keys.insert key _).lookup k).map _ = _
      rw [AList.lookup_insert_ne hk]

/-- Dropping a watch list that agrees with the registry cannot fail. -/
theorem sat_unwatchList (watched : List (Bytes × Nat)) : ∀ a : App,
    (watched.map Prod.fst).Nodup → (∀ p ∈ watched, a.watch.counts p.1 ≠ some 0) →
    Act.Sat (Act.forList (fun p => App.onWatch (Watch.unwatch p.1)) watched) e a w
      (fun _ a' w' => w' = w ∧ a' = { a with watch := a'.watch }) (fun _ => False) := by
  induction watched with
  | nil => exact fun a _ _ => ⟨rfl, rfl⟩
  | cons p watched ih =>
    intro a hnodup hcounts
    rw [List.map_cons, List.nodup_cons] at hnodup
    unfold Act.forList
    rw [Act.sat_bind]
    refine Act.sat_mono (sat_unwatchOne (hcounts p List.mem_cons_self)) ?_ (fun _ h => h)
    rintro _ a₁ w₁ ⟨rfl, ha₁, hother⟩
    have hcounts₁ : ∀ q ∈ watched, a₁.watch.counts q.1 ≠ some 0 := by
      intro q hq
      rw [hother q.1 fun heq => hnodup.1 (heq ▸ List.mem_map_of_mem hq)]
      exact hcounts q (List.mem_cons_of_mem _ hq)
    refine Act.sat_mono (ih a₁ hnodup.2 hcounts₁) ?_ (fun _ h => h)
    rintro _ a₂ w₂ ⟨rfl, ha₂⟩
    refine ⟨rfl, ?_⟩
    rw [ha₁] at ha₂
    exact ha₂

/-- A transaction that was refused something runs nothing. -/
theorem runsNothing (hr : ¬ c.restricted) (ha : c.aborted) : RunsNothing e c := by
  intro argv a w hexec hwatching
  obtain ⟨t, ht, hfailed⟩ := ha
  unfold isExec at hexec
  rw [Bool.and_eq_true, beq_iff_eq, beq_iff_eq] at hexec
  refine sat_control hexec.1 (by decide) ?_ ?_ (fun p h => h)
  · intro hconfined
    rw [confined_of_not_restricted hr] at hconfined
    cases hconfined
  intro _ a₁ w₁ hgate
  have hpart : Act.Preserves App.rest (memoryGate "EXEC") := memoryGate_rest
  have hrest := hpart e (Served.counted ⟨a, c⟩).app w
  rw [Act.sat_of_done hgate] at hrest
  have hcounts : a₁.watch.counts = a.watch.counts := congrArg App.Rest.counts hrest
  rw [run_exec, if_neg (by simpa using hexec.2)]
  unfold exec Transactions.exec
  rw [Act.sat_bind, Act.sat_get, ht]
  simp only [Act.sat_bind, onClient, Act.sat_zoom, Act.sat_modify, Transactions.unwatchAll,
    Act.sat_get, onApp, App.unwatchAll, Act.sat_pure, Act.sat_set]
  refine Act.sat_mono (sat_unwatchList c.watched a₁ hwatching.nodup ?_) ?_ (fun _ h => h.elim)
  · intro p hp
    rw [hcounts]
    exact hwatching.counted p hp
  · rintro _ a₂ w₂ ⟨rfl, ha₂⟩
    rw [hfailed, if_pos rfl]
    refine ⟨rfl, rfl, a₁, hgate, ?_⟩
    rw [ha₂]

/-- **Which unimplemented commands abort a transaction.**  All but those with the prefix of the
memory commands, which the router takes for implemented. -/
theorem abortsTransaction_iff (command : Bytes) (h : Unimplemented (toUpper command)) :
    AbortsTransaction command ↔ memoryPrefixed (toUpper command) = false := by
  obtain ⟨hunlisted, hfamily⟩ := h.unlisted
  have hcontrol : Transactions.isControl (toUpper command) = false := by
    rw [← Bool.not_eq_true]
    intro hcontrol
    rcases isControl_cases hcontrol with hname | hname | hname | hname | hname | hname <;>
      rw [hname] at hunlisted <;> exact absurd hunlisted (by decide)
  constructor
  · intro haborts
    by_contra hmem
    rw [Bool.not_eq_false] at hmem
    rw [if_pos hmem] at hfamily
    -- right after MULTI the command is queued
    have hopened : Opened (stillEnv 0) freshServed.client.beginTransaction :=
      ⟨[Text.bytes "MULTI"], {}, freshServed.client, {}, _, _, by decide +kernel, rfl⟩
    obtain ⟨hrefuses, -⟩ := haborts (stillEnv 0) _ _ [] [command] hopened (.nil _) rfl
    obtain ⟨message, c', hdone, -⟩ := hrefuses {} {}
    rw [dispatch_queued rfl rfl hcontrol hfamily hmem] at hdone
    cases hdone
  · intro hmem
    rw [hmem] at hfamily
    intro e c c₁ before argv hopened hbefore hargv
    obtain ⟨ht, hr⟩ := hopened.spec
    obtain ⟨t₁, ht₁, hr₁, -⟩ := hbefore.stays _ ht hr
    have hrefuses : Refuses e argv c₁ := refuses_unknown ht₁ hargv hcontrol hfamily
    refine ⟨hrefuses, fun after c₃ hafter => ?_⟩
    cases hafter with
    | @cons _ _ a w w' _ _ r s' hexec hstep hin hrest =>
      obtain ⟨message, c₂, hdone, t₂, ht₂, hfailed⟩ := hrefuses a w
      rw [hdone] at hstep
      cases hstep
      have hstay := dispatch_stays (e := e) (a := a) (w := w) ht₁ hexec
      rw [Act.sat_of_done hdone] at hstay
      have hr₂ := restricted_of_badge (hstay t₂ ht₂).1 hr₁
      obtain ⟨t₃, ht₃, hr₃, hfailed₃⟩ := hrest.stays t₂ ht₂ hr₂
      exact runsNothing hr₃ ⟨t₃, ht₃, hfailed₃ hfailed⟩

end control

/-- `NOPE` aborts a transaction. -/
theorem abortsTransaction_iff_nope : AbortsTransaction (Text.bytes "NOPE") := by
  have hunknown : Unimplemented (toUpper (Text.bytes "NOPE")) := by
    intro group hgroup
    exact absurd hgroup (by rw [show family (toUpper (Text.bytes "NOPE")) = none by decide +kernel]; simp)
  exact (abortsTransaction_iff (Text.bytes "NOPE") hunknown).mpr (by decide +kernel)

/-- Run the requests of one client, one after the other. -/
def dispatchAll (requests : List (List Bytes)) : Run Served (List (Option Response)) :=
  Act.mapList dispatch requests

/-- `MEM.NOPE` is implemented by nobody, and between MULTI and EXEC it does not keep `SET k v` from
being run. -/
theorem mem_nope_runs : Unimplemented (toUpper (Text.bytes "MEM.NOPE")) ∧
    Act.Sat (dispatchAll [[Text.bytes "MULTI"], [Text.bytes "SET", [107], [118]],
        [Text.bytes "MEM.NOPE"], [Text.bytes "EXEC"]]) (stillEnv 5) freshServed {}
      (fun _ s' _ => s'.app.store.view [107] = some (.str [118], none)) (fun _ => False) ∧
    ¬ AbortsTransaction (Text.bytes "MEM.NOPE") := by
  refine ⟨?_, by decide +kernel, ?_⟩
  · intro group hgroup
    have hfamily : family (toUpper (Text.bytes "MEM.NOPE")) = some .memory := by decide +kernel
    rw [hfamily, Option.some.injEq] at hgroup
    subst hgroup
    decide +kernel
  · intro haborts
    have hopened : Opened (stillEnv 0) freshServed.client.beginTransaction :=
      ⟨[Text.bytes "MULTI"], {}, freshServed.client, {}, _, _, by decide +kernel, rfl⟩
    obtain ⟨hrefuses, -⟩ := haborts (stillEnv 0) _ _ [] [Text.bytes "MEM.NOPE"] hopened (.nil _) rfl
    obtain ⟨message, c', hdone, -⟩ := hrefuses {} {}
    rw [dispatch_queued rfl rfl (by decide +kernel) (by decide +kernel) (by decide +kernel)] at hdone
    cases hdone

end Klyro
