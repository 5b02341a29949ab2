import Klyro.Effects.Blocking
import Klyro.Effects.Generic
import Klyro.Effects.Server
import Klyro.Effects.Sets
import Klyro.Effects.Strings
import Klyro.Effects.Zsets

/-!
# What a command does to the keyspace

The effects of the handler families, put together behind `run` and `execute`.

* `Ran` — a command wrote the keys the key table names for it, and made no key poppable when it
  was silent.
* `runWith_ran` — every command but EXEC.
* `runWith_quiet` — the commands that write nothing at all when they fail.
* `execute_ran` — the same behind the gates and the signals.
-/

set_option autoImplicit false

namespace Klyro

open Keyspace
open Served

section ran

variable {e : Env} {name : String} {argv : List Bytes}

/-- What a command other than EXEC does to the keyspace. -/
structure Ran (e : Env) (name : String) (argv : List Bytes) (s : Store) (w : World) (silent : Bool)
    (s' : Store) (w' : World) : Prop where
  moves : Moves e (Named name argv) s w s' w'
  shy : silent = true → Shy s s'

theorem Ran.of_quiet {s s' : Store} {w w' : World} {silent : Bool} (h : Quiet e s w s' w') :
    Ran e name argv s w silent s' w' :=
  ⟨.of_quiet h, fun _ => h.shy⟩

theorem Ran.trans_quiet {s s' s'' : Store} {w w' w'' : World} {silent : Bool}
    (h : Ran e name argv s w silent s' w') (h' : Quiet e s' w' s'' w'') :
    Ran e name argv s w silent s'' w'' :=
  ⟨h.moves.trans (.of_quiet h'), fun hs => (h.shy hs).trans h'.shy⟩

/-! ## Handlers and their replies -/

theorem sat_answer {m : Cmd Reply} {s : Store} {w : World} {Q E : Reply → Store → World → Prop}
    {R : Panic → Prop} (h : Act.SatE m e s w Q E R) :
    Act.Sat (answer m) e s w (fun r s' w' => Q r s' w' ∨ E r s' w') R := by
  unfold answer
  rw [Act.sat_bind]
  refine Act.sat_mono h ?_ (fun _ h => h)
  intro r s' w' hr
  cases r with
  | ok reply => exact .inl hr
  | error reply => exact .inr hr

/-- A store computation behind a command. -/
theorem sat_onStore {α : Type} {m : Run Store α} {s : Served} {w : World}
    {Q : α → Served → World → Prop} {R : Panic → Prop} :
    Act.Sat (onStore m) e s w Q R ↔ Act.Sat m e s.app.store w
      (fun a t w' => Q a { s with app := { s.app with store := t } } w') R := by
  unfold onStore onApp App.onStore
  rw [Act.sat_zoom, Act.sat_zoom]

/-- The arms of a family, with what is known of each of them. -/
theorem onArms_sat {arms : Config → Arms} {s : Served} {w : World}
    {Q : Reply → Store → World → Prop} {R : Panic → Prop}
    (hunknown : (arms s.app.config).lookup name = none → Q unknownVerb s.app.store w)
    (h : ∀ handler, (name, handler) ∈ arms s.app.config →
      Act.Sat (answer (handler argv)) e s.app.store w Q R) :
    Act.Sat (onArms arms name argv) e s w
      (fun r s' w' => ∃ reply, r = .new reply ∧ s' = { s with app := { s.app with store := s'.app.store } } ∧
        Q reply s'.app.store w') R := by
  unfold onArms
  rw [Act.sat_bind, Act.sat_get, Act.sat_bind, sat_onStore]
  unfold Arms.run
  cases harm : (arms s.app.config).lookup name with
  | none => exact ⟨unknownVerb, rfl, rfl, hunknown harm⟩
  | some handler =>
    refine Act.sat_mono (h handler (mem_of_lookup harm)) ?_ (fun _ h => h)
    exact fun reply t w' hQ => ⟨reply, rfl, rfl, hQ⟩

/-- What a handler of the careful families does. -/
def Careful (e : Env) (name : String) (argv : List Bytes) (s : Store) (w : World) (r : Reply)
    (s' : Store) (w' : World) : Prop :=
  Moves e (Named name argv) s w s' w' ∧ (r.isError = true → Quiet e s w s' w')

theorem Does.careful {strict : Bool} {m : Cmd Reply}
    (h : Does strict [] (Named name argv) Reply.isError m) (s : Store) (w : World) :
    Act.Sat (answer m) e s w (fun r s' w' => Careful e name argv s w r s' w') (Allowed strict) := by
  refine Act.sat_mono (sat_answer (h e s w (typed_nil s))) ?_ (fun _ h => h)
  rintro r s' w' (h | h)
  · exact h
  · exact ⟨.of_quiet h.2, fun _ => h.2⟩

theorem Careful.ran {s s' : Store} {w w' : World} {reply : Reply}
    (h : Careful e name argv s w reply s' w') :
    Ran e name argv s w (Response.new reply).silent s' w' :=
  ⟨h.1, fun hs => (h.2 (by rwa [Blocking.silent_new] at hs)).shy⟩

theorem Keeps.ran {m : Cmd Reply} (h : Keeps (Named name argv) m) (s : Store) (w : World) :
    Act.Sat (answer m) e s w (fun r s' w' => Ran e name argv s w (Response.new r).silent s' w')
      (Allowed false) := by
  refine Act.sat_mono (sat_answer (h e s w)) ?_ (fun _ h => h)
  rintro r s' w' (h | h)
  · exact ⟨h.1, fun _ => h.2⟩
  · exact ⟨h.2.1, fun _ => h.2.2⟩

theorem zincrby_ran (s : Store) (w : World) :
    Act.Sat (answer (Zsets.zincrby argv)) e s w
      (fun r s' w' => Ran e "ZINCRBY" argv s w (Response.new r).silent s' w') (Allowed false) := by
  have hmoves := Zsets.zincrby_moves (W := fun k => 1 < argv.length ∧ k = arg argv 1)
    (fun h => ⟨h, rfl⟩) e s w
  refine Act.sat_mono (sat_answer hmoves) ?_ (fun _ h => h)
  rintro r s' w' (h | h)
  · refine ⟨h.1.mono fun k hk => hk.2 ▸ named_first rfl hk.1, fun hs k x d hx hpop => ?_⟩
    rw [Blocking.silent_new] at hs
    by_cases hk : k = arg argv 1
    · subst hk
      obtain ⟨htype, x', d', hx', htype'⟩ := h.2 hs x d hx
      exact ⟨x', d', hx', by rw [htype, htype']⟩
    · rcases h.1.kept k fun hk' => hk hk'.2 with hsame | ⟨hnone, -⟩
      · exact ⟨x, d, hsame ▸ hx, rfl⟩
      · rw [hnone] at hx
        cases hx
  · exact .of_quiet h.2

/-! ## Running a command -/

/-- A family of handlers on the keyspace. -/
theorem onArms_ran {arms : Config → Arms} (s : Served) (w : World)
    (h : ∀ handler, (name, handler) ∈ arms s.app.config → Act.Sat (answer (handler argv)) e s.app.store w
      (fun r s' w' => Ran e name argv s.app.store w (Response.new r).silent s' w') (Allowed false)) :
    Act.Sat (onArms arms name argv) e s w
      (fun r s' w' => Ran e name argv s.app.store w r.silent s'.app.store w') (Allowed false) := by
  refine Act.sat_mono (onArms_sat (fun _ => .of_quiet .refl) h) ?_ (fun _ h => h)
  rintro r s' w' ⟨reply, rfl, -, hran⟩
  exact hran

theorem Idles.ran {m : Run Served Response} (h : Idles Served.store m) (s : Served) (w : World) :
    Act.Sat m e s w (fun r s' w' => Ran e name argv s.app.store w r.silent s'.app.store w')
      (Allowed false) :=
  Act.sat_mono (h e s w) (fun _ _ _ hq => .of_quiet hq) (fun _ h => h.allowed)

/-- The blocking commands, behind `dispatch`. -/
theorem blocking_sat {strict : Bool} (client : Client) (s : Store) (w : World) :
    Act.Sat (Blocking.dispatch client name argv) e s w
      (fun r s' w' => Moves e (Named name argv) s w s' w' ∧ (r.silent = true → Quiet e s w s' w'))
      (Allowed strict) := by
  unfold Blocking.dispatch Blocking.handle
  cases harm : Blocking.arms.lookup name with
  | none => exact ⟨.refl, fun _ => .refl⟩
  | some handler =>
    rw [Act.sat_bind]
    refine Act.sat_mono (Blocking.does (mem_of_lookup harm) client argv e s w (typed_nil s)) ?_
      (fun _ h => h)
    intro r s' w' hr
    cases r with
    | ok response => exact hr
    | error reply => exact ⟨.of_quiet hr.2, fun _ => hr.2⟩

/-- **Every command but EXEC** writes the keys the key table names for it, and turns no key into a
list or a sorted set when it parks or fails. -/
theorem runWith_ran (exec : Run Served Response) (hname : name ≠ "EXEC") (s : Served) (w : World) :
    Act.Sat (runWith exec name argv) e s w
      (fun r s' w' => Ran e name argv s.app.store w r.silent s'.app.store w') (Allowed false) := by
  have hcareful : ∀ {arms : Config → Arms}, (∀ {handler}, (name, handler) ∈ arms s.app.config →
      Does false [] (Named name argv) Reply.isError (handler argv)) →
      Act.Sat (onArms arms name argv) e s w
        (fun r s' w' => Ran e name argv s.app.store w r.silent s'.app.store w') (Allowed false) :=
    fun hdoes => onArms_ran s w fun handler hmem =>
      Act.sat_mono ((hdoes hmem).careful s.app.store w) (fun _ _ _ h => h.ran) (fun _ h => h)
  unfold runWith
  split
  · exact (Server.idles name argv).ran s w
  · exact (Transactions.idles hname argv).ran s w
  · exact (PubSubs.idles name argv).ran s w
  · rw [Act.sat_bind, Act.sat_get, sat_onStore]
    refine Act.sat_mono (blocking_sat s.client s.app.store w) ?_ (fun _ h => h)
    exact fun r t w' h => ⟨h.1, fun hs => (h.2 hs).shy⟩
  · exact hcareful fun hmem => Generic.does hmem argv fun h => by cases h
  · exact hcareful fun hmem => Strings.does hmem argv
  · exact hcareful fun hmem => Lists.does hmem argv
  · exact hcareful fun hmem => Hashes.does hmem argv
  · exact hcareful fun hmem => Sets.does hmem argv
  · refine onArms_ran s w fun handler hmem => ?_
    by_cases hz : name = "ZINCRBY"
    · subst hz
      simp only [Zsets.arms, List.mem_cons, Prod.mk.injEq, List.not_mem_nil, or_false,
        String.reduceEq, false_and, true_and, false_or] at hmem
      subst hmem
      exact zincrby_ran s.app.store w
    · have hdoes : Does false [] (Named name argv) Reply.isError (handler argv) :=
        Zsets.does hmem hz argv
      exact Act.sat_mono (hdoes.careful s.app.store w) (fun _ _ _ h => h.ran) (fun _ h => h)
  · exact onArms_ran s w fun handler hmem => (Memories.keeps hmem argv).ran s.app.store w
  · exact .of_quiet .refl

/-- The families whose commands write nothing when they fail, `ZINCRBY` apart. -/
def carefulFamilies : List Family := [.generic, .string, .list, .hash, .set, .zset, .blocking]

/-- A careful command that fails, or parks, wrote nothing; of a `strict` one no `expect` fails. -/
theorem runWith_quiet {strict : Bool} (exec : Run Served Response) {group : Family}
    (hfamily : family name = some group) (hgroup : group ∈ carefulFamilies)
    (hincr : name ≠ "ZINCRBY")
    (hself : strict = true → name = "COPY" → argv.length = 3 → arg argv 1 ≠ arg argv 2)
    (s : Served) (w : World) :
    Act.Sat (runWith exec name argv) e s w
      (fun r s' w' => Moves e (Named name argv) s.app.store w s'.app.store w' ∧
        (r.silent = true → Quiet e s.app.store w s'.app.store w')) (Allowed strict) := by
  have hcareful : ∀ {arms : Config → Arms}, (∀ {handler}, (name, handler) ∈ arms s.app.config →
      Does strict [] (Named name argv) Reply.isError (handler argv)) →
      Act.Sat (onArms arms name argv) e s w
        (fun r s' w' => Moves e (Named name argv) s.app.store w s'.app.store w' ∧
          (r.silent = true → Quiet e s.app.store w s'.app.store w')) (Allowed strict) := by
    intro arms hdoes
    have hsat : ∀ handler, (name, handler) ∈ arms s.app.config →
        Act.Sat (answer (handler argv)) e s.app.store w
          (fun r t w' => Careful e name argv s.app.store w r t w') (Allowed strict) :=
      fun handler hmem => (hdoes hmem).careful s.app.store w
    refine Act.sat_mono (onArms_sat (fun _ => ⟨.refl, fun _ => .refl⟩) hsat) ?_ (fun _ h => h)
    rintro r s' w' ⟨reply, rfl, -, hc⟩
    rw [Blocking.silent_new]
    exact hc
  unfold runWith
  rw [hfamily]
  simp only [carefulFamilies, List.mem_cons, List.not_mem_nil, or_false] at hgroup
  rcases hgroup with rfl | rfl | rfl | rfl | rfl | rfl | rfl
  · exact hcareful fun hmem => Generic.does hmem argv hself
  · exact hcareful fun hmem => Strings.does hmem argv
  · exact hcareful fun hmem => Lists.does hmem argv
  · exact hcareful fun hmem => Hashes.does hmem argv
  · exact hcareful fun hmem => Sets.does hmem argv
  · exact hcareful fun hmem => Zsets.does hmem hincr argv
  · show Act.Sat (do
      let s ← Act.get
      onStore (Blocking.dispatch s.client name argv)) e s w _ _
    rw [Act.sat_bind, Act.sat_get, sat_onStore]
    exact blocking_sat s.client s.app.store w

/-! ## Before and after the handler -/

theorem signalModified_idles (key : Bytes) : Idles App.store (App.signalModified key) := by
  refine idles_bind (idles_modify fun _ => rfl) fun _ => idles_bind idles_get fun a => ?_
  refine idles_ite (idles_pure _) (idles_bind (reads_peekType key).onStore fun _ => ?_)
  exact idles_ite (idles_modify fun _ => rfl) (idles_pure _)

theorem signalWrites_idles (response : Response) : Idles App.store (signalWrites name argv response) := by
  unfold signalWrites
  refine idles_ite (idles_pure _) ?_
  split
  · exact idles_pure _
  · exact idles_modify fun _ => rfl
  · exact idles_forList signalModified_idles _

theorem countLookups_idles (before : Nat × Nat) : Idles App.store (countLookups name before) := by
  refine idles_modify fun a => ?_
  split <;> rfl

/-- Whether a client's subscriptions keep it from running a command. -/
def Client.confined (c : Client) (name : String) : Bool :=
  c.protocol == .resp2 && c.isSubscriber && !subscriberCommands.contains name

/-- What a counted command starts from. -/
def Served.counted (s : Served) : Served :=
  { s with app := { s.app with
    stats := { s.app.stats with totalCommands := s.app.stats.totalCommands + 1 } } }

/-- The rule for `execute`: refused at once, refused by the memory gate, or run and signalled. -/
theorem sat_executeWith {exec : Run Served Response} {s : Served} {w : World}
    {Q : Response → Served → World → Prop} {R : Panic → Prop}
    (hconfined : s.client.confined name = true → ∀ message, Q (.new (.error message)) s.counted w)
    (hrun : s.client.confined name = false → Act.Sat (memoryGate name) e s.counted.app w
      (fun refusal a w₁ => (∀ r, refusal = some r → Q (.new r) { s with app := a } w₁) ∧
        (refusal = none → Act.Sat (runWith exec name argv) e { s with app := a } w₁
          (fun r s₂ w₂ => ∀ stats, (readCommands.contains name = false → stats = s₂.app.stats) →
            Act.Sat (signalWrites name argv r) e { s₂.app with stats := stats } w₂
              (fun _ a' w' => Q r { s₂ with app := a' } w') R) R)) R) :
    Act.Sat (executeWith exec name argv) e s w Q R := by
  unfold executeWith
  rw [Act.sat_bind]
  show Act.Sat _ e s.counted w Q R
  rw [Act.sat_bind, Act.sat_get]
  have hcond : (s.counted.client.protocol = .resp2 ∧ s.counted.client.isSubscriber = true ∧
      name ∉ subscriberCommands) ↔ s.client.confined name = true := by
    unfold Client.confined
    simp only [Bool.and_eq_true, beq_iff_eq, Bool.not_eq_true', List.contains_eq_mem,
      decide_eq_false_iff_not, and_assoc]
    rfl
  split
  · exact hconfined (hcond.mp ‹_›) _
  · rename_i hno
    rw [hcond, Bool.not_eq_true] at hno
    rw [Act.sat_bind, onApp, Act.sat_zoom]
    refine Act.sat_mono (hrun hno) ?_ (fun _ h => h)
    rintro refusal a w₁ ⟨hrefused, hnone⟩
    cases refusal with
    | some r => exact hrefused r rfl
    | none =>
      simp only [Act.sat_bind, Act.sat_get]
      refine Act.sat_mono (hnone rfl) ?_ (fun _ h => h)
      intro r s₂ w₂ hsignal
      simp only [onApp, Act.sat_zoom, countLookups, Act.sat_modify]
      split
      · rename_i hread
        exact hsignal _ fun h => by rw [hread] at h; cases h
      · exact hsignal s₂.app.stats fun _ => rfl

theorem memoryGate_unlimited {a : App} {w : World} {Q : Option Reply → App → World → Prop}
    {R : Panic → Prop} (h : a.config.maxmemory = 0) :
    Act.Sat (memoryGate name) e a w Q R ↔ Q none a w := by
  unfold memoryGate
  rw [Act.sat_bind, Act.sat_get, if_pos h, Act.sat_pure]

/-- The rule for `execute` without a memory limit. -/
theorem sat_executeWith_unlimited {exec : Run Served Response} {s : Served} {w : World}
    {Q : Response → Served → World → Prop} {R : Panic → Prop} (hmax : s.app.config.maxmemory = 0)
    (hconfined : s.client.confined name = true → ∀ message, Q (.new (.error message)) s.counted w)
    (hrun : s.client.confined name = false →
      Act.Sat (runWith exec name argv) e s.counted w (fun r s₁ w₁ =>
        ∀ s' w', Quiet e s₁.app.store w₁ s'.app.store w' → Q r s' w') R)
    (hR : ∀ p, NoExpect p → R p) :
    Act.Sat (executeWith exec name argv) e s w Q R := by
  refine sat_executeWith hconfined fun hno => ?_
  refine (memoryGate_unlimited (a := s.counted.app) hmax).mpr ⟨fun r hr => (by cases hr), fun _ => ?_⟩
  refine Act.sat_mono (hrun hno) ?_ (fun _ h => h)
  intro r s₂ w₂ hQ stats _
  refine Act.sat_mono (signalWrites_idles r e _ w₂) ?_ hR
  exact fun _ a w' hq => hQ _ w' hq

/-! ## The write set -/

/-- While the clock stands, a key that is kept stays as it is to every lookup. -/
theorem Kept.liveAt_eq {t : SystemTime} {w w' : World} {K K' : Keyspace} {k : Bytes}
    (ht : e.StandsAt t) (h : Kept e w w' (K k) (K' k)) : K'.liveAt t k = K.liveAt t k := by
  unfold liveAt
  rcases h with h | ⟨h, i, _, _, hdue⟩
  · rw [h]
  · rw [ht i] at hdue
    rw [h, hdue]
    rfl

/-- Whether a response is a success: neither an error nor parked. -/
def Response.succeeded (r : Response) : Bool := !r.silent

end ran

/-- **The write set is sound.**  While the clock stands and there is no memory limit, a command that
neither fails nor parks changes only the keys the key table names for it. -/
theorem execute_writes_named (e : Env) (t : SystemTime) (ht : e.StandsAt t) (name : String)
    (argv : List Bytes) (hname : name ≠ "EXEC") (s : Served) (w : World)
    (hmax : s.app.config.maxmemory = 0) :
    Act.Sat (execute name argv) e s w
      (fun r s' _ => r.succeeded = true → ∀ k,
        s'.app.store.view.liveAt t k ≠ s.app.store.view.liveAt t k → Named name argv k)
      (fun _ => True) := by
  refine sat_executeWith_unlimited hmax (fun _ _ _ k hk => absurd rfl hk) (fun _ => ?_)
    (fun _ _ => trivial)
  refine Act.sat_mono (runWith_ran exec hname s.counted w) ?_ (fun _ _ => trivial)
  intro r s₁ w₁ hran s' w' hq _ k hk
  by_contra hno
  refine hk ?_
  have hkept := (hran.moves.trans (.of_quiet hq)).kept k hno
  exact hkept.liveAt_eq ht

/-- A server that was just started, and a client that just connected. -/
def freshServed : Served := { app := {}, client := { id := 1, addr := "", created := 0 } }

/-- `SET k v` on an empty keyspace. -/
theorem execute_writes_named_set :
    Act.Sat (execute "SET" [[83, 69, 84], [107], [118]]) (stillEnv 5) freshServed {}
      (fun r s' _ => r.succeeded = true ∧ s'.app.store.view.liveAt 5 [107] ≠ none ∧
        Named "SET" [[83, 69, 84], [107], [118]] [107]) (fun _ => False) := by
  have hchanged : Act.Sat (execute "SET" [[83, 69, 84], [107], [118]]) (stillEnv 5) freshServed {}
      (fun r s' _ => r.succeeded = true ∧ s'.app.store.view.liveAt 5 [107] ≠ none) (fun _ => False) := by
    decide +kernel
  have hnamed := execute_writes_named (stillEnv 5) 5 (fun _ => rfl) "SET"
    [[83, 69, 84], [107], [118]] (by decide) freshServed {} rfl
  refine Act.sat_mono (Act.sat_and hchanged hnamed) ?_ (fun _ h => h.1)
  exact fun r s' w' h => ⟨h.1.1, h.1.2, h.2 h.1.1 [107] h.1.2⟩

end Klyro
