import Klyro.Commands.Execute

/-!
# Who is parked

* `Parks c argv` — a response that parks nobody, or the client `c` for the command `argv`, outside a
  transaction.
* `executeWith_parks`, `dispatch_parks` — every response is of that kind.
-/

set_option autoImplicit false

namespace Klyro

open Served

/-- Whom a response parks, and for what. -/
def Parks (c : Client) (argv : List Bytes) (r : Response) : Prop :=
  ∀ block ∈ r.block, block.id = c.id ∧ block.argv = argv ∧ c.inExec = false

variable {c : Client} {argv : List Bytes} {name : String}

theorem Parks.of_none {r : Response} (h : r.block = none) : Parks c argv r := by
  intro block hb
  rw [h] at hb
  cases hb

/-! ## Blocking commands -/

namespace Blocking

theorem parks_answer (found : Option Reply) (keys : List Bytes) (deadline : Option Instant)
    (onTimeout : Reply) : Parks c argv (answer c argv found keys deadline onTimeout) := by
  cases found with
  | some reply => exact .of_none rfl
  | none =>
    unfold answer
    cases hexec : c.inExec with
    | true => exact .of_none rfl
    | false =>
      intro block hb
      cases hb
      exact ⟨rfl, rfl, hexec⟩

theorem returns_blpop (name : String) (side : Lists.End) :
    Act.ReturnsE (Parks c argv) (blpop name side c argv) :=
  Act.returnsE_bind fun _ => Act.returnsE_bind fun _ => Act.returnsE_bind fun _ =>
    Act.returnsE_pure (parks_answer _ _ _ _)

theorem returns_bzpop (name : String) (edge : Edge) :
    Act.ReturnsE (Parks c argv) (bzpop name edge c argv) :=
  Act.returnsE_bind fun _ => Act.returnsE_bind fun _ => Act.returnsE_bind fun _ =>
    Act.returnsE_pure (parks_answer _ _ _ _)

theorem returns_blockingMove (ends : Lists.End × Lists.End) (timeout : Bytes) :
    Act.ReturnsE (Parks c argv) (blockingMove c argv ends timeout) :=
  Act.returnsE_bind fun _ => Act.returnsE_bind fun _ => Act.returnsE_bind fun _ =>
    Act.returnsE_bind fun _ => Act.returnsE_pure (parks_answer _ _ _ _)

theorem returns_arm {handler : Client → List Bytes → Cmd Response} (h : (name, handler) ∈ arms) :
    Act.ReturnsE (Parks c argv) (handler c argv) := by
  simp only [arms, List.mem_cons, Prod.mk.injEq, List.not_mem_nil, or_false] at h
  rcases h with ⟨-, rfl⟩ | ⟨-, rfl⟩ | ⟨-, rfl⟩ | ⟨-, rfl⟩ | ⟨-, rfl⟩ | ⟨-, rfl⟩ | ⟨-, rfl⟩ |
    ⟨-, rfl⟩ | ⟨-, rfl⟩ | ⟨-, rfl⟩
  · exact returns_blpop _ _
  · exact returns_blpop _ _
  · exact Act.returnsE_bind fun _ => Act.returnsE_bind fun _ => returns_blockingMove _ _
  · exact Act.returnsE_bind fun _ => returns_blockingMove _ _
  · exact Act.returnsE_bind fun _ => Act.returnsE_bind fun _ => Act.returnsE_bind fun _ =>
      Act.returnsE_bind fun _ => Act.returnsE_pure (.of_none rfl)
  · exact Act.returnsE_bind fun _ => Act.returnsE_bind fun _ => Act.returnsE_bind fun _ =>
      Act.returnsE_bind fun _ => Act.returnsE_bind fun _ => Act.returnsE_pure (parks_answer _ _ _ _)
  · exact returns_bzpop _ _
  · exact returns_bzpop _ _
  · exact Act.returnsE_bind fun _ => Act.returnsE_bind fun _ => Act.returnsE_bind fun _ =>
      Act.returnsE_bind fun _ => Act.returnsE_pure (.of_none rfl)
  · exact Act.returnsE_bind fun _ => Act.returnsE_bind fun _ => Act.returnsE_bind fun _ =>
      Act.returnsE_bind fun _ => Act.returnsE_bind fun _ => Act.returnsE_pure (parks_answer _ _ _ _)

theorem returns_dispatch : Act.Returns (Parks c argv) (dispatch c name argv) := by
  have hhandle : Act.ReturnsE (Parks c argv) (handle c name argv) := by
    unfold handle
    cases harm : arms.lookup name with
    | none => exact Act.returnsE_pure (.of_none rfl)
    | some handler => exact returns_arm (mem_of_lookup harm)
  intro e s w
  unfold dispatch
  rw [Act.sat_bind]
  refine Act.sat_mono (hhandle e s w) ?_ (fun _ h => h)
  intro r s' w' hr
  cases r with
  | ok response => exact hr response rfl
  | error reply => exact .of_none rfl

end Blocking

/-! ## The other families -/

/-- Nobody is parked. -/
abbrev Awake {σ : Type} (m : Run σ Response) : Prop := Act.Returns (fun r => r.block = none) m

theorem Server.awake : Awake (Server.dispatch name argv) := by
  unfold Server.dispatch
  cases Server.arms.lookup name with
  | none => exact Act.returns_pure rfl
  | some handler => exact Act.returns_bind fun _ => Act.returns_pure rfl

theorem PubSubs.awake : Awake (PubSubs.dispatch name argv) := by
  unfold PubSubs.dispatch
  cases harm : PubSubs.arms.lookup name with
  | none => exact Act.returns_pure rfl
  | some arm =>
    have hmem := mem_of_lookup harm
    simp only [PubSubs.arms, List.mem_cons, Prod.mk.injEq, List.not_mem_nil, or_false] at hmem
    rcases hmem with ⟨-, rfl⟩ | ⟨-, rfl⟩ | ⟨-, rfl⟩ | ⟨-, rfl⟩ | ⟨-, rfl⟩ | ⟨-, rfl⟩
    · exact Act.returns_ite (Act.returns_pure rfl) (Act.returns_map fun _ => rfl)
    · exact Act.returns_ite (Act.returns_pure rfl) (Act.returns_map fun _ => rfl)
    · exact Act.returns_map fun _ => rfl
    · exact Act.returns_map fun _ => rfl
    · exact Act.returns_ite (Act.returns_pure rfl)
        (Act.returns_bind fun _ => Act.returns_bind fun _ => Act.returns_pure rfl)
    · exact Act.returns_ite (Act.returns_pure rfl)
        (Act.returns_bind fun _ => Act.returns_pure rfl)

namespace Transactions

theorem exec_awake (runQueued : List (List Bytes) → Run Served (List Response)) :
    Awake (exec runQueued) := by
  refine Act.returns_bind fun s => ?_
  cases s.client.transaction with
  | none => exact Act.returns_pure rfl
  | some transaction =>
    refine Act.returns_bind fun _ => Act.returns_bind fun _ => ?_
    refine Act.returns_ite (Act.returns_pure rfl) (Act.returns_ite (Act.returns_pure rfl) ?_)
    exact Act.returns_bind fun _ => Act.returns_bind fun _ => Act.returns_bind fun _ =>
      Act.returns_bind fun _ => Act.returns_pure rfl

theorem answered_awake (reply : Reply) (m : Run Served Unit) : Awake (answered reply m) :=
  Act.returns_bind fun _ => Act.returns_pure rfl

theorem awake {exec : Run Served Response} (hexec : Awake exec) : Awake (dispatch exec name argv) := by
  unfold dispatch
  cases harm : (arms exec).lookup name with
  | none => exact Act.returns_pure rfl
  | some arm =>
    have hmem := mem_of_lookup harm
    simp only [arms, List.mem_cons, Prod.mk.injEq, List.not_mem_nil, or_false] at hmem
    rcases hmem with ⟨-, rfl⟩ | ⟨-, rfl⟩ | ⟨-, rfl⟩ | ⟨-, rfl⟩ | ⟨-, rfl⟩ | ⟨-, rfl⟩
    · exact Act.returns_bind fun _ => Act.returns_ite (Act.returns_pure rfl)
        (Act.returns_ite (Act.returns_pure rfl) (answered_awake _ _))
    · exact Act.returns_bind fun _ => Act.returns_ite (Act.returns_pure rfl)
        (Act.returns_ite (Act.returns_pure rfl) (answered_awake _ _))
    · exact Act.returns_bind fun _ => Act.returns_ite (Act.returns_pure rfl)
        (Act.returns_ite (Act.returns_pure rfl) (answered_awake _ _))
    · exact Act.returns_ite (Act.returns_pure rfl) (answered_awake _ _)
    · exact Act.returns_ite (Act.returns_pure rfl) hexec
    · exact answered_awake _ _

theorem queue_awake : Awake (queue name argv) := by
  refine Act.returns_bind fun c => Act.returns_bind fun transaction => ?_
  cases refusal name argv with
  | none => exact Act.returns_bind fun _ => Act.returns_pure rfl
  | some error => exact Act.returns_bind fun _ => Act.returns_pure rfl

end Transactions

/-! ## Requests -/

theorem onArms_awake (arms : Config → Arms) : Awake (onArms arms name argv) :=
  Act.returns_bind fun _ => Act.returns_bind fun _ => Act.returns_pure rfl

/-- Only a blocking command parks. -/
theorem runWith_awake {exec : Run Served Response} (hexec : Awake exec)
    (hfamily : family name ≠ some .blocking) : Awake (runWith exec name argv) := by
  unfold runWith
  split
  · exact Server.awake
  · exact Transactions.awake hexec
  · exact PubSubs.awake
  · contradiction
  · exact onArms_awake _
  · exact onArms_awake _
  · exact onArms_awake _
  · exact onArms_awake _
  · exact onArms_awake _
  · exact onArms_awake _
  · exact onArms_awake _
  · exact Act.returns_pure rfl

theorem runWith_parks {exec : Run Served Response} (hexec : Awake exec) (e : Env) (s : Served)
    (w : World) : Act.Sat (runWith exec name argv) e s w (fun r _ _ => Parks s.client argv r)
      (fun _ => True) := by
  by_cases hfamily : family name = some .blocking
  · unfold runWith
    rw [hfamily]
    dsimp only
    rw [Act.sat_bind, Act.sat_get]
    exact Act.returns_zoom (Act.returns_zoom Blocking.returns_dispatch) e s w
  · exact Act.sat_mono (runWith_awake hexec hfamily e s w) (fun _ _ _ h => .of_none h) (fun _ h => h)

theorem executeWith_parks {exec : Run Served Response} (hexec : Awake exec) (e : Env) (s : Served)
    (w : World) : Act.Sat (executeWith exec name argv) e s w (fun r _ _ => Parks s.client argv r)
      (fun _ => True) := by
  refine sat_executeWith (fun _ _ => .of_none rfl) fun _ => ?_
  refine Act.sat_mono (Act.sat_true _) ?_ (fun _ h => h)
  intro refusal a w' _
  refine ⟨fun _ _ => .of_none rfl, fun _ => ?_⟩
  refine Act.sat_mono (runWith_parks hexec e { s with app := a } w') ?_ (fun _ h => h)
  intro r s' w'' hr stats _
  exact Act.sat_mono (Act.sat_true _) (fun _ _ _ _ => hr) (fun _ h => h)

theorem exec_awake : Awake exec := Transactions.exec_awake _

/-- **A request parks at most the client it is from**, for that request. -/
theorem dispatch_parks (e : Env) (s : Served) (w : World) :
    Act.Sat (dispatch argv) e s w (fun r _ _ => ∀ response ∈ r, Parks s.client argv response)
      (fun _ => True) := by
  unfold dispatch
  rw [Act.sat_ite]
  refine ⟨fun _ => fun _ h => (by cases h), fun _ => ?_⟩
  dsimp only
  rw [Act.sat_bind, Act.sat_get, Act.sat_ite]
  refine ⟨fun _ => ?_, fun _ => ?_⟩
  · rw [Act.sat_bind]
    refine Act.sat_mono (Act.returns_zoom Transactions.queue_awake e s w) ?_ (fun _ h => h)
    intro r s' w' hr response hresponse
    cases hresponse
    exact .of_none hr
  · rw [Act.sat_bind]
    refine Act.sat_mono (executeWith_parks exec_awake e s w) ?_ (fun _ h => h)
    intro r s' w' hr response hresponse
    cases hresponse
    exact hr

end Klyro
