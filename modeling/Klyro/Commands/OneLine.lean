import Klyro.Commands.Plain

/-!
# Requests are answered in one-line statuses

The families that are no handlers of keys, the blocking commands, and what runs them all.

* `Response.OneLine` — the frames of a response, and the one it leaves for a timeout.
* `runWith_plain`, `executeWith_plain` — every command, with what EXEC does of that kind.
* `dispatch_plain`, `retry_plain` — every request, queued ones and parked ones included.
-/

set_option autoImplicit false

namespace Klyro

open Act Reply

variable {name : String} {argv : List Bytes}

/-! ## Blocking commands -/

/-- A response whose frames, and what it leaves for a timeout, have only one-line statuses. -/
def Response.OneLine (r : Response) : Prop :=
  (∀ reply ∈ r.replies, reply.OneLine) ∧ ∀ block ∈ r.block, block.onTimeout.OneLine

theorem Response.oneLine_new {reply : Reply} (h : reply.OneLine) : (Response.new reply).OneLine := by
  refine ⟨fun r hr => ?_, fun _ h => (by cases h)⟩
  rcases List.mem_singleton.mp hr with rfl
  exact h

theorem Response.oneLine_frames {replies : List Reply} (h : ∀ reply ∈ replies, reply.OneLine) :
    (Response.frames replies).OneLine := ⟨h, fun _ h => (by cases h)⟩

theorem Response.oneLine_single {r : Response} (h : r.OneLine) : r.single.OneLine := by
  unfold Response.single
  cases hr : r.replies with
  | nil => trivial
  | cons reply replies => exact h.1 reply (hr ▸ List.mem_cons_self)

namespace Blocking

theorem answer_oneLine (client : Client) {found : Option Reply} (keys : List Bytes)
    (deadline : Option Instant) {onTimeout : Reply} (hfound : ∀ reply ∈ found, reply.OneLine)
    (hlate : onTimeout.OneLine) : (answer client argv found keys deadline onTimeout).OneLine := by
  unfold answer
  cases found with
  | some reply => exact Response.oneLine_new (hfound reply rfl)
  | none =>
    dsimp only
    split
    · exact Response.oneLine_new hlate
    · refine ⟨fun _ h => (by cases h), fun block hb => ?_⟩
      cases hb
      exact hlate

/-- What a pop found, as replies of one line. -/
abbrev Finds (m : Cmd (Option Reply)) : Prop := Act.ReturnsE (fun found => ∀ r ∈ found, r.OneLine) m

theorem popFirstList_finds (side : Lists.End) (keys : List Bytes) : Finds (popFirstList side keys) := by
  induction keys with
  | nil => exact returnsE_pure fun _ h => by cases h
  | cons key keys ih =>
    refine returnsE_bind fun _ => returnsE_bind fun value => ?_
    cases value with
    | none => exact ih
    | some value =>
      refine returnsE_pure fun r hr => ?_
      cases hr
      exact oneLine_array (by simp [OneLine])

theorem mpopLists_finds (side : Lists.End) (count : Nat) (keys : List Bytes) :
    Finds (mpopLists side count keys) := by
  induction keys with
  | nil => exact returnsE_pure fun _ h => by cases h
  | cons key keys ih =>
    refine returnsE_bind fun _ => returnsE_bind fun popped => returnsE_ite (returnsE_pure ?_) ih
    intro r hr
    cases hr
    exact oneLine_array (by simp [OneLine, oneLine_bulkArray])

theorem popFirstZset_finds (edge : Edge) (keys : List Bytes) : Finds (popFirstZset edge keys) := by
  induction keys with
  | nil => exact returnsE_pure fun _ h => by cases h
  | cons key keys ih =>
    refine returnsE_bind fun _ => returnsE_bind fun popped => ?_
    cases popped with
    | nil => exact ih
    | cons p popped =>
      refine returnsE_pure fun r hr => ?_
      cases hr
      exact oneLine_array (by simp [OneLine])

theorem mpopZsets_finds (edge : Edge) (count : Nat) (keys : List Bytes) :
    Finds (mpopZsets edge count keys) := by
  induction keys with
  | nil => exact returnsE_pure fun _ h => by cases h
  | cons key keys ih =>
    refine returnsE_bind fun _ => returnsE_bind fun popped => returnsE_ite (returnsE_pure ?_) ih
    intro r hr
    cases hr
    have hpairs : (Reply.array (popped.map fun p => .array [.bulk p.1, .double p.2])).OneLine := by
      refine oneLine_array fun item hitem => ?_
      obtain ⟨p, -, rfl⟩ := List.mem_map.mp hitem
      exact oneLine_array (by simp [OneLine])
    exact oneLine_array (by simpa [OneLine] using hpairs)

theorem oneLine_getD {found : Option Reply} (h : ∀ r ∈ found, r.OneLine) :
    (found.getD .nilArray).OneLine := by
  cases found with
  | none => trivial
  | some r => exact h r rfl

theorem plain {handler : Client → List Bytes → Cmd Response} (h : (name, handler) ∈ arms)
    (client : Client) (argv : List Bytes) : Act.ReturnsE Response.OneLine (handler client argv) := by
  have hmove : ∀ ends timeout, Act.ReturnsE Response.OneLine (blockingMove client argv ends timeout) := by
    refine fun ends timeout => returnsE_bind fun _ => returnsE_bind fun _ => returnsE_bind fun _ =>
      returnsE_bind fun found => returnsE_pure (answer_oneLine _ _ _ ?_ trivial)
    intro r hr
    obtain ⟨value, -, rfl⟩ := Option.mem_map.mp hr
    trivial
  have hpop : ∀ name side, Act.ReturnsE Response.OneLine (blpop name side client argv) := fun name side =>
    returnsE_bind fun _ => returnsE_bind fun _ => returnsE_bind_of (popFirstList_finds side _)
      fun _ h => returnsE_pure (answer_oneLine _ _ _ h trivial)
  have hzpop : ∀ name edge, Act.ReturnsE Response.OneLine (bzpop name edge client argv) := fun name edge =>
    returnsE_bind fun _ => returnsE_bind fun _ => returnsE_bind_of (popFirstZset_finds edge _)
      fun _ h => returnsE_pure (answer_oneLine _ _ _ h trivial)
  simp only [arms, List.mem_cons, Prod.mk.injEq, List.not_mem_nil, or_false] at h
  rcases h with ⟨-, rfl⟩ | ⟨-, rfl⟩ | ⟨-, rfl⟩ | ⟨-, rfl⟩ | ⟨-, rfl⟩ | ⟨-, rfl⟩ | ⟨-, rfl⟩ |
    ⟨-, rfl⟩ | ⟨-, rfl⟩ | ⟨-, rfl⟩
  · exact hpop _ _
  · exact hpop _ _
  · exact returnsE_bind fun _ => returnsE_bind fun _ => hmove _ _
  · exact returnsE_bind fun _ => hmove _ _
  · exact returnsE_bind fun _ => returnsE_bind fun _ => returnsE_bind fun side => returnsE_bind_of
      (mpopLists_finds side _ _) fun _ h => returnsE_pure (Response.oneLine_new (oneLine_getD h))
  · exact returnsE_bind fun _ => returnsE_bind fun _ => returnsE_bind fun _ => returnsE_bind fun side =>
      returnsE_bind_of (mpopLists_finds side _ _) fun _ h =>
        returnsE_pure (answer_oneLine _ _ _ h trivial)
  · exact hzpop _ _
  · exact hzpop _ _
  · exact returnsE_bind fun _ => returnsE_bind fun _ => returnsE_bind fun edge => returnsE_bind_of
      (mpopZsets_finds edge _ _) fun _ h => returnsE_pure (Response.oneLine_new (oneLine_getD h))
  · exact returnsE_bind fun _ => returnsE_bind fun _ => returnsE_bind fun _ => returnsE_bind fun edge =>
      returnsE_bind_of (mpopZsets_finds edge _ _) fun _ h =>
        returnsE_pure (answer_oneLine _ _ _ h trivial)

theorem dispatch_plain (client : Client) (name : String) (argv : List Bytes) :
    Act.Returns Response.OneLine (dispatch client name argv) := by
  intro e s w
  unfold dispatch handle
  cases harm : arms.lookup name with
  | none => exact Response.oneLine_new trivial
  | some handler =>
    have hmem := mem_of_lookup harm
    rw [Act.sat_bind]
    refine Act.sat_mono (Act.sat_and (Does.stops (does hmem client argv) e s w)
      (plain hmem client argv e s w)) ?_ (fun _ h => h.1)
    rintro r s' w' ⟨herror, hplain⟩
    cases r with
    | ok response => exact hplain response rfl
    | error reply => exact Response.oneLine_new (oneLine_of_isError herror)

end Blocking

/-! ## The families behind no handler -/

theorem Response.oneLine_answered {m : Run Served Unit} {reply : Reply} (h : reply.OneLine) :
    Act.Returns Response.OneLine (Transactions.answered reply m) :=
  returns_bind fun _ => returns_pure (oneLine_new h)

namespace Server

theorem config_plain : Act.Returns Reply.OneLine (config argv) := by
  refine returns_ite (returns_pure trivial) ?_
  split
  · refine returns_ite (returns_pure trivial) (returns_bind fun a => returns_pure ?_)
    refine oneLine_map fun p hp => ?_
    obtain ⟨name, -, hname⟩ := List.mem_filterMap.mp hp
    obtain ⟨value, -, rfl⟩ := Option.map_eq_some_iff.mp hname
    exact ⟨trivial, trivial⟩
  · refine returns_ite (returns_pure trivial) (returns_bind fun a => returns_bind fun _ => ?_)
    split
    · exact returns_pure oneLine_ok
    · exact returns_pure trivial
    · exact returns_pure trivial
  · exact returns_bind fun _ => returns_pure oneLine_ok
  · exact returns_pure trivial

theorem clientCommand_plain : Act.Returns Reply.OneLine (clientCommand argv) := by
  refine returns_ite (returns_pure trivial) (returns_bind fun c => ?_)
  split
  · exact returns_pure trivial
  · refine returns_pure ?_
    split <;> trivial
  · refine returns_ite (returns_pure trivial) (returns_ite (returns_pure trivial) ?_)
    exact returns_bind fun _ => returns_pure oneLine_ok
  · refine returns_pure ?_
    split
    · trivial
    · exact oneLine_ok
  · exact returns_bind fun _ => returns_pure trivial
  · exact returns_pure trivial

theorem oneLine_hello (client : Client) (argv : List Bytes) : (hello client argv).OneLine := by
  unfold hello
  split
  · trivial
  · simp [text, OneLine, OneLinePairs, OneLineItems]

theorem plain {handler : List Bytes → Run Served Reply} (h : (name, handler) ∈ arms)
    (argv : List Bytes) : Act.Returns Reply.OneLine (handler argv) := by
  simp only [arms, List.mem_cons, Prod.mk.injEq, List.not_mem_nil, or_false] at h
  rcases h with ⟨-, rfl⟩ | ⟨-, rfl⟩ | ⟨-, rfl⟩ | ⟨-, rfl⟩ | ⟨-, rfl⟩ | ⟨-, rfl⟩ | ⟨-, rfl⟩ |
    ⟨-, rfl⟩ | ⟨-, rfl⟩ | ⟨-, rfl⟩
  · refine returns_pure ?_
    split
    · unfold OneLine
      decide
    · trivial
    · trivial
  · refine returns_pure ?_
    split <;> trivial
  · exact returns_bind fun s => returns_pure (oneLine_hello s.client argv)
  · exact returns_zoom clientCommand_plain
  · exact returns_pure (oneLine_array fun _ h => (by cases h))
  · exact returns_zoom (returns_ite (returns_pure trivial) (returns_bind fun _ => returns_pure trivial))
  · exact returns_zoom config_plain
  · refine returns_bind fun saved => returns_pure ?_
    split
    · exact oneLine_ok
    · trivial
  · exact returns_pure oneLine_ok
  · exact returns_bind fun _ => returns_pure oneLine_ok

theorem dispatch_plain : Act.Returns Response.OneLine (dispatch name argv) := by
  unfold dispatch
  have hreply : ∀ {reply : Reply}, reply.OneLine → Act.Returns Response.OneLine (σ := Served) (ε := Env)
      (κ := World) (pure { replies := [reply]
                           close := name = "QUIT" || name = "SHUTDOWN"
                           protocol := switchedProtocol name argv reply }) := by
    refine fun h => returns_pure ⟨fun r hr => ?_, fun _ h => (by cases h)⟩
    rcases List.mem_singleton.mp hr with rfl
    exact h
  cases harm : arms.lookup name with
  | none => exact hreply trivial
  | some handler => exact returns_bind_of (plain (mem_of_lookup harm) argv) fun _ h => hreply h

end Server

namespace PubSubs

theorem oneLine_confirmation (kind : String) {name : Reply} (h : name.OneLine) (client : Client) :
    (confirmation kind name client).OneLine := by
  refine oneLine_pushed kind fun item hitem => ?_
  simp only [List.mem_cons, List.not_mem_nil, or_false] at hitem
  rcases hitem with rfl | rfl
  · exact h
  · trivial

theorem confirmed_plain (kind : String) (change : Bytes → Served → Served) (name : Bytes) :
    Act.Returns Reply.OneLine (confirmed kind change name) :=
  returns_bind fun _ => returns_bind fun s => returns_pure
    (oneLine_confirmation kind (by trivial) s.client)

theorem subscribe_plain (patterns : Bool) (names : List Bytes) :
    Act.Returns Response.OneLine (Response.frames <$> subscribe patterns names) := by
  intro e s w
  rw [Act.sat_map]
  refine Act.sat_mono (returns_mapList (confirmed_plain _ _) names e s w) ?_ (fun _ h => h)
  exact fun _ _ _ h => Response.oneLine_frames h

theorem unsubscribe_plain (patterns : Bool) (names : List Bytes) :
    Act.Returns Response.OneLine (Response.frames <$> unsubscribe patterns names) := by
  intro e s w
  rw [Act.sat_map]
  have hframes : Act.Returns (fun frames => ∀ reply ∈ frames, reply.OneLine)
      (unsubscribe patterns names) := by
    refine returns_bind fun t => returns_ite (returns_pure fun reply hr => ?_)
      (returns_mapList (confirmed_plain _ _) _)
    rcases List.mem_singleton.mp hr with rfl
    exact oneLine_confirmation _ (by trivial) _
  exact Act.sat_mono (hframes e s w) (fun _ _ _ h => Response.oneLine_frames h) (fun _ h => h)

/-- Every frame of a publication is one of the two message frames. -/
theorem oneLine_delivery {p : PubSub} {channel payload : Bytes} {d : Delivery}
    (h : d ∈ p.publish channel payload) : d.frame.OneLine := by
  unfold PubSub.publish at h
  rcases List.mem_append.mp h with h | h
  · obtain ⟨id, -, rfl⟩ := List.mem_map.mp h
    exact oneLine_pushed "message" (by simp [OneLine])
  · obtain ⟨q, -, h⟩ := List.mem_flatMap.mp h
    obtain ⟨id, -, rfl⟩ := List.mem_map.mp h
    exact oneLine_pushed "pmessage" (by simp [OneLine])

theorem publish_plain (channel payload : Bytes) :
    Act.Returns Response.OneLine (publish channel payload) := by
  refine returns_bind fun s => returns_bind fun _ => returns_pure (Response.oneLine_frames ?_)
  intro reply hr
  rcases List.mem_append.mp hr with hr | hr
  · obtain ⟨d, hd, rfl⟩ := List.mem_map.mp hr
    exact oneLine_delivery (List.mem_filter.mp hd).1
  · rcases List.mem_singleton.mp hr with rfl
    trivial

theorem oneLine_introspect (pubsub : PubSub) (argv : List Bytes) : (introspect pubsub argv).OneLine := by
  unfold introspect
  split
  · split
    · exact oneLine_bulkArray _
    · exact oneLine_bulkArray _
    · trivial
  · refine oneLine_map fun p hp => ?_
    obtain ⟨channel, -, rfl⟩ := List.mem_map.mp hp
    exact ⟨trivial, trivial⟩
  · trivial
  · trivial

theorem dispatch_plain : Act.Returns Response.OneLine (dispatch name argv) := by
  have harity : ∀ command, Act.Returns Response.OneLine (σ := Served) (ε := Env) (κ := World)
      (pure (.new (.wrongArity command))) := fun _ => returns_pure (Response.oneLine_new trivial)
  unfold dispatch
  cases harm : arms.lookup name with
  | none => exact returns_pure (Response.oneLine_new trivial)
  | some arm =>
    have hmem := mem_of_lookup harm
    simp only [arms, List.mem_cons, Prod.mk.injEq, List.not_mem_nil, or_false] at hmem
    rcases hmem with ⟨-, rfl⟩ | ⟨-, rfl⟩ | ⟨-, rfl⟩ | ⟨-, rfl⟩ | ⟨-, rfl⟩ | ⟨-, rfl⟩
    · exact returns_ite (harity _) (subscribe_plain _ _)
    · exact returns_ite (harity _) (subscribe_plain _ _)
    · exact unsubscribe_plain _ _
    · exact unsubscribe_plain _ _
    · exact returns_ite (harity _) (publish_plain _ _)
    · exact returns_ite (harity _) (returns_bind fun s => returns_pure
        (Response.oneLine_new (oneLine_introspect s.app.pubsub argv)))

end PubSubs

namespace Transactions

theorem oneLine_collected {responses : List Response} (h : ∀ r ∈ responses, r.OneLine) :
    (collected responses).OneLine := by
  refine ⟨fun reply hr => ?_, fun _ h => (by cases h)⟩
  rcases List.mem_singleton.mp hr with rfl
  refine oneLine_array fun item hitem => ?_
  obtain ⟨r, hr, rfl⟩ := List.mem_map.mp hitem
  exact Response.oneLine_single (h r hr)

theorem exec_plain {runQueued : List (List Bytes) → Run Served (List Response)}
    (h : ∀ queued, Act.Returns (fun responses => ∀ r ∈ responses, r.OneLine) (runQueued queued)) :
    Act.Returns Response.OneLine (exec runQueued) := by
  refine returns_bind fun s => ?_
  cases s.client.transaction with
  | none => exact returns_pure (Response.oneLine_new trivial)
  | some transaction =>
    refine returns_bind fun _ => returns_bind fun _ => ?_
    refine returns_ite (returns_pure (Response.oneLine_new trivial))
      (returns_ite (returns_pure (Response.oneLine_new trivial)) ?_)
    exact returns_bind fun _ => returns_bind fun _ => returns_bind_of (h _) fun _ hall =>
      returns_bind fun _ => returns_pure (oneLine_collected hall)

theorem dispatch_plain {exec : Run Served Response} (hexec : Act.Returns Response.OneLine exec) :
    Act.Returns Response.OneLine (dispatch exec name argv) := by
  have herror : ∀ {reply : Reply}, reply.OneLine → Act.Returns Response.OneLine (σ := Served) (ε := Env)
      (κ := World) (pure (.new reply)) := fun h => returns_pure (Response.oneLine_new h)
  have hreset : (Reply.simple "RESET").OneLine := by
    unfold OneLine
    decide
  unfold dispatch
  cases harm : (arms exec).lookup name with
  | none => exact herror trivial
  | some arm =>
    have hmem := mem_of_lookup harm
    simp only [arms, List.mem_cons, Prod.mk.injEq, List.not_mem_nil, or_false] at hmem
    rcases hmem with ⟨-, rfl⟩ | ⟨-, rfl⟩ | ⟨-, rfl⟩ | ⟨-, rfl⟩ | ⟨-, rfl⟩ | ⟨-, rfl⟩
    · exact returns_bind fun _ => returns_ite (herror trivial)
        (returns_ite (herror trivial) (Response.oneLine_answered oneLine_ok))
    · exact returns_bind fun _ => returns_ite (herror trivial)
        (returns_ite (herror trivial) (Response.oneLine_answered oneLine_ok))
    · exact returns_bind fun _ => returns_ite (herror trivial)
        (returns_ite (herror trivial) (Response.oneLine_answered oneLine_ok))
    · exact returns_ite (herror trivial) (Response.oneLine_answered oneLine_ok)
    · exact returns_ite (herror trivial) hexec
    · exact Response.oneLine_answered hreset

theorem queue_plain : Act.Returns Response.OneLine (queue name argv) := by
  have hqueued : (Reply.simple "QUEUED").OneLine := by
    unfold OneLine
    decide
  refine returns_bind fun c => returns_bind fun transaction => ?_
  cases hr : refusal name argv with
  | none => exact returns_bind fun _ => returns_pure (Response.oneLine_new hqueued)
  | some error =>
    refine returns_bind fun _ => returns_pure (Response.oneLine_new ?_)
    unfold refusal at hr
    split at hr
    · cases hr
      trivial
    · split at hr
      · cases hr
        trivial
      · cases hr

end Transactions

/-! ## Requests -/

theorem onArms_plain {arms : Config → Arms} (h : ∀ config handler, (name, handler) ∈ arms config →
    Stops (handler argv) ∧ Plain (handler argv)) :
    Act.Returns Response.OneLine (onArms arms name argv) := by
  refine returns_bind fun s => returns_bind_of (Q := Reply.OneLine)
    (returns_zoom (returns_zoom ?_)) fun _ h => returns_pure (Response.oneLine_new h)
  unfold Arms.run
  cases harm : (arms s.app.config).lookup name with
  | none => exact fun _ _ _ => trivial
  | some handler =>
    obtain ⟨hfail, hok⟩ := h s.app.config handler (mem_of_lookup harm)
    exact answer_plain hfail hok

theorem runWith_plain {exec : Run Served Response} (hexec : Act.Returns Response.OneLine exec) :
    Act.Returns Response.OneLine (runWith exec name argv) := by
  unfold runWith
  split
  · exact Server.dispatch_plain
  · exact Transactions.dispatch_plain hexec
  · exact PubSubs.dispatch_plain
  · exact returns_bind fun s => returns_zoom (returns_zoom (Blocking.dispatch_plain s.client name argv))
  · exact onArms_plain fun _ _ h =>
      ⟨Does.stops (Generic.does h argv fun h => by cases h), Generic.plain h argv⟩
  · exact onArms_plain fun _ _ h => ⟨Does.stops (Strings.does h argv), Strings.plain h argv⟩
  · exact onArms_plain fun _ _ h => ⟨Does.stops (Lists.does h argv), Lists.plain h argv⟩
  · exact onArms_plain fun _ _ h => ⟨Does.stops (Hashes.does h argv), Hashes.plain h argv⟩
  · exact onArms_plain fun _ _ h => ⟨Does.stops (Sets.does h argv), Sets.plain h argv⟩
  · refine onArms_plain fun config handler h => ⟨?_, Zsets.plain h argv⟩
    by_cases hz : name = "ZINCRBY"
    · subst hz
      simp only [Zsets.arms, List.mem_cons, Prod.mk.injEq, List.not_mem_nil, or_false,
        String.reduceEq, false_and, true_and, false_or] at h
      subst h
      exact zincrby_stops
    · exact Does.stops (Zsets.does h hz argv)
  · exact onArms_plain fun _ _ h => ⟨(Memories.keeps h argv).stops, Memories.plain h argv⟩
  · exact returns_pure (Response.oneLine_new trivial)

theorem memoryGate_plain : Act.Returns (fun refusal => ∀ r ∈ refusal, r.OneLine) (memoryGate name) := by
  refine returns_bind fun a => returns_ite (returns_pure fun _ h => by cases h) ?_
  refine returns_bind fun fits => returns_pure fun r hr => ?_
  split at hr
  · cases hr
  · cases hr
    trivial

theorem executeWith_plain {exec : Run Served Response} (hexec : Act.Returns Response.OneLine exec) :
    Act.Returns Response.OneLine (executeWith exec name argv) := by
  refine returns_bind fun _ => returns_bind fun s => returns_ite
    (returns_pure (Response.oneLine_new trivial)) ?_
  refine returns_bind_of (returns_zoom memoryGate_plain) fun refusal hrefusal => ?_
  cases refusal with
  | some refusal => exact returns_pure (Response.oneLine_new (hrefusal refusal rfl))
  | none =>
    exact returns_bind fun _ => returns_bind_of (runWith_plain hexec) fun _ h =>
      returns_bind fun _ => returns_bind fun _ => returns_pure h

theorem exec_plain : Act.Returns Response.OneLine exec :=
  Transactions.exec_plain fun queued => returns_mapList (fun _ => executeWith_plain
    (Transactions.exec_plain fun _ => returns_pure fun _ h => by cases h)) queued

/-- **Whatever a client asks, the answer has only one-line statuses**, a parked one included. -/
theorem dispatch_plain (argv : List Bytes) :
    Act.Returns (fun response => ∀ r ∈ response, r.OneLine) (dispatch argv) := by
  have hsome : ∀ {r : Response}, r.OneLine → ∀ r' ∈ some r, r'.OneLine := by
    intro r h r' hr'
    cases hr'
    exact h
  refine returns_ite (returns_pure fun _ h => by cases h) (returns_bind fun s => returns_ite ?_ ?_)
  · exact returns_bind_of (returns_zoom Transactions.queue_plain) fun _ h => returns_pure (hsome h)
  · exact returns_bind_of (executeWith_plain exec_plain) fun _ h => returns_pure (hsome h)

theorem retry_plain (argv : List Bytes) :
    Act.Returns (fun reply => ∀ r ∈ reply, r.OneLine) (retry argv) := by
  refine returns_bind_of (executeWith_plain exec_plain) fun response h => returns_bind fun _ =>
    returns_pure fun r hr => ?_
  split at hr
  · cases hr
  · cases hr
    exact Response.oneLine_single h

end Klyro
