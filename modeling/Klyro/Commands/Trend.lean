import Klyro.Commands.Dispatch
import Klyro.Commands.Keeps
import Klyro.Store.Marks
import Klyro.Store.Payload

/-!
# Which way a command moves the keyspace

* `Lookups P`, `Drains P` — relations between keyspaces that allow lookups, and also every
  operation that only takes away.  `Shrinks` and `Marked` allow both.
* `Trend name m` — a handler reads, drains or fills: reads are lookups, drains take away, and only
  what the server refuses when it is out of memory fills.
* `withinE_*` — the rules a handler is read with.
-/

set_option autoImplicit false

namespace Klyro

open Store

/-- A relation that allows lookups. -/
class Lookups (P : Store → Store → Prop) : Prop extends IsPreorder Store P where
  of_glances : ∀ {s s'}, Glances s s' → P s s'

/-- A relation that allows what only takes away. -/
class Drains (P : Store → Store → Prop) : Prop extends Lookups P where
  del : ∀ key, Act.Within P (Store.del key)
  setExpireAt : ∀ key deadline, Act.Within P (Store.setExpireAt key deadline)
  deleteIfEmpty : ∀ key, Act.Within P (Store.deleteIfEmpty key)
  evict : ∀ key, Act.Within P (Store.evict key)
  flush : Act.Within P Store.flush
  write : ∀ {τ α : Type} {V : Variant τ} {use : Run τ α}, Act.Within (Lighter V) use → ∀ key,
    Act.Within P (Store.write V key use)

instance : Lookups Glances where
  of_glances h := h

instance : Drains Shrinks where
  of_glances h := h.shrinks
  del := del_shrinks
  setExpireAt := setExpireAt_shrinks
  deleteIfEmpty := deleteIfEmpty_shrinks
  evict := evict_shrinks
  flush := flush_shrinks
  write := write_shrinks

instance : Drains Marked where
  of_glances h := h.marked
  del := del_marks
  setExpireAt := setExpireAt_marks
  deleteIfEmpty := deleteIfEmpty_marks
  evict := evict_marks
  flush := flush_marks
  write _ key := write_marks _ key _

/-! ## Rules -/

section rules

variable {P : Store → Store → Prop} {α β : Type} {argv : List Bytes} {key : Bytes}

theorem withinE_fixed [IsPreorder Store P] {m : Cmd α} (h : Fixed m) : Act.WithinE P m := by
  rcases h with ⟨a, rfl⟩ | ⟨r, -, rfl⟩
  · exact Act.withinE_pure a
  · exact Act.withinE_throw r

theorem withinE_exactArgs [IsPreorder Store P] (name : String) (n : Nat) :
    Act.WithinE P (exactArgs argv name n) :=
  Act.withinE_ite (Act.withinE_pure ()) (Act.withinE_throw _)

theorem withinE_minArgs [IsPreorder Store P] (name : String) (n : Nat) :
    Act.WithinE P (minArgs argv name n) :=
  Act.withinE_ite (Act.withinE_pure ()) (Act.withinE_throw _)

theorem withinE_intArg [IsPreorder Store P] (bytes : Bytes) : Act.WithinE P (intArg bytes) :=
  withinE_fixed (fixed_intArg bytes)

theorem withinE_floatArg [IsPreorder Store P] (bytes : Bytes) : Act.WithinE P (floatArg bytes) :=
  withinE_fixed (fixed_floatArg bytes)

theorem withinE_orThrow [IsPreorder Store P] (r : Reply) (o : Option α) : Act.WithinE P (orThrow r o) := by
  cases o with
  | none => exact Act.withinE_throw r
  | some a => exact Act.withinE_pure a

theorem withinE_expect [IsPreorder Store P] (message : String) (o : Option α) :
    Act.WithinE P (expect message o) :=
  Act.withinE_lift (Act.within_expect message o)

/-- A refusal in front of the rest. -/
theorem withinE_guard [IsPreorder Store P] {p : Prop} [Decidable p] {r : Reply} {rest : Unit → Cmd α}
    (h : Act.WithinE P (rest ())) : Act.WithinE P (if p then throw r >>= rest else rest ()) :=
  Act.withinE_ite (Act.withinE_bind (Act.withinE_throw r) fun _ => h) h

/-- A lookup in a handler. -/
theorem withinE_look [Lookups P] {m : Run Store α} (h : Act.Within Glances m) :
    Act.WithinE P (liftM m : Cmd α) :=
  Act.withinE_lift (h.mono fun _ _ => Lookups.of_glances)

theorem withinE_checkType [Lookups P] (key : Bytes) (want : StoreType) :
    Act.WithinE P (checkType key want) :=
  Act.withinE_bind (withinE_look (peekType_glances key)) fun _ =>
    Act.withinE_ite (Act.withinE_throw _) (Act.withinE_pure ())

/-- A handler that checks its arity and the type of its key and answers from one lookup. -/
theorem answer_glances {check : Cmd Unit} {m : Run Store α} {f : α → Reply} {want : StoreType}
    (hcheck : Act.WithinE Glances check) (hm : Act.Within Glances m) :
    Act.WithinE Glances (do
      check
      checkType key want
      let found ← m
      return f found : Cmd Reply) :=
  Act.withinE_bind hcheck fun _ => Act.withinE_bind (withinE_checkType _ _) fun _ =>
    Act.withinE_bind (withinE_look hm) fun _ => Act.withinE_pure _

theorem addDuration_glances (t : SystemTime) (d : Duration) : Act.Within Glances (addDuration t d) :=
  Act.within_ite (Act.within_pure _) (Act.within_panic _)

attribute [local irreducible] addDuration

theorem deadlineAfterMillis_glances (millis : Int) : Act.Within Glances (deadlineAfterMillis millis) :=
  Act.within_bind now_glances fun _ =>
    Act.within_ite (addDuration_glances _ _) (Act.within_pure _)

theorem epochPlusMillis_glances (millis : Nat) : Act.Within Glances (epochPlusMillis millis) :=
  addDuration_glances _ _

theorem deadlineAtUnixMillis_glances (millis : Int) : Act.Within Glances (deadlineAtUnixMillis millis) :=
  Act.within_ite (Act.within_pure _) (epochPlusMillis_glances _)

end rules

/-! ## Trends -/

/-- **Which way a handler moves the keyspace.** -/
inductive Trend {α : Type} (name : String) (m : Cmd α) : Prop where
  /-- It only looks. -/
  | reads (h : Act.WithinE Glances m)
  /-- It takes away at most. -/
  | drains (hread : readCommands.contains name = false) (hless : Act.WithinE Shrinks m)
      (hmarks : Act.WithinE Marked m)
  /-- It may add, so it is refused when memory is short. -/
  | fills (hread : readCommands.contains name = false) (hdeny : deniesOom name = true)
      (hmarks : Act.WithinE Marked m)

section trends

variable {α : Type} {name : String} {m : Cmd α}

/-- What takes away does so under every relation that allows it. -/
theorem Trend.of_drains (hread : readCommands.contains name = false)
    (h : ∀ {P : Store → Store → Prop} [Drains P], Act.WithinE P m) : Trend name m :=
  .drains hread h h

theorem Trend.marks (h : Trend name m) : Act.WithinE Marked m := by
  cases h with
  | reads h => exact Act.Within.mono h fun _ _ h => h.marked
  | drains _ _ h => exact h
  | fills _ _ h => exact h

theorem Trend.shrinks (h : Trend name m) (hname : deniesOom name = false) : Act.WithinE Shrinks m := by
  cases h with
  | reads h => exact Act.Within.mono h fun _ _ h => h.shrinks
  | drains _ h _ => exact h
  | fills _ hdeny _ =>
    rw [hname] at hdeny
    cases hdeny

theorem Trend.glances (h : Trend name m) (hname : readCommands.contains name = true) :
    Act.WithinE Glances m := by
  cases h with
  | reads h => exact h
  | drains hread _ _ =>
    rw [hname] at hread
    cases hread
  | fills hread _ _ =>
    rw [hname] at hread
    cases hread

end trends

end Klyro
