import Klyro.Commands.Keeps
import Klyro.Store.Settled

/-!
# Commands that see the live keys only

What a command answers and leaves is settled by its arguments, the configuration and the keys that are
live, unless it draws, asks the allocator, or names keys in the order of the table.

* `offTheRecord` — the commands that do one of these.
* `byLiveE_*` — the rules a handler is read with.
-/

set_option autoImplicit false

namespace Klyro

open Act Store

-- the elaborator would evaluate the test of the range
attribute [local irreducible] addDuration

/-- The commands that show more than the live keys. -/
def offTheRecord : List String := ["KEYS", "RANDOMKEY", "SPOP", "SRANDMEMBER", "MEM.INFO"]

/-! ## Rules -/

section rules

variable {α : Type} {e : Env} {t : SystemTime} {argv : List Bytes}

theorem byLiveE_fixed {m : Cmd α} (h : Fixed m) : ByLiveE e t m := by
  rcases h with ⟨a, rfl⟩ | ⟨r, -, rfl⟩
  · exact settledE_pure a
  · exact settledE_throw r

theorem byLiveE_exactArgs (name : String) (n : Nat) : ByLiveE e t (exactArgs argv name n) :=
  settledE_ite (settledE_pure ()) (settledE_throw _)

theorem byLiveE_minArgs (name : String) (n : Nat) : ByLiveE e t (minArgs argv name n) :=
  settledE_ite (settledE_pure ()) (settledE_throw _)

theorem byLiveE_intArg (bytes : Bytes) : ByLiveE e t (intArg bytes) := byLiveE_fixed (fixed_intArg bytes)

theorem byLiveE_floatArg (bytes : Bytes) : ByLiveE e t (floatArg bytes) :=
  byLiveE_fixed (fixed_floatArg bytes)

theorem byLiveE_orThrow (r : Reply) (o : Option α) : ByLiveE e t (orThrow r o) := by
  cases o with
  | none => exact settledE_throw r
  | some a => exact settledE_pure a

theorem byLiveE_expect (message : String) (o : Option α) : ByLiveE e t (expect message o) :=
  settledE_lift (settled_expect message o)

variable (ht : e.StandsAt t)

include ht

theorem byLiveE_checkType (key : Bytes) (want : StoreType) : ByLiveE e t (checkType key want) :=
  settledE_bind (settledE_lift (byLive_peekType ht key)) fun _ =>
    settledE_ite (settledE_throw _) (settledE_pure ())

/-- A handler that checks the type of its key and answers from one lookup. -/
theorem byLiveE_answer {m : Run Store α} {f : α → Reply} {key : Bytes} {want : StoreType}
    (hm : ByLive e t m) : ByLiveE e t (do
      checkType key want
      let found ← m
      return f found : Cmd Reply) :=
  settledE_bind (byLiveE_checkType ht _ _) fun _ => settledE_bind (settledE_lift hm) fun _ => settledE_pure _

/-- A handler that takes something out of a value, which may be the last of it. -/
theorem byLiveE_taken {τ : Type} {V : Variant τ} {use : Run τ α} {f : Option α → Reply} {key : Bytes}
    {want : StoreType} (huse : Steady e use) : ByLiveE e t (do
      checkType key want
      let taken ← Store.write V key use
      Store.deleteIfEmpty key
      return f taken : Cmd Reply) :=
  settledE_bind (byLiveE_checkType ht _ _) fun _ =>
    settledE_bind (settledE_lift (byLive_write ht huse V key)) fun _ =>
      settledE_bind (settledE_lift (byLive_deleteIfEmpty ht key)) fun _ => settledE_pure _

/-- A handler that puts something into a value, which it makes when there is none. -/
theorem byLiveE_put {τ : Type} {V : Variant τ} {use : Run τ α} {f : α → Reply} {key : Bytes}
    {want : StoreType} {message : String} (huse : Steady e use) : ByLiveE e t (do
      checkType key want
      let put ← Store.getOrCreate V key use
      let put ← expect message put
      return f put : Cmd Reply) :=
  settledE_bind (byLiveE_checkType ht _ _) fun _ =>
    settledE_bind (settledE_lift (byLive_getOrCreate ht huse V key)) fun put =>
      settledE_bind (byLiveE_expect _ put) fun _ => settledE_pure _

theorem byLive_deadlineAfterMillis (millis : Int) : ByLive e t (deadlineAfterMillis millis) :=
  settled_bind (settled_now ht) fun t' => settled_ite (settled_addDuration t' _) (settled_pure _)

omit ht in
theorem byLive_deadlineAtUnixMillis (millis : Int) : ByLive e t (deadlineAtUnixMillis millis) :=
  settled_ite (settled_pure _) (settled_addDuration 0 _)

end rules

end Klyro
