import Klyro.World

/-!
# The watched-key registry (`watch.rs`)

A version counter and a number of watchers per watched key.
-/

set_option autoImplicit false

namespace Klyro

/-- A watched key. -/
structure Watched where
  version : Nat
  watchers : Nat
deriving DecidableEq

/-- The registry. -/
structure Watch where
  keys : Assoc Bytes Watched := ∅
deriving DecidableEq

namespace Watch

/-- `watch`: the version to compare against later. -/
def watch (key : Bytes) : Run Watch Nat := Act.state fun w =>
  let entry := (w.keys.lookup key).getD ⟨0, 0⟩
  (entry.version, { keys := w.keys.insert key { entry with watchers := entry.watchers + 1 } })

/-- `unwatch`; the count of watchers is unsigned. -/
def unwatch (key : Bytes) : Run Watch Unit := do
  let w ← Act.get
  match w.keys.lookup key with
  | none => pure ()
  | some entry =>
    match entry.watchers with
    | 0 => Act.panic .overflow
    | 1 => Act.set { keys := w.keys.erase key }
    | n + 2 => Act.set { keys := w.keys.insert key { entry with watchers := n + 1 } }

/-- `version`. -/
def version (w : Watch) (key : Bytes) : Option Nat := (w.keys.lookup key).map Watched.version

/-- One more modification. -/
def Watched.touched (entry : Watched) : Watched := { entry with version := entry.version + 1 }

/-- `touch`. -/
def touch (w : Watch) (key : Bytes) : Watch := { keys := w.keys.adjust key Watched.touched }

/-- `touch_all`. -/
def touchAll (w : Watch) : Watch :=
  { keys := w.keys.keys.foldl (fun keys key => keys.adjust key Watched.touched) w.keys }

/-- `tracked`. -/
def tracked (w : Watch) : Nat := w.keys.size

end Watch

end Klyro
