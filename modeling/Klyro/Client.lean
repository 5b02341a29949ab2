import Klyro.Resp.Reply

/-!
# Per-connection state (`client.rs`)
-/

set_option autoImplicit false

namespace Klyro

/-- A MULTI in progress. -/
structure Transaction where
  queued : List (List Bytes) := []
  failed : Bool := false

/-- What belongs to one connection. -/
structure Client where
  id : Nat
  addr : String
  created : Instant
  protocol : Protocol := .resp2
  name : Bytes := []
  transaction : Option Transaction := none
  /-- The watched keys, each with the version it had. -/
  watched : List (Bytes × Nat) := []
  channels : List Bytes := []
  patterns : List Bytes := []
  /-- Only while EXEC runs this client's queue. -/
  inExec : Bool := false
  /-- While a blocking command is parked. -/
  blocked : Bool := false

namespace Client

/-- `begin_transaction`. -/
def beginTransaction (c : Client) : Client := { c with transaction := some {} }

/-- `in_transaction`. -/
def inTransaction (c : Client) : Bool := c.transaction.isSome

/-- `subscription_count`. -/
def subscriptionCount (c : Client) : Nat := c.channels.length + c.patterns.length

/-- `is_subscriber`. -/
def isSubscriber (c : Client) : Bool := decide (0 < c.subscriptionCount)

end Client

/-- A blocking command that has been parked. -/
structure Blocked where
  id : Nat
  /-- The keys whose modification makes the command try again. -/
  keys : List Bytes
  /-- `none` waits forever. -/
  deadline : Option Instant
  argv : List Bytes
  onTimeout : Reply

end Klyro
