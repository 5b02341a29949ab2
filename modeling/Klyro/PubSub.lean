import Klyro.Resp.Reply
import Klyro.Util.Glob

/-!
# The pub/sub registry (`pubsub.rs`)

Who is subscribed to what, by client id, and who a published message goes to.
-/

set_option autoImplicit false

namespace Klyro

/-! ## Ordered sets -/

section ordered

variable {α : Type}

/-- `BTreeSet::insert`, on the elements in ascending order. -/
def treeInsert (cmp : α → α → Ordering) (a : α) : List α → List α
  | [] => [a]
  | b :: bs =>
    match cmp a b with
    | .lt => a :: b :: bs
    | .eq => b :: bs
    | .gt => b :: treeInsert cmp a bs

/-- `BTreeSet::remove`. -/
def treeRemove [DecidableEq α] (a : α) (bs : List α) : List α := bs.filter (· ≠ a)

end ordered

/-- One message to deliver out of band. -/
structure Delivery where
  id : Nat
  frame : Reply

/-- Subscribers by the name they asked for. -/
abbrev Table := Assoc Bytes (List Nat)

namespace Table

/-- `PubSub::add`. -/
def add (table : Table) (name : Bytes) (id : Nat) : Table :=
  table.insert name (treeInsert compare id ((table.lookup name).getD []))

/-- `PubSub::remove`. -/
def remove (table : Table) (name : Bytes) (id : Nat) : Table :=
  match table.lookup name with
  | none => table
  | some subscribers =>
    let subscribers := treeRemove id subscribers
    if subscribers.isEmpty then table.erase name else table.insert name subscribers

/-- `retain` of `drop_client`. -/
def dropClient (table : Table) (id : Nat) : Table :=
  table.keys.foldl (fun table name => table.remove name id) table

/-- How many subscriptions a table holds. -/
def total (table : Table) : Nat := (table.pairs.map fun p => p.2.length).sum

end Table

/-- The registry. -/
structure PubSub where
  channels : Table := ∅
  patterns : Table := ∅

namespace PubSub

/-- `subscribe`. -/
def subscribe (p : PubSub) (channel : Bytes) (id : Nat) : PubSub :=
  { p with channels := p.channels.add channel id }

/-- `unsubscribe`. -/
def unsubscribe (p : PubSub) (channel : Bytes) (id : Nat) : PubSub :=
  { p with channels := p.channels.remove channel id }

/-- `psubscribe`. -/
def psubscribe (p : PubSub) (pattern : Bytes) (id : Nat) : PubSub :=
  { p with patterns := p.patterns.add pattern id }

/-- `punsubscribe`. -/
def punsubscribe (p : PubSub) (pattern : Bytes) (id : Nat) : PubSub :=
  { p with patterns := p.patterns.remove pattern id }

/-- `drop_client`. -/
def dropClient (p : PubSub) (id : Nat) : PubSub :=
  { channels := p.channels.dropClient id, patterns := p.patterns.dropClient id }

/-- `active_channels`. -/
def activeChannels (p : PubSub) (pattern : Option Bytes) : List Bytes :=
  sortBy cmpBytes (p.channels.keys.filter fun name =>
    match pattern with
    | none => true
    | some pattern => globMatch pattern name)

/-- `subscriber_count`. -/
def subscriberCount (p : PubSub) (channel : Bytes) : Nat :=
  ((p.channels.lookup channel).map List.length).getD 0

/-- `pattern_count`. -/
def patternCount (p : PubSub) : Nat := p.patterns.size

/-- `subscription_count`. -/
def subscriptionCount (p : PubSub) : Nat := p.channels.total + p.patterns.total

/-- The frame an exact subscriber gets. -/
def messageFrame (channel payload : Bytes) : Reply :=
  .pushed "message" [.bulk channel, .bulk payload]

/-- The frame a pattern subscriber gets. -/
def pmessageFrame (pattern channel payload : Bytes) : Reply :=
  .pushed "pmessage" [.bulk pattern, .bulk channel, .bulk payload]

/-- `publish`: exact subscribers first, then those of every matching pattern. -/
def publish (p : PubSub) (channel payload : Bytes) : List Delivery :=
  ((p.channels.lookup channel).getD []).map (fun id => ⟨id, messageFrame channel payload⟩) ++
    (p.patterns.pairs.filter fun q => globMatch q.1 channel).flatMap fun q =>
      q.2.map fun id => ⟨id, pmessageFrame q.1 channel payload⟩

end PubSub

end Klyro
