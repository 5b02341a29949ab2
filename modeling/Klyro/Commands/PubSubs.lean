import Klyro.Commands.Server

/-!
# Publish and subscribe (`commands/pubsub.rs`)

Subscribing changes the connection; publishing leaves frames for other connections in the outbox
and answers the publisher's own subscription on the spot.
-/

set_option autoImplicit false

namespace Klyro

namespace PubSubs

open Served

/-- `confirmation`. -/
def confirmation (kind : String) (name : Reply) (client : Client) : Reply :=
  .pushed kind [name, .integer client.subscriptionCount]

/-- A client and the registry after one name of SUBSCRIBE; a name it holds already changes
nothing. -/
def subscribed (patterns : Bool) (name : Bytes) (s : Served) : Served :=
  if patterns then
    if name ∈ s.client.patterns then s
    else { app := { s.app with pubsub := s.app.pubsub.psubscribe name s.client.id }
           client := { s.client with patterns := treeInsert cmpBytes name s.client.patterns } }
  else if name ∈ s.client.channels then s
  else { app := { s.app with pubsub := s.app.pubsub.subscribe name s.client.id }
         client := { s.client with channels := treeInsert cmpBytes name s.client.channels } }

/-- A client and the registry after one name of UNSUBSCRIBE. -/
def unsubscribed (patterns : Bool) (name : Bytes) (s : Served) : Served :=
  if patterns then
    if name ∈ s.client.patterns then
      { app := { s.app with pubsub := s.app.pubsub.punsubscribe name s.client.id }
        client := { s.client with patterns := treeRemove name s.client.patterns } }
    else s
  else if name ∈ s.client.channels then
    { app := { s.app with pubsub := s.app.pubsub.unsubscribe name s.client.id }
      client := { s.client with channels := treeRemove name s.client.channels } }
  else s

/-- Change the subscriptions by one name and confirm it. -/
def confirmed (kind : String) (change : Bytes → Served → Served) (name : Bytes) :
    Run Served Reply := do
  Act.modify (change name)
  let s ← Act.get
  pure (confirmation kind (.bulk name) s.client)

/-- `subscribe`. -/
def subscribe (patterns : Bool) (names : List Bytes) : Run Served (List Reply) :=
  Act.mapList (confirmed (if patterns then "psubscribe" else "subscribe") (subscribed patterns))
    names

/-- `unsubscribe`: no names are all of them, and nothing to leave is still confirmed. -/
def unsubscribe (patterns : Bool) (names : List Bytes) : Run Served (List Reply) := do
  let s ← Act.get
  let targets :=
    if names.isEmpty then (if patterns then s.client.patterns else s.client.channels) else names
  let kind := if patterns then "punsubscribe" else "unsubscribe"
  if targets.isEmpty then pure [confirmation kind .nil s.client]
  else Act.mapList (confirmed kind (unsubscribed patterns)) targets

/-- The frames of a publication for the publisher's own connection. -/
def ownFrames (id : Nat) (deliveries : List Delivery) : List Reply :=
  (deliveries.filter fun d => d.id = id).map Delivery.frame

/-- The frames of a publication for everybody else. -/
def otherFrames (id : Nat) (deliveries : List Delivery) : List (Nat × Reply) :=
  (deliveries.filter fun d => d.id ≠ id).map fun d => (d.id, d.frame)

/-- `publish`. -/
def publish (channel payload : Bytes) : Run Served Response := do
  let s ← Act.get
  let deliveries := s.app.pubsub.publish channel payload
  onApp (Act.modify fun a =>
    { a with
      stats := { a.stats with messagesPublished := a.stats.messagesPublished + 1 }
      outbox := a.outbox ++ otherFrames s.client.id deliveries })
  pure (.frames (ownFrames s.client.id deliveries ++ [.integer deliveries.length]))

/-- `introspect`. -/
def introspect (pubsub : PubSub) (argv : List Bytes) : Reply :=
  match toUpper (arg argv 1) with
  | "CHANNELS" =>
    match argv.length with
    | 2 => .bulkArray (pubsub.activeChannels none)
    | 3 => .bulkArray (pubsub.activeChannels (some (arg argv 2)))
    | _ => .wrongArity "pubsub|channels"
  | "NUMSUB" => .map ((argv.drop 2).map fun channel =>
      (.bulk channel, .integer (pubsub.subscriberCount channel)))
  | "NUMPAT" => .integer pubsub.patternCount
  | other => .error ("ERR Unknown PUBSUB subcommand or wrong number of arguments for '" ++
      other ++ "'")

/-- An arm of the family. -/
abbrev Arm := List Bytes → Run Served Response

/-- `dispatch`, arm by arm. -/
def arms : List (String × Arm) :=
  [("SUBSCRIBE", fun argv =>
      if argv.length ≤ 1 then pure (.new (.wrongArity "SUBSCRIBE"))
      else Response.frames <$> subscribe false (argv.drop 1)),
    ("PSUBSCRIBE", fun argv =>
      if argv.length ≤ 1 then pure (.new (.wrongArity "PSUBSCRIBE"))
      else Response.frames <$> subscribe true (argv.drop 1)),
    ("UNSUBSCRIBE", fun argv => Response.frames <$> unsubscribe false (argv.drop 1)),
    ("PUNSUBSCRIBE", fun argv => Response.frames <$> unsubscribe true (argv.drop 1)),
    ("PUBLISH", fun argv =>
      if argv.length ≠ 3 then pure (.new (.wrongArity "PUBLISH"))
      else publish (arg argv 1) (arg argv 2)),
    ("PUBSUB", fun argv =>
      if argv.length ≤ 1 then pure (.new (.wrongArity "PUBSUB"))
      else do
        let s ← Act.get
        pure (.new (introspect s.app.pubsub argv)))]

/-- `dispatch`. -/
def dispatch (name : String) (argv : List Bytes) : Run Served Response :=
  match arms.lookup name with
  | some arm => arm argv
  | none => pure (.new unknownVerb)

end PubSubs

end Klyro
