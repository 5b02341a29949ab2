import Klyro.Server.Conn
import Klyro.Server.Timeout

/-!
# The event loop (`server.rs`)

* `EventLoop` — the shared state and the connections.
* `serveReadyKeys`, `serveTimeouts`, `deliverOutbox` — what a pass does for connections that asked
  for nothing.
* `pollOnce` — a pass: new connections, the readiness of the old ones, the three above, the last
  writes, the closing, and housekeeping.
* `Pass` — what the operating system says in a pass.
-/

set_option autoImplicit false

namespace Klyro

/-- The shared state and the connections, by the ids of their clients. -/
structure EventLoop where
  app : App
  connections : Assoc Nat Conn := ∅

/-- What `poll` says of a connection, with what its socket then yields and takes. -/
structure Ready where
  /-- An error or a hang-up. -/
  hup : Bool := false
  input : Option ReadResult := none
  output : Option (List WriteResult) := none

/-- What `poll` may report of a connection: input unless it is being closed, output if some is
pending, errors and hang-ups always. -/
def Conn.reported (c : Conn) (ready : Ready) : Ready :=
  { ready with
    input := if c.wantClose then none else ready.input
    output := if c.pendingOutput then ready.output else none }

namespace EventLoop

/-- Run on the shared state. -/
def onApp {α : Type} (m : Run App α) : Run EventLoop α :=
  Act.zoom EventLoop.app (fun a s => { s with app := a }) m

/-- Run on a connection, which is looked up first. -/
def attend {α : Type} (id : Nat) (conn : Conn) (m : Run Attended α) : Run EventLoop α :=
  Act.zoom (fun s => ⟨s.app, conn⟩)
    (fun t s => { app := t.app, connections := s.connections.insert id t.conn }) m

/-! ## New connections -/

/-- One connection of `accept_new_conns`. -/
def accept (addr : String) : Run EventLoop Unit := do
  onApp (Act.modify fun a =>
    { a with stats := { a.stats with totalConnections := a.stats.totalConnections + 1 } })
  let id ← onApp App.takeClientId
  let created ← instantNow
  let conn : Conn := { client := { id := id, addr := addr, created := created } }
  let s ← Act.get
  if s.app.config.maxclients ≤ s.connections.size then do
    onApp (Act.modify fun a =>
      { a with stats := { a.stats with rejectedConnections := a.stats.rejectedConnections + 1 } })
    Act.modify fun s => { s with
      connections := s.connections.insert id (conn.refuse "ERR max number of clients reached") }
  else
    Act.modify fun s => { s with connections := s.connections.insert id conn }

/-! ## One connection is ready -/

/-- What the loop over the ready connections does with one. -/
def attendReady (ready : Ready) : Run Attended Unit := do
  Attended.onConn fun c => if ready.hup then c.requestClose else c
  match ready.input with
  | none => pure ()
  | some result => handleRead result
  match ready.output with
  | none => pure ()
  | some results => Attended.onConn (handleWrite results)

/-- One of the ready connections. -/
def turn (p : Nat × Ready) : Run EventLoop Unit := do
  let s ← Act.get
  let conn ← Act.expect "fd was in `order`, so it's in `conns`" (s.connections.lookup p.1)
  attend p.1 conn (attendReady p.2)

/-! ## Parked commands -/

/-- `resume`. -/
def resume (woken : List Nat) : Run EventLoop Unit := Act.forList (fun id => do
  let s ← Act.get
  match s.connections.lookup id with
  | none => pure ()
  | some conn => attend id conn processRequests) woken

/-- A parked command is run again; whether it is answered. -/
def retryWaiter (waiter : Blocked) : Run Attended Bool := do
  match ← Attended.onServed (retry waiter.argv) with
  | none => pure false
  | some reply => do
    Attended.onConn fun c =>
      (({ c with client := { c.client with blocked := false } } : Conn).push reply).noted (.woken reply)
    pure true

/-- The scan of `serve_ready_keys` from an index on; the connections it woke. -/
def scan (ready : List Bytes) : Nat → Nat → Run EventLoop (List Nat)
  | 0, _ => pure []
  | fuel + 1, index => do
    let s ← Act.get
    match s.app.blocked[index]? with
    | none => pure []
    | some waiter =>
      if waiter.keys.any ready.contains then do
        onApp (Act.modify fun a => { a with blocked := a.blocked.eraseIdx index })
        match s.connections.lookup waiter.id with
        | none => scan ready fuel index
        | some conn =>
          if conn.wantClose then scan ready fuel index
          else do
            let answered ← attend waiter.id conn (retryWaiter waiter)
            if answered then do
              let woken ← scan ready fuel index
              pure (waiter.id :: woken)
            else do
              onApp (Act.modify fun a => { a with blocked := a.blocked.insertIdx index waiter })
              scan ready fuel (index + 1)
      else scan ready fuel (index + 1)

/-- The loop of `serve_ready_keys`. -/
def readyLoop : Nat → Run EventLoop Unit
  | 0 => pure ()
  | fuel + 1 => do
    let s ← Act.get
    if s.app.readyKeys.isEmpty then pure ()
    else do
      onApp (Act.modify fun a => { a with readyKeys := [] })
      let woken ← scan s.app.readyKeys s.app.blocked.length 0
      resume woken
      readyLoop fuel

/-- The bytes the connections have sent and nothing has read. -/
def buffered (s : EventLoop) : Nat := (s.connections.pairs.map fun p => p.2.rbuf.length).sum

/-- `serve_ready_keys`.  A round after which keys are ready again has answered a parked command or
run a request, and only a request parks one. -/
def serveReadyKeys : Run EventLoop Unit := do
  let s ← Act.get
  readyLoop (2 * s.buffered + s.app.blocked.length + 2)

/-- The deadline of a parked command has passed. -/
def expireWaiter (waiter : Blocked) (c : Conn) : Conn :=
  (({ c with client := { c.client with blocked := false } } : Conn).push waiter.onTimeout).noted
    (.timedOut waiter.onTimeout)

/-- The loop of `serve_timeouts`; the connections it woke. -/
def answerLate : List Blocked → Run EventLoop (List Nat)
  | [] => pure []
  | waiter :: late => do
    let s ← Act.get
    match s.connections.lookup waiter.id with
    | none => answerLate late
    | some conn =>
      if conn.wantClose then answerLate late
      else do
        Act.modify fun s => { s with
          connections := s.connections.insert waiter.id (expireWaiter waiter conn) }
        let woken ← answerLate late
        pure (waiter.id :: woken)

/-- `serve_timeouts`. -/
def serveTimeouts : Run EventLoop Unit := do
  let late ← onApp App.takeTimedOut
  let woken ← answerLate late
  resume woken

/-! ## Messages -/

/-- `deliver_outbox`. -/
def deliverOutbox : Run EventLoop Unit := do
  let s ← Act.get
  onApp (Act.modify fun a => { a with outbox := [] })
  Act.forList (fun (p : Nat × Reply) => Act.modify fun s => { s with
    connections := s.connections.adjust p.1 fun c => (c.push p.2).noted (.delivered p.2) }) s.app.outbox

/-! ## The end of a pass -/

/-- Pending output is written. -/
def flush (writes : Nat → List WriteResult) : Run EventLoop Unit := do
  let s ← Act.get
  Act.forList (fun id => Act.modify fun s => { s with
    connections := s.connections.adjust id fun c =>
      if c.pendingOutput then handleWrite (writes id) c else c }) s.connections.keys

/-- `remove`. -/
def remove (id : Nat) : Run EventLoop Unit := do
  let s ← Act.get
  match s.connections.lookup id with
  | none => pure ()
  | some conn => do
    Act.modify fun s => { s with connections := s.connections.erase id }
    let _ ← onApp (App.forgetClient conn.client)
    pure ()

/-- The connections that are to be closed and have nothing left to send. -/
def toClose (s : EventLoop) : List Nat :=
  (s.connections.pairs.filter fun p => p.2.wantClose && !p.2.pendingOutput).map Prod.fst

/-- They are closed. -/
def close : Run EventLoop Unit := do
  let s ← Act.get
  Act.forList remove s.toClose

/-! ## A pass -/

/-- What the operating system says in a pass. -/
inductive Pass where
  /-- A signal interrupts the wait. -/
  | interrupted
  /-- New connections, the readiness of the others in the order of the map's iterator, and what
  their sockets take at the end. -/
  | ready (accepted : List String) (polled : List (Nat × Ready)) (writes : Nat → List WriteResult)

/-- What is reported of the connections there are when `poll` is called. -/
def reports (s : EventLoop) (polled : List (Nat × Ready)) : List (Nat × Ready) :=
  polled.map fun p => (p.1, match s.connections.lookup p.1 with
    | none => p.2
    | some conn => conn.reported p.2)

/-- `poll_once`. -/
def pollOnce : Pass → Run EventLoop Unit
  | .interrupted => do
    let _ ← onApp pollTimeout
    pure ()
  | .ready accepted polled writes => do
    let s ← Act.get
    let _ ← onApp pollTimeout
    Act.forList accept accepted
    Act.forList turn (s.reports polled)
    serveReadyKeys
    serveTimeouts
    deliverOutbox
    flush writes
    close
    Act.modify fun s => { s with app := { s.app with
      stats := { s.app.stats with connectedClients := s.connections.size } } }
    onApp App.tick

/-- The loop of `run`, until the server is to stop. -/
def run : List Pass → Run EventLoop Unit
  | [] => pure ()
  | pass :: passes => do
    let s ← Act.get
    if s.app.running then do
      pollOnce pass
      run passes
    else pure ()

end EventLoop

end Klyro
