import Klyro.Hub
import Klyro.Resp.Request

/-!
# A connection (`server.rs`, the half below the event loop)

A connection is known by the id of its client: `by_id` and the descriptor of the socket change
together, so one map stands for both.  What a socket yields and takes is an input.

* `Conn` — the buffers of a connection, and its history.
* `processRequests` — the requests in a read buffer, until one is incomplete, parks, or closes.
* `handleRead`, `handleWrite` — one readiness of a socket.
-/

set_option autoImplicit false

namespace Klyro

/-- What happened on a connection. -/
inductive Note where
  /-- A request of the read buffer was run. -/
  | ran (argv : List Bytes) (response : Option Response)
  /-- The parked command was run again, and answers. -/
  | woken (reply : Reply)
  /-- The deadline of the parked command has passed. -/
  | timedOut (reply : Reply)
  /-- A message for the connection was handed to it. -/
  | delivered (frame : Reply)
  /-- An error that closes the connection. -/
  | refused (reply : Reply)

/-- A connection. -/
structure Conn where
  wantClose : Bool := false
  client : Client
  rbuf : Bytes := []
  wbuf : Bytes := []
  wbufSent : Nat := 0
  /-- History variable, newest first: nothing reads it. -/
  history : List Note := []

namespace Conn

/-- `push`: one reply into the write buffer. -/
def push (reply : Reply) (c : Conn) : Conn := { c with wbuf := c.wbuf ++ encode c.client.protocol reply }

/-- `over_output_limit`. -/
def overOutputLimit (limit : Nat) (c : Conn) : Bool := decide (limit < c.wbuf.length - c.wbufSent)

/-- `pending_output`. -/
def pendingOutput (c : Conn) : Bool := decide (c.wbufSent < c.wbuf.length)

/-- `request_close`. -/
def requestClose (c : Conn) : Conn := { c with wantClose := true }

/-- One more thing happened. -/
def noted (note : Note) (c : Conn) : Conn := { c with history := note :: c.history }

/-- An error, and the end. -/
def refuse (message : String) (c : Conn) : Conn :=
  ((c.push (.error message)).requestClose).noted (.refused (.error message))

/-- The replies of a response, and the end if it asks for it. -/
def respond (response : Response) (c : Conn) : Conn :=
  let c := response.replies.foldl (fun c reply => c.push reply) c
  if response.close then c.requestClose else c

end Conn

/-- A connection with the shared state it is served from. -/
structure Attended where
  app : App
  conn : Conn

namespace Attended

/-- Run on the connection. -/
def onConn (f : Conn → Conn) : Run Attended Unit := Act.modify fun s => { s with conn := f s.conn }

/-- Run for the client of the connection. -/
def onServed {α : Type} (m : Run Served α) : Run Attended α :=
  Act.zoom (fun s => ⟨s.app, s.conn.client⟩)
    (fun t s => { app := t.app, conn := { s.conn with client := t.client } }) m

/-- A request is run, up to its replies. -/
def run (argv : List Bytes) : Run Attended (Option Response) := do
  let response ← onServed (served argv)
  onConn (Conn.noted (.ran argv response))
  pure response

end Attended

open Attended

/-- The end of a round of `process_requests`: whether it was the last. -/
def roundEnds (limit : Nat) : Run Attended Bool := do
  let s ← Act.get
  if s.conn.overOutputLimit limit then do
    onConn (Conn.refuse "ERR reply exceeds the client output buffer limit")
    pure true
  else pure s.conn.wantClose

/-- The loop of `process_requests`. -/
def processLoop (maxBulk limit : Nat) : Nat → Run Attended Unit
  | 0 => pure ()
  | fuel + 1 => do
    let s ← Act.get
    if s.conn.client.blocked then pure ()
    else
      match parseRequest s.conn.rbuf maxBulk with
      | none => Act.panic .bounds
      | some .incomplete => pure ()
      | some (.error message) => onConn fun c => { c.refuse message with rbuf := [] }
      | some (.request argv consumed) => do
        onConn fun c => { c with rbuf := c.rbuf.drop consumed }
        match ← Attended.run argv with
        | none => do
          let ends ← roundEnds limit
          if ends then pure () else processLoop maxBulk limit fuel
        | some response =>
          if response.block.isSome then pure ()
          else do
            onConn (Conn.respond response)
            let ends ← roundEnds limit
            if ends then pure () else processLoop maxBulk limit fuel

/-- `process_requests`.  Every request takes bytes from the buffer, so there are no more rounds than
bytes, and one that finds nothing. -/
def processRequests : Run Attended Unit := do
  let s ← Act.get
  processLoop s.app.config.protoMaxBulkLen s.app.config.clientOutputBufferLimit (s.conn.rbuf.length + 1)

/-- What a read from a socket comes to. -/
inductive ReadResult where
  /-- Some bytes; none at the end of the stream. -/
  | bytes (chunk : Bytes)
  | wouldBlock
  | failed

/-- What a write to a socket comes to. -/
inductive WriteResult where
  /-- So many bytes were taken. -/
  | taken (n : Nat)
  | wouldBlock
  | failed

/-- `handle_read`. -/
def handleRead : ReadResult → Run Attended Unit
  | .bytes chunk =>
    if chunk.isEmpty then onConn Conn.requestClose
    else do
      onConn fun c => { c with rbuf := c.rbuf ++ chunk }
      processRequests
  | .wouldBlock => pure ()
  | .failed => onConn Conn.requestClose

/-- `handle_write`; a socket that was not asked as often as the loop asks would block. -/
def handleWrite : List WriteResult → Conn → Conn
  | results, c =>
    if c.pendingOutput then
      match results with
      | [] | .wouldBlock :: _ => c
      | .failed :: _ => c.requestClose
      | .taken n :: results =>
        if n = 0 then c.requestClose
        else handleWrite results { c with wbufSent := min (c.wbufSent + n) c.wbuf.length }
    else { c with wbuf := [], wbufSent := 0 }

end Klyro
