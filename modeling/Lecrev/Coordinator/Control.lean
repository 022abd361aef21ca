import Lecrev.Coordinator.Assign

/-!
# Control streams

`Control` of `internal/coordinator` serves the stream of one agent: it receives the agent's
messages, runs their handlers, and closes the stream's channel when it returns.

The messages a stream delivers, and the way it ends, are arguments. The loop also ends when a
handler returns an error or a message is of no known kind. Only the ends of the stream itself mark
the host down; the channel is closed in every case.
-/

namespace Lecrev

/-- What an agent sends; `unknown` is a message with no body that `Control` knows. -/
inductive AgentMessage
  | register (msg : RegisterHost)
  | heartbeat (msg : HostHeartbeat)
  | assignmentUpdate (msg : AssignmentUpdate)
  | unknown

/-- How a stream ends: `io.EOF`, an error of `Recv`, or an error of `Send`. -/
inductive StreamEnd
  | eof
  | recvError (e : Err)
  | sendError (e : Err)

/-- What `Control` returns at the end of a stream. -/
def StreamEnd.result : StreamEnd → Except Err Unit
  | .eof => .ok ()
  | .recvError e | .sendError e => .error e

/-- `handleAssignmentUpdate`, with the direct invocations of the coordinator: the final report of
one is the last that goes to its waiting caller. -/
def handleUpdate (retry : Bool) (now : Time) (msg : AssignmentUpdate) : CoordM Unit := do
  let directInvokes ← locked fun c =>
    (.ok c.directInvokes,
      if msg.state.terminal then
        { c with directInvokes := c.directInvokes.filter (· ≠ msg.attemptID) }
      else c)
  let _ ← onStore (handleAssignmentUpdate { retry, directInvokes } now msg)

/-- Confirm a registration. The send waits for room in the channel; the message is put in at
once, since nothing can be told from the wait. -/
def sendRegistered (stream : StreamID) (hostID : String) : CoordM Unit :=
  .modify .send fun w =>
    { w with
      coordinator.channels := Function.update w.coordinator.channels stream
        { w.coordinator.channels stream with
          buffer := (w.coordinator.channels stream).buffer ++ [.registered hostID] } }

/-- The handler of one message. A registration sets the host of the stream. -/
def handleMessage (retry : Bool) (clock : ℕ → Time) (stream : StreamID) :
    AgentMessage → CoordM Unit
  | .register msg => do
    registerHost clock msg stream
    sendRegistered stream msg.hostID
  | .heartbeat msg => updateHeartbeat clock msg
  | .assignmentUpdate msg => handleUpdate retry (clock 0) msg
  | .unknown => .throw (.other "unknown agent message")

/-- The host that a message registers. -/
def AgentMessage.registers : AgentMessage → Option String
  | .register msg => some msg.hostID
  | _ => none

/-- The variable `hostID` of `Control` after a message. -/
def AgentMessage.hostAfter (hostID : String) : AgentMessage → String
  | .register msg => msg.hostID
  | _ => hostID

/-- Why `Control` returns: the host it marks down before, if any, and its result. -/
structure Exit where
  down : Option String
  result : Except Err Unit

/-- The host that is marked down at the end of a stream: the one registered last, unless its
identifier is empty. -/
def hostDown (hostID : String) : Option String := if hostID = "" then none else some hostID

/-- The loop of `Control` over the messages of a stream; `hostID` is the host registered last. -/
def controlLoop (retry : Bool) (stream : StreamID) (ending : StreamEnd) :
    String → List (AgentMessage × (ℕ → Time)) → CoordM Exit
  | hostID, [] => pure ⟨hostDown hostID, ending.result⟩
  | hostID, (msg, clock) :: messages => do
    match ← (handleMessage retry clock stream msg).result with
    -- an error of a handler returns without `markHostDown`; the call only marks the event
    | .error e => do
      .query (.handlerError stream) fun _ => .ok ()
      pure ⟨none, .error e⟩
    | .ok () => controlLoop retry stream ending (msg.hostAfter hostID) messages

/-- The deferred `close(sendCh)`. -/
def closeChannel (stream : StreamID) : CoordM Unit :=
  .modify (.close stream) fun w =>
    { w with
      coordinator.channels := Function.update w.coordinator.channels stream
        { w.coordinator.channels stream with closed := true } }

/-- The way out of `Control`. -/
def leave (now : Time) (stream : StreamID) (down : Option String) : CoordM Unit := do
  match down with
  | none => pure ()
  | some hostID => markHostDown now hostID
  closeChannel stream

/-- `Control` on a stream. -/
def control (retry : Bool) (stream : StreamID) (messages : List (AgentMessage × (ℕ → Time)))
    (ending : StreamEnd) (leftAt : Time) : CoordM Unit := do
  let exit ← controlLoop retry stream ending "" messages
  leave leftAt stream exit.down
  .ret exit.result

/-- The goroutine of `Control` that sends the messages of the channel: it takes one message. -/
def takeMessage (stream : StreamID) : CoordM Unit :=
  .modify .send fun w =>
    { w with
      coordinator.channels := Function.update w.coordinator.channels stream
        { w.coordinator.channels stream with
          buffer := (w.coordinator.channels stream).buffer.tail } }

end Lecrev
