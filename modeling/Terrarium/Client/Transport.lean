import Terrarium.Client.Basic
import Terrarium.Frame.Assembler
import Terrarium.Server.Simulation
import Terrarium.Sink

namespace Terrarium

/-- To a simulation in the same program; responses come on a channel. -/
def Transport.direct (channel : Channel) : Transport Simulation where
  send sim c := (.ok (), sim.submit c channel)
  poll sim :=
    let (responses, sim) := sim.collect channel
    (.ok responses, sim)

/-- The client's end of a stream of bytes. -/
structure StreamEnd where
  assembler : Assembler
  inbox : Array Response
  sink : Sink
deriving DecidableEq, Repr

namespace StreamEnd

/-- An end over which nothing has gone. -/
def fresh : StreamEnd := ⟨.fresh, #[], .empty⟩

/-- The response that a message is, if it is one. -/
def response? : Message → Option Response
  | .response r => some r
  | _ => none

/-- Takes bytes from the other end. Messages that are no responses are ignored. -/
def receive (e : StreamEnd) (s : List UInt8) : Except TransportError Unit × StreamEnd :=
  let (found, assembler) := e.assembler.feed s
  match found with
  | .error cause => (.error (.wire cause), { e with assembler })
  | .ok messages =>
      (.ok (), { e with assembler, inbox := e.inbox ++ (messages.filterMap response?).toArray })

/-- Writes the frame of a command. -/
def send (e : StreamEnd) (c : Command) : Except TransportError Unit × StreamEnd :=
  match (Message.command c).frame with
  | .error cause => (.error (.wire cause), e)
  | .ok bytes =>
      match e.sink.write bytes with
      | .error text => (.error (.io text), e)
      | .ok sink => (.ok (), { e with sink })

end StreamEnd

def Transport.stream : Transport StreamEnd where
  send := StreamEnd.send
  poll e := (.ok e.inbox.toList, { e with inbox := #[] })

/-- A rehearsal: what was sent, the last first, and what will be received. -/
structure Rehearsal where
  sent : List Command
  inbox : List Response
  broken : Bool

/-- Nothing sent and nothing to receive. -/
def Rehearsal.fresh : Rehearsal := ⟨[], [], false⟩

/-- A rehearsed transport refuses everything while it is broken. -/
def Transport.rehearsed : Transport Rehearsal where
  send s c := if s.broken then (.error .disconnected, s) else (.ok (), { s with sent := c :: s.sent })
  poll s := if s.broken then (.error .disconnected, s) else (.ok s.inbox, { s with inbox := [] })

end Terrarium
