import Terrarium.Frame.Assembler
import Terrarium.Server.Simulation
import Terrarium.Sink

namespace Terrarium

/-- Why a connection stops. -/
inductive ServerError where
  | settings (e : SettingsError)
  | io (text : String)
  | wire (e : WireError)
deriving DecidableEq, Repr

/-- The wording of an error, as far as its cause has one. -/
def ServerError.message? : ServerError → Option String
  | .settings e => e.message?.map ("configuration error: " ++ ·)
  | .io text => some ("IO error: " ++ text)
  | .wire e => e.message?.map ("protocol error: " ++ ·)

/-- What one attempt to read gives. -/
inductive Read where
  | bytes (s : List UInt8)
  | interrupted
  | failed (text : String)
deriving DecidableEq, Repr

/-- The state of a connection. -/
structure Connection where
  channel : Channel
  assembler : Assembler
  sink : Sink
deriving DecidableEq, Repr

namespace Connection

/-- A connection whose responses come on a channel. -/
def new (channel : Channel) : Connection := ⟨channel, .fresh, .empty⟩

/-- How many bytes are read at once. -/
def readSize : Nat := 4096

/-- Writes the frame of a message. -/
def send (sink : Sink) (m : Message) : Except ServerError Sink :=
  match m.frame with
  | .error e => .error (.wire e)
  | .ok bytes =>
      match sink.write bytes with
      | .error text => .error (.io text)
      | .ok sink => .ok sink

/-- Handles messages in their order: commands are submitted, pings answered, and the others
ignored. -/
def handle (c : Connection) (sim : Simulation) :
    List Message → Except ServerError Unit × Connection × Simulation
  | [] => (.ok (), c, sim)
  | .command command :: rest => c.handle (sim.submit command c.channel) rest
  | .link (.ping seq) :: rest =>
      match send c.sink (.link (.pong seq)) with
      | .error e => (.error e, c, sim)
      | .ok sink => handle { c with sink } sim rest
  | _ :: rest => c.handle sim rest

/-- Takes bytes from the peer, and counts the messages that they complete. -/
def receive (c : Connection) (sim : Simulation) (s : List UInt8) :
    Except ServerError Nat × Connection × Simulation :=
  let (found, assembler) := c.assembler.feed s
  let c := { c with assembler }
  match found with
  | .error e => (.error (.wire e), c, sim)
  | .ok messages =>
      let (handled, c, sim) := c.handle sim messages
      (handled.map fun _ => messages.length, c, sim)

/-- Sends the responses on a channel, and counts them. One that cannot be sent is lost; those after
it stay. -/
def flushFrom (channel : Channel) (sink : Sink) :
    List (Channel × Response) → Except ServerError Nat × Sink × List (Channel × Response)
  | [] => (.ok 0, sink, [])
  | (own, r) :: rest =>
      if own = channel then
        match send sink (.response r) with
        | .error e => (.error e, sink, rest)
        | .ok sink =>
            let (sent, sink, rest) := flushFrom channel sink rest
            (sent.map (· + 1), sink, rest)
      else
        let (sent, sink, rest) := flushFrom channel sink rest
        (sent, sink, (own, r) :: rest)

/-- Sends the responses that have come in, and counts them. -/
def flush (c : Connection) (sim : Simulation) :
    Except ServerError Nat × Connection × Simulation :=
  let (sent, sink, posted) := flushFrom c.channel c.sink sim.posted
  (sent, { c with sink }, { sim with posted })

/-- Takes the bytes of one read and sends the responses that have come in. -/
def serveBytes (c : Connection) (sim : Simulation) (s : List UInt8) :
    Except ServerError Unit × Connection × Simulation :=
  match c.receive sim s with
  | (.error e, c, sim) => (.error e, c, sim)
  | (.ok _, c, sim) =>
      let (sent, c, sim) := c.flush sim
      (sent.map fun _ => (), c, sim)

/-- Takes the bytes of reads in turn. -/
def serveAll (c : Connection) (sim : Simulation) :
    List (List UInt8) → Except ServerError Unit × Connection × Simulation
  | [] => (.ok (), c, sim)
  | s :: rest =>
      match c.serveBytes sim s with
      | (.error e, c, sim) => (.error e, c, sim)
      | (.ok _, c, sim) => c.serveAll sim rest

/-- Serves a peer until its stream ends, which a read of nothing says. A read gives at most
`readSize` bytes; one that was interrupted is tried again. -/
def serve (c : Connection) (sim : Simulation) :
    List Read → Except ServerError Unit × Connection × Simulation
  | [] | .bytes [] :: _ =>
      let (sent, c, sim) := c.flush sim
      (sent.map fun _ => (), c, sim)
  | .interrupted :: rest => c.serve sim rest
  | .failed text :: _ => (.error (.io text), c, sim)
  | .bytes s :: rest =>
      match c.serveAll sim (pieces readSize s) with
      | (.error e, c, sim) => (.error e, c, sim)
      | (.ok _, c, sim) => c.serve sim rest

end Connection

end Terrarium
