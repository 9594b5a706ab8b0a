import Terrarium.Operation

namespace Terrarium

/-- A message about the link itself. -/
inductive LinkSignal where
  | ping (seq : UInt64)
  | pong (seq : UInt64)
deriving DecidableEq, Repr

/-- The token of commands that want no response. -/
def noToken : UInt64 := 0

/-- An operation for the world, with a token that its response will carry. -/
structure Command where
  token : UInt64
  op : Operation
deriving BEq, DecidableEq

namespace Command

/-- A command that wants no response. -/
def tokenless (op : Operation) : Command := ⟨noToken, op⟩

/-- Whether a command wants a response. -/
def wantsResponse (c : Command) : Bool := c.token ≠ noToken

end Command

/-- The outcome of a command's operation, with the command's token. -/
structure Response where
  token : UInt64
  outcome : Outcome
deriving DecidableEq, Repr

/-- What can travel in a frame. -/
inductive Message where
  | link (signal : LinkSignal)
  | command (c : Command)
  | response (r : Response)
deriving BEq, DecidableEq

/-- What kind of message a frame holds. -/
inductive MessageClass where
  | link
  | command
  | response
deriving DecidableEq, Repr

namespace MessageClass

/-- The number of a class in a frame's header. -/
def code : MessageClass → UInt32
  | link => 0
  | command => 1
  | response => 2

/-- The class that a number stands for. -/
def ofCode? (raw : UInt32) : Option MessageClass :=
  if raw = 0 then some link
  else if raw = 1 then some command
  else if raw = 2 then some response
  else none

end MessageClass

def Message.class : Message → MessageClass
  | .link _ => .link
  | .command _ => .command
  | .response _ => .response

end Terrarium
