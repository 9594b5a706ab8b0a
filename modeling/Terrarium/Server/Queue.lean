import Terrarium.Message.Basic

namespace Terrarium

/-- Where responses go: every peer has a channel of its own. -/
abbrev Channel := Nat

/-- Who wants to know how an operation ends. -/
structure ReplyTo where
  token : UInt64
  channel : Channel
deriving DecidableEq, Repr

/-- An operation that waits. -/
structure QueuedOperation where
  op : Operation
  reply : Option ReplyTo
deriving DecidableEq

namespace QueuedOperation

/-- An operation that nobody asks after. -/
def silent (op : Operation) : QueuedOperation := ⟨op, none⟩

/-- The operation of a command. A command without a token is silent. -/
def ofCommand (c : Command) (channel : Channel) : QueuedOperation :=
  ⟨c.op, if c.wantsResponse then some ⟨c.token, channel⟩ else none⟩

/-- The response to an operation, and where it goes. -/
def answer? (q : QueuedOperation) (outcome : Outcome) : Option (Channel × Response) :=
  q.reply.map fun r => (r.channel, ⟨r.token, outcome⟩)

end QueuedOperation

/-- The operations that wait, the first to be executed first. -/
structure OperationQueue where
  waiting : Array QueuedOperation
deriving DecidableEq

namespace OperationQueue

def empty : OperationQueue := ⟨#[]⟩

def push (q : OperationQueue) (item : QueuedOperation) : OperationQueue := ⟨q.waiting.push item⟩

/-- Appends operations that are to be executed in one frame. -/
def pushAll (q : OperationQueue) (items : List QueuedOperation) : OperationQueue :=
  ⟨q.waiting ++ items.toArray⟩

def takeAll (q : OperationQueue) : List QueuedOperation × OperationQueue :=
  (q.waiting.toList, empty)

def length (q : OperationQueue) : Nat := q.waiting.size

def isEmpty (q : OperationQueue) : Bool := q.length = 0

end OperationQueue

end Terrarium
