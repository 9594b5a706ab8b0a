import Terrarium.Frame.Basic

/-!
Clients give each command that wants a result a token of its own, and hand the result to the
callback that waits under the token. A callback is called once.
-/
namespace Terrarium

/-- Why a command is not sent, or why no responses come. -/
inductive TransportError where
  | disconnected
  | io (text : String)
  | wire (e : WireError)
deriving DecidableEq, Repr

/-- The wording of an error, as far as its cause has one. -/
def TransportError.message? : TransportError → Option String
  | .disconnected => some "backend disconnected"
  | .io text => some ("IO error: " ++ text)
  | .wire e => e.message?.map ("protocol error: " ++ ·)

/-- A way to send commands and to get the responses received since the last time, with the state
`σ` it keeps. -/
structure Transport (σ : Type) where
  send : σ → Command → Except TransportError Unit × σ
  poll : σ → Except TransportError (List Response) × σ

/-- The next token, and the callbacks that wait under their tokens. -/
structure Client (κ : Type) where
  nextToken : UInt64
  waiting : List (UInt64 × κ)

/-- A callback and the outcome it is called with. -/
abbrev Call (κ : Type) := κ × Outcome

namespace Client

variable {κ σ : Type}

/-- A client that has sent nothing. -/
def new : Client κ := ⟨1, []⟩

def pending (c : Client κ) : Nat := c.waiting.length

def without (c : Client κ) (token : UInt64) : Client κ :=
  { c with waiting := c.waiting.filter fun w => w.1 ≠ token }

/-- Registers a callback under the next token. -/
def register (c : Client κ) (callback : κ) : UInt64 × Client κ :=
  (c.nextToken, ⟨c.nextToken + 1, (c.nextToken, callback) :: c.waiting⟩)

/-- Sends an operation, and gives the token of the command. A callback is registered before the
command is sent, and taken back if it is refused. -/
def send (t : Transport σ) (c : Client κ) (s : σ) (op : Operation) (callback : Option κ) :
    Except TransportError UInt64 × Client κ × σ :=
  match callback with
  | none =>
      let (sent, s) := t.send s (.tokenless op)
      (sent.map fun _ => noToken, c, s)
  | some callback =>
      let (token, c) := c.register callback
      match t.send s ⟨token, op⟩ with
      | (.error e, s) => (.error e, c.without token, s)
      | (.ok _, s) => (.ok token, c, s)

/-- Receives a response: says whether a callback waits for it, and gives the call it leads to. -/
def receive (c : Client κ) (r : Response) : Bool × Option (Call κ) × Client κ :=
  match c.waiting.find? fun w => w.1 = r.token with
  | none => (false, none, c)
  | some w => (true, some (w.2, r.outcome), c.without r.token)

/-- The call that a response leads to, if a callback waits for it. -/
def dispatch (c : Client κ) (r : Response) : Option (Call κ) × Client κ := (c.receive r).2

/-- The calls that responses lead to. -/
def dispatchAll (c : Client κ) : List Response → List (Call κ) × Client κ
  | [] => ([], c)
  | r :: rest =>
      let (call, c) := c.dispatch r
      let (calls, c) := c.dispatchAll rest
      (call.toList ++ calls, c)

/-- Dispatches the responses that the transport has, and counts them. -/
def pump (t : Transport σ) (c : Client κ) (s : σ) :
    Except TransportError Nat × List (Call κ) × Client κ × σ :=
  match t.poll s with
  | (.error e, s) => (.error e, [], c, s)
  | (.ok responses, s) =>
      let (calls, c) := c.dispatchAll responses
      (.ok responses.length, calls, c, s)

/-- Dispatches the responses that the transport has, and says whether no callback waits any
more. -/
def idle (t : Transport σ) (c : Client κ) (s : σ) :
    Except TransportError Bool × List (Call κ) × Client κ × σ :=
  let (count, calls, c, s) := c.pump t s
  (count.map fun _ => c.pending = 0, calls, c, s)

end Client

end Terrarium
