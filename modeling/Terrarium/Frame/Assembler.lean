import Terrarium.Frame.Basic

/-!
Messages out of a stream of bytes that arrives in pieces. An assembler holds the bytes of one
header or one payload; a byte that completes it moves the assembler on.
-/
namespace Terrarium

/-- What the held bytes belong to. -/
inductive Stage where
  | header
  | payload (c : MessageClass) (size : Nat)
deriving DecidableEq, Repr

/-- How many bytes a stage takes. -/
def Stage.size : Stage → Nat
  | .header => Frame.headerSize
  | .payload _ size => size

/-- The bytes of a header or payload that is not complete. -/
structure Assembler where
  stage : Stage
  held : Array UInt8
deriving DecidableEq, Repr

namespace Assembler

/-- An assembler at the start of a frame. -/
def fresh : Assembler := ⟨.header, #[]⟩

/-- How many bytes complete the header or payload. -/
def pending (a : Assembler) : Nat := a.stage.size - a.held.size

/-- Takes a complete header or payload. An empty payload is complete with its header. -/
def complete : Stage → List UInt8 → Except WireError (Option Message × Assembler)
  | .header, s =>
      match Frame.readHeader s with
      | .error e => .error e
      | .ok (c, 0) => (Frame.readPayload c []).map fun m => (some m, fresh)
      | .ok (c, size) => .ok (none, ⟨.payload c size, #[]⟩)
  | .payload c _, s => (Frame.readPayload c s).map fun m => (some m, fresh)

/-- Takes one byte, and gives the message that it completes. -/
def push (a : Assembler) (b : UInt8) : Except WireError (Option Message × Assembler) :=
  let held := a.held.push b
  if held.size < a.stage.size then .ok (none, ⟨a.stage, held⟩) else complete a.stage held.toList

/-- Takes bytes after those that made the messages so far. -/
def feedAfter (found : Array Message) (a : Assembler) :
    List UInt8 → Except WireError (List Message) × Assembler
  | [] => (.ok found.toList, a)
  | b :: s =>
      match a.push b with
      | .error e => (.error e, fresh)
      | .ok (none, a) => feedAfter found a s
      | .ok (some m, a) => feedAfter (found.push m) a s

/-- Takes bytes, and gives the messages that they complete. An error leaves a fresh assembler, and
drops the bytes that follow and the messages of the same piece. -/
def feed (a : Assembler) (s : List UInt8) : Except WireError (List Message) × Assembler :=
  a.feedAfter #[] s

end Assembler

end Terrarium
