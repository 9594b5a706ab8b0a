namespace Terrarium

/-- What was written so far, the last first, and what is wrong, if anything. -/
structure Sink where
  written : List (List UInt8)
  fault : Option String
deriving DecidableEq, Repr

namespace Sink

/-- A sink that works, with nothing in it. -/
def empty : Sink := ⟨[], none⟩

/-- Writes bytes, all or none of them. -/
def write (s : Sink) (bytes : List UInt8) : Except String Sink :=
  match s.fault with
  | some text => .error text
  | none => .ok { s with written := bytes :: s.written }

def bytes (s : Sink) : List UInt8 := s.written.reverse.flatten

def drain (s : Sink) : List UInt8 × Sink := (s.bytes, { s with written := [] })

end Sink

/-- Cuts a list into pieces of one length, of which the last may be shorter. -/
def pieces {α : Type} (size : Nat) : List α → List (List α)
  | [] => []
  | a :: s => (a :: s.take (size - 1)) :: pieces size (s.drop (size - 1))
termination_by s => s.length

end Terrarium
