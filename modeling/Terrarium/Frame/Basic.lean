import Terrarium.Message.Reading
import Terrarium.Message.Written

namespace Terrarium

/-- Why a message has no frame, or bytes hold no message. -/
inductive WireError where
  | tooLarge (size : Nat)
  | unknownClass (raw : UInt32)
  | malformed
deriving DecidableEq, Repr

namespace Frame

def headerSize : Nat := 8

/-- The greatest size of a payload: a patch of 60 by 60 cells of sixteen numbers each, and some room
around it. -/
def maxPayload : Nat := 60 * 60 * 16 * 4 + 1024

/-- The lowest bytes of a number, lowest first. -/
def littleEndian : Nat → Nat → List UInt8
  | 0, _ => []
  | width + 1, n => UInt8.ofNat n :: littleEndian width (n / 256)

/-- The number that bytes stand for, lowest first. -/
def ofLittleEndian : List UInt8 → Nat
  | [] => 0
  | b :: s => b.toNat + 256 * ofLittleEndian s

def header (c : MessageClass) (size : Nat) : List UInt8 :=
  littleEndian 4 c.code.toNat ++ littleEndian 4 size

/-- Reads a complete header: the class comes first and is checked first. -/
def readHeader (s : List UInt8) : Except WireError (MessageClass × Nat) :=
  let raw := UInt32.ofNat (ofLittleEndian (s.take 4))
  let size := ofLittleEndian ((s.drop 4).take 4)
  match MessageClass.ofCode? raw with
  | none => .error (.unknownClass raw)
  | some c => if maxPayload < size then .error (.tooLarge size) else .ok (c, size)

def readPayload (c : MessageClass) (s : List UInt8) : Except WireError Message :=
  match Message.ofPayload? c s with
  | none => .error .malformed
  | some m => .ok m

end Frame

/-- The wording of an error; bytes that are malformed have none of their own. -/
def WireError.message? : WireError → Option String
  | .tooLarge size =>
      some ("message of " ++ toString size ++ " bytes exceeds the maximum of " ++
        toString Frame.maxPayload)
  | .unknownClass raw => some ("unknown message class " ++ toString raw.toNat)
  | .malformed => none

def Message.frame (m : Message) : Except WireError (List UInt8) :=
  let payload := m.payload
  let size := payload.length
  if Frame.maxPayload < size then .error (.tooLarge size)
  else .ok (Frame.header m.class size ++ payload)

end Terrarium
