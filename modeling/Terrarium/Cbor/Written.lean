import Terrarium.Cbor.Head

namespace Terrarium.Cbor

def writeUnsigned (n : Nat) : List UInt8 := writeHead 0 n

def writeText (s : String) : List UInt8 := writeHead 3 s.utf8ByteSize ++ s.toByteArray.data.toList

def writeFloat (x : Float32) : List UInt8 :=
  match Binary.halfOfSingle? x with
  | some bits => 0xf9 :: bigEndian 2 bits
  | none => 0xfa :: bigEndian 4 x.toBits.toNat

/-- An array of items that are already written. -/
def writeArray (items : List (List UInt8)) : List UInt8 := writeHead 4 items.length ++ items.flatten

/-- A record: a map from names to items that are already written. -/
def writeRecord (fields : List (String × List UInt8)) : List UInt8 :=
  writeHead 5 fields.length ++ fields.flatMap fun f => writeText f.1 ++ f.2

/-- A choice that carries something: a record of one field, named for the choice. -/
def writeChoice (name : String) (content : List UInt8) : List UInt8 := writeRecord [(name, content)]

end Terrarium.Cbor
