import Terrarium.Cbor.Reading

namespace Terrarium.Cbor

/-- An item. The number of `negative n` is `-1 - n`. -/
inductive Datum where
  | unsigned (n : UInt64)
  | negative (n : UInt64)
  | bytes (b : List UInt8)
  | text (s : String)
  | array (items : List Datum)
  | map (entries : List (Datum × Datum))
  | bool (b : Bool)
  | null
  | float (x : Float32)

namespace Datum

/-- Reads an item; `inner` reads the elements of a container, if there may be one. -/
def readWith (inner : Option (List UInt8 → Reading Datum)) (s : List UInt8) : Reading Datum :=
  match pull s with
  | some (.unsigned n, rest) => some (unsigned n, rest)
  | some (.negative n, rest) => if n.toNat < Nat.pow 2 63 then some (negative n, rest) else none
  | some (.float x, rest) => some (float x, rest)
  | some (.simple 20, rest) => some (bool false, rest)
  | some (.simple 21, rest) => some (bool true, rest)
  | some (.simple 22, rest) => some (null, rest)
  | some (.simple 23, rest) => some (null, rest)
  | some (.bytes length, rest) => (bytesAfter length rest).map fun (b, rest) => (bytes b, rest)
  | some (.text length, rest) => (textAfter length rest).map fun (t, rest) => (text t, rest)
  | some (.array length, rest) =>
      match inner with
      | none => none
      | some inner =>
          (elements
            (fun (acc : Array Datum) s => (inner s).map fun (item, rest) => (acc.push item, rest))
            length #[] rest).map fun (acc, rest) => (array acc.toList, rest)
  | some (.map length, rest) =>
      match inner with
      | none => none
      | some inner =>
          (elements
            (fun (acc : Array (Datum × Datum)) s =>
              match inner s with
              | none => none
              | some (key, s) => (inner s).map fun (value, rest) => (acc.push (key, value), rest))
            length #[] rest).map fun (acc, rest) => (map acc.toList, rest)
  | _ => none

/-- Reads an item with at most `depth` containers inside each other. -/
def read : (depth : Nat) → List UInt8 → Reading Datum
  | 0 => readWith none
  | depth + 1 => readWith (some (read depth))

/-- The word that an item stands for. -/
def word? : Datum → Option UInt64
  | unsigned n => some n
  | _ => none

/-- The 32-bit word that an item stands for. -/
def word32? : Datum → Option UInt32
  | unsigned n => if n.toNat < UInt32.size then some (UInt32.ofNat n.toNat) else none
  | _ => none

/-- The number that an item stands for; whole numbers are rounded. -/
def float? : Datum → Option Float32
  | float x => some x
  | unsigned n => some n.toFloat32
  | negative n => some (-(n + 1).toFloat32)
  | _ => none

def items? : Datum → Option (List Datum)
  | array items => some items
  | _ => none

/-- Whether an item is a certain name. -/
def isName (n : String) : Datum → Bool
  | text s => s = n
  | bytes b => textOf? b = some n
  | _ => false

/-- The place of a key among the names of a record's fields: a name stands at its own place or, if
no field has it, at none; a whole number is itself the place. Other items are no keys. -/
def place? (names : List String) : Datum → Option Nat
  | text s => some (names.idxOf s)
  | bytes b =>
      match textOf? b with
      | some s => some (names.idxOf s)
      | none => some names.length
  | unsigned n => some n.toNat
  | _ => none

/-- The only entry at a place. -/
def only? (place : Nat) (entries : List (Nat × Datum)) : Option Datum :=
  match entries.filter (fun e => e.1 = place) with
  | [(_, d)] => some d
  | _ => none

/-- The values of a record's fields, in the order of their names. In a map every key has to be
one, keys without a field do not count, and each field is given once; an array holds exactly the
values. -/
def fields? (names : List String) : Datum → Option (List Datum)
  | array items => if items.length = names.length then some items else none
  | map entries =>
      match entries.mapM fun e => (place? names e.1).map fun p => (p, e.2) with
      | none => none
      | some placed => (List.range names.length).mapM fun p => only? p placed
  | _ => none

end Datum

end Terrarium.Cbor
