import Terrarium.Number.Binary

/-!
Heads of CBOR items. A head is one byte, three bits of which say what kind of item follows, and an
argument of up to eight bytes, most significant first. A head is written in as few bytes as its
argument needs; one that is longer is read all the same.
-/
namespace Terrarium.Cbor

/-- What the head of an item says. A length that is missing belongs to an item that goes on until
a stop. -/
inductive Head where
  | unsigned (n : UInt64)
  | negative (n : UInt64)
  | bytes (length : Option Nat)
  | text (length : Option Nat)
  | array (length : Option Nat)
  | map (length : Option Nat)
  | tag (n : UInt64)
  | simple (n : Nat)
  | float (x : Float32)
  | stop
deriving DecidableEq

/-- The lowest bytes of a number, most significant first. -/
def bigEndian : Nat → Nat → List UInt8
  | 0, _ => []
  | width + 1, n => UInt8.ofNat (n / Nat.pow 256 width) :: bigEndian width n

/-- The number that bytes stand for, most significant first. -/
def ofBigEndian (s : List UInt8) : Nat := s.foldl (fun n b => n * 256 + b.toNat) 0

/-- The head of a major kind with an argument, as short as the argument allows. -/
def writeHead (major n : Nat) : List UInt8 :=
  if n < 24 then [UInt8.ofNat (32 * major + n)]
  else if n < UInt8.size then UInt8.ofNat (32 * major + 24) :: bigEndian 1 n
  else if n < UInt16.size then UInt8.ofNat (32 * major + 25) :: bigEndian 2 n
  else if n < UInt32.size then UInt8.ofNat (32 * major + 26) :: bigEndian 4 n
  else UInt8.ofNat (32 * major + 27) :: bigEndian 8 n

def takeExact (n : Nat) (s : List UInt8) : Option (List UInt8 × List UInt8) :=
  let front := s.take n
  if front.length = n then some (front, s.drop n) else none

/-- Reads a number of `width` bytes. -/
def readBigEndian (width : Nat) (s : List UInt8) : Option (Nat × List UInt8) :=
  match takeExact width s with
  | none => none
  | some (front, rest) => some (ofBigEndian front, rest)

/-- Reads the argument that the low five bits of a head announce. -/
def readArgument (info : Nat) (s : List UInt8) : Option (Option Nat × List UInt8) :=
  if info < 24 then some (some info, s)
  else if info < 28 then
    match readBigEndian (Nat.pow 2 (info - 24)) s with
    | none => none
    | some (n, rest) => some (some n, rest)
  else if info = 31 then some (none, s)
  else none

/-- The head of a major kind other than the last, with its argument. -/
def headOf (major : Nat) (argument : Option Nat) : Option Head :=
  match major, argument with
  | 0, some n => some (.unsigned (UInt64.ofNat n))
  | 1, some n => some (.negative (UInt64.ofNat n))
  | 2, length => some (.bytes length)
  | 3, length => some (.text length)
  | 4, length => some (.array length)
  | 5, length => some (.map length)
  | 6, some n => some (.tag (UInt64.ofNat n))
  | _, _ => none

/-- Reads the rest of a head of the last major kind: simple values, numbers and the stop. -/
def pullSpecial (info : Nat) (s : List UInt8) : Option (Head × List UInt8) :=
  match info, readArgument info s with
  | 25, some (some n, rest) => some (.float (Binary.singleOfHalf n), rest)
  | 26, some (some n, rest) => some (.float (Float32.ofBits (UInt32.ofNat n)), rest)
  | 27, some (some n, rest) =>
      some (.float (Binary.singleOfDouble (Float.ofBits (UInt64.ofNat n))), rest)
  | _, some (some n, rest) => some (.simple n, rest)
  | _, some (none, rest) => some (.stop, rest)
  | _, none => none

def pull : List UInt8 → Option (Head × List UInt8)
  | [] => none
  | b :: s =>
      let major := b.toNat / 32
      let info := b.toNat % 32
      if major = 7 then pullSpecial info s
      else
        match readArgument info s with
        | none => none
        | some (argument, rest) => (headOf major argument).map fun head => (head, rest)

end Terrarium.Cbor
