import Terrarium.Number.Binary
import Terrarium.Yaml.Character

namespace Terrarium.Yaml

/-- The number that digits stand for, of which there is at least one. -/
def digitsIn? (radix : Nat) (s : List Char) : Option Nat :=
  if s.isEmpty then none
  else s.foldl (fun n c => do return radix * (← n) + (← digit? radix c)) (some 0)

/-- A whole number, with at most a plus sign. -/
def whole? (text : String) : Option Nat :=
  let s := text.toList
  let s := if s.head? = some '+' then s.drop 1 else s
  match s with
  | '0' :: 'x' :: digits => digitsIn? 16 digits
  | '0' :: 'o' :: digits => digitsIn? 8 digits
  | '0' :: 'b' :: digits => digitsIn? 2 digits
  | ['0'] => some 0
  | '0' :: _ => none
  | digits => digitsIn? 10 digits

/-- A decimal fraction in parts. -/
structure Fraction where
  digits : Nat
  exponent : Int

/-- The digits at the front, and what follows them. -/
def spanDigits (s : List Char) : List Char × List Char :=
  (s.takeWhile Char.isDigit, s.dropWhile Char.isDigit)

/-- The exponent of a fraction; there is none at the end of it. -/
def exponent? : List Char → Option Int
  | [] => some 0
  | c :: s =>
      if c = 'e' || c = 'E' then
        match s with
        | '-' :: digits => (digitsIn? 10 digits).map fun n => -n
        | '+' :: digits => (digitsIn? 10 digits).map fun n => n
        | digits => (digitsIn? 10 digits).map fun n => n
      else none

/-- A decimal fraction without a sign, with a digit before the point or after it. -/
def fraction? (s : List Char) : Option Fraction :=
  let (before, s) := spanDigits s
  let (after, s) := if s.head? = some '.' then spanDigits (s.drop 1) else ([], s)
  match digitsIn? 10 (before ++ after), exponent? s with
  | some digits, some e => some ⟨digits, e - after.length⟩
  | _, _ => none

/-- The pattern of the double-precision number nearest to a fraction. A fraction far out of the
format's range is not computed. -/
def Fraction.nearest (f : Fraction) : Nat :=
  let places : Int := (toString f.digits).length
  if f.digits = 0 || f.exponent + places < -400 then 0
  else if 400 < f.exponent + places then Binary.double.infinityBits
  else
    Binary.double.quotient (f.digits * Nat.pow 10 f.exponent.toNat)
      (Nat.pow 10 (-f.exponent).toNat)

/-- A finite decimal number with at most a minus sign. -/
def finite? (s : List Char) : Option Float :=
  let negative := s.head? = some '-'
  match fraction? (if negative then s.drop 1 else s) with
  | none => none
  | some f =>
      let bits := f.nearest
      let sign := if negative then Binary.double.signBit else 0
      if bits = Binary.double.infinityBits then none
      else some (Float.ofBits (UInt64.ofNat (sign + bits)))

def infinity : Float := Binary.doubleOfValue (.infinite false)

/-- Any number; a plus sign stands before one that has no other. -/
def real? (text : String) : Option Float :=
  let s := text.toList
  let unsigned := if s.head? = some '+' then s.drop 1 else s
  if String.ofList unsigned ∈ [".inf", ".Inf", ".INF"] then some infinity
  else if text ∈ ["-.inf", "-.Inf", "-.INF"] then some (-infinity)
  else if text ∈ [".nan", ".NaN", ".NAN"] then
    some (Binary.doubleOfValue .notANumber)
  else if s.head? = some '+' && unsigned.head? = some '-' then none
  else finite? unsigned

end Terrarium.Yaml
