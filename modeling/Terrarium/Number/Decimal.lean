import Terrarium.Number.Binary

namespace Terrarium.Decimal

open Terrarium.Binary

/-- The number `digits * 10 ^ exponent`. -/
structure Digits where
  digits : Nat
  exponent : Int
deriving Repr, DecidableEq

/-- The reals that round to a positive number of a format, in units of a quarter of its step:
from `low` to `high`, the ends included iff the mantissa is even. Below the least number of a
binade the step is half as wide. -/
structure Interval where
  low : Nat
  value : Nat
  high : Nat
  scale : Int
  closed : Bool

/-- The interval of `mantissa * 2 ^ scale` in a format. -/
def interval (f : Format) (mantissa : Nat) (scale : Int) : Interval :=
  let narrow := mantissa = Nat.pow 2 f.fractionBits ∧ f.leastScale < scale
  { low := 4 * mantissa - (if narrow then 1 else 2)
    value := 4 * mantissa
    high := 4 * mantissa + 2
    scale := scale - 2
    closed := mantissa % 2 = 0 }

/-- Whether `digits` steps of `num / den` lie in the interval scaled by `den`. -/
def Interval.holds (i : Interval) (num den digits : Nat) : Bool :=
  if i.closed then i.low * num ≤ digits * den && digits * den ≤ i.high * num
  else i.low * num < digits * den && digits * den < i.high * num

/-- Where a number goes that lies midway between its neighbours: to the even one, or to the greater
one. -/
inductive Tie where
  | even
  | up
deriving DecidableEq, Repr

/-- The whole number nearest to a quotient. -/
def Tie.nearest (t : Tie) (num den : Nat) : Nat :=
  match t with
  | even => divNearest num den
  | up => (2 * num + den) / (2 * den)

/-- Of the two neighbours of the value on the grid of step `10 ^ exponent`, the one that rounds
back to it; of two the nearer one. -/
def Interval.onGrid? (i : Interval) (tie : Tie) (exponent : Int) : Option Nat :=
  let num := Nat.pow 2 i.scale.toNat * Nat.pow 10 (-exponent).toNat
  let den := Nat.pow 2 (-i.scale).toNat * Nat.pow 10 exponent.toNat
  let below := i.value * num / den
  let nearest := tie.nearest (i.value * num) den
  if i.holds num den nearest then some nearest
  else if i.holds num den below then some below
  else if i.holds num den (below + 1) then some (below + 1)
  else none

/-- The exponent of the leading decimal digit of `value * 2 ^ scale`, or one less. -/
def leadingExponent (value : Nat) (scale : Int) : Int :=
  ((value.log2 + scale) * 30103 / 100000) - 1

/-- Tries the grids from coarse to fine; the last one is taken as it comes. -/
def shortestFrom (i : Interval) (tie : Tie) (exponent : Int) : Nat → Digits
  | 0 => ⟨(i.onGrid? tie exponent).getD 0, exponent⟩
  | finer + 1 =>
      match i.onGrid? tie exponent with
      | some digits => ⟨digits, exponent⟩
      | none => shortestFrom i tie (exponent - 1) finer

/-- Moves the zeros at the end of the digits into the exponent. -/
def Digits.trim (d : Digits) : Digits :=
  let rec go (digits : Nat) (exponent : Int) : Nat → Digits
    | 0 => ⟨digits, exponent⟩
    | more + 1 =>
        if digits % 10 = 0 ∧ digits ≠ 0 then go (digits / 10) (exponent + 1) more
        else ⟨digits, exponent⟩
  go d.digits d.exponent 20

/-- The shortest decimal that rounds to the positive number `mantissa * 2 ^ scale`, and of two such
the nearer one. -/
def shortest (f : Format) (tie : Tie) (mantissa : Nat) (scale : Int) : Digits :=
  let i := interval f mantissa scale
  (shortestFrom i tie (leadingExponent i.value i.scale + 2) 20).trim

/-- The decimal digits of a number, without an exponent. -/
def positional (d : Digits) : String :=
  let digits := toString d.digits
  if 0 ≤ d.exponent then digits ++ "".pushn '0' d.exponent.toNat
  else
    let places := (-d.exponent).toNat
    if digits.length ≤ places then "0." ++ "".pushn '0' (places - digits.length) ++ digits
    else (digits.take (digits.length - places)).toString ++ "." ++
      (digits.drop (digits.length - places)).toString

/-- The sign that stands before the text of a number. -/
def signText (negative : Bool) : String := if negative then "-" else ""

/-- A single-precision number in the fewest digits that read back, never with an exponent; a tie
goes to the greater neighbour. -/
def plainText (x : Float32) : String :=
  match valueOfSingle x with
  | .notANumber => "NaN"
  | .infinite negative => signText negative ++ "inf"
  | .finite negative 0 _ => signText negative ++ "0"
  | .finite negative mantissa scale =>
      signText negative ++ positional (shortest single .up mantissa scale)

/-- A double-precision number in the fewest digits that read back, a tie going to the even
neighbour: positional from `1e-5` up to `1e16` and then with at least one digit after the point, with
a bare exponent elsewhere. -/
def scientificText (x : Float) : String :=
  match valueOfDouble x with
  | .notANumber => ".nan"
  | .infinite negative => signText negative ++ ".inf"
  | .finite negative 0 _ => signText negative ++ "0.0"
  | .finite negative mantissa scale =>
      let d := shortest double .even mantissa scale
      let digits := toString d.digits
      let point := d.exponent + digits.length
      signText negative ++
        if -5 < point ∧ point ≤ 16 then
          positional d ++ (if 0 ≤ d.exponent then ".0" else "")
        else
          (digits.take 1).toString ++ (if digits.length = 1 then "" else "." ++ (digits.drop 1).toString) ++
            "e" ++ toString (point - 1)

/-- A single-precision number with exactly two places, a half going to the even neighbour. -/
def twoPlaces (x : Float32) : String :=
  match valueOfSingle x with
  | .notANumber => "NaN"
  | .infinite negative => signText negative ++ "inf"
  | .finite negative mantissa scale =>
      let cents := divNearest (100 * mantissa * Nat.pow 2 scale.toNat) (Nat.pow 2 (-scale).toNat)
      signText negative ++ toString (cents / 100) ++ "." ++
        toString (cents % 100 / 10) ++ toString (cents % 10)

end Terrarium.Decimal
