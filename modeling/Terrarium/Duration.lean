import Terrarium.Number.Binary

namespace Terrarium

/-- A length of time. -/
structure Duration where
  nanos : Nat
deriving DecidableEq, Repr

namespace Duration

/-- A second in nanoseconds. -/
def second : Nat := 1000000000

/-- No duration has this many nanoseconds or more. -/
def limit : Nat := UInt64.size * second

def zero : Duration := ⟨0⟩

/-- Microseconds. -/
def ofMicros (n : Nat) : Duration := ⟨1000 * n⟩

/-- A duration in seconds: the whole ones and the rest are rounded apart. -/
def seconds (d : Duration) : Float :=
  Binary.doubleOfNat (d.nanos / second) + Binary.doubleOfNat (d.nanos % second) / Binary.doubleOfNat second

/-- The duration of a number of seconds, to the nearest nanosecond and a tie to the even one. There
is none for numbers that are negative, too large or not numbers. -/
def ofSeconds? (x : Float) : Option Duration :=
  match Binary.valueOfDouble x with
  | .finite negative mantissa scale =>
      let nanos :=
        Binary.divNearest (second * (mantissa * Nat.pow 2 scale.toNat))
          (Nat.pow 2 (-scale).toNat)
      if negative && mantissa ≠ 0 || limit ≤ nanos then none else some ⟨nanos⟩
  | _ => none

def times? (d : Duration) (factor : Float) : Option Duration := ofSeconds? (factor * d.seconds)

/-- A number of units with a decimal fraction of `places` digits, of which zeros at the end are
left out. -/
def inUnits (nanos places : Nat) (name : String) : String :=
  let digits := (toString (Nat.pow 10 places + nanos % Nat.pow 10 places)).toList.drop 1
  let kept := (digits.reverse.dropWhile (· = '0')).reverse
  toString (nanos / Nat.pow 10 places) ++ (if kept.isEmpty then "" else "." ++ String.ofList kept) ++ name

/-- A duration in the largest unit of which there is at least one. -/
def text (d : Duration) : String :=
  if second ≤ d.nanos then inUnits d.nanos 9 "s"
  else if 1000000 ≤ d.nanos then inUnits d.nanos 6 "ms"
  else if 1000 ≤ d.nanos then inUnits d.nanos 3 "µs"
  else inUnits d.nanos 0 "ns"

def sum? (ds : List Duration) : Option Duration :=
  let nanos := ds.foldr (fun d n => d.nanos + n) 0
  if nanos < limit then some ⟨nanos⟩ else none

end Duration

end Terrarium
