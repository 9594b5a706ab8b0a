/-!
Binary interchange formats. A bit pattern stands for a sign and an exact value
`mantissa * 2 ^ scale`, for an infinity, or for no number at all; writing a value in a format
takes the nearest representable one, a tie going to the even pattern.
-/
namespace Terrarium.Binary

/-- A format is given by the widths of its fraction and exponent fields. -/
structure Format where
  fractionBits : Nat
  exponentBits : Nat
deriving Repr, DecidableEq

/-- Sixteen bits: eleven significant ones, subnormals in steps of `2 ^ -24`. -/
def half : Format := ⟨10, 5⟩

/-- Thirty-two bits: twenty-four significant ones. -/
def single : Format := ⟨23, 8⟩

/-- Sixty-four bits: fifty-three significant ones. -/
def double : Format := ⟨52, 11⟩

/-- What a bit pattern stands for. -/
inductive Value where
  | notANumber
  | infinite (negative : Bool)
  | finite (negative : Bool) (mantissa : Nat) (scale : Int)
deriving Repr, DecidableEq

namespace Format

/-- The pattern of positive infinity: the exponent field full, the fraction empty. -/
def infinityBits (f : Format) : Nat := (Nat.pow 2 f.exponentBits - 1) * Nat.pow 2 f.fractionBits

/-- The weight of the sign bit. -/
def signBit (f : Format) : Nat := Nat.pow 2 (f.exponentBits + f.fractionBits)

/-- The scale of subnormal numbers, which is the least one. -/
def leastScale (f : Format) : Int := 2 - (Nat.pow 2 (f.exponentBits - 1) + f.fractionBits : Nat)

def decode (f : Format) (bits : Nat) : Value :=
  let negative := bits / f.signBit % 2 = 1
  let exponent := bits / Nat.pow 2 f.fractionBits % Nat.pow 2 f.exponentBits
  let fraction := bits % Nat.pow 2 f.fractionBits
  if exponent = Nat.pow 2 f.exponentBits - 1 then
    if fraction = 0 then .infinite negative else .notANumber
  else if exponent = 0 then .finite negative fraction f.leastScale
  else .finite negative (Nat.pow 2 f.fractionBits + fraction) (f.leastScale + (exponent - 1 : Nat))

end Format

/-- The quotient `n / d` rounded to the nearest whole number, a tie to the even one. -/
def divNearest (n d : Nat) : Nat :=
  let q := n / d
  let r := n % d
  if d < 2 * r ∨ (2 * r = d ∧ q % 2 = 1) then q + 1 else q

namespace Format

/-- The unsigned pattern nearest to `mantissa * 2 ^ scale`. A mantissa that rounding carries into
the next binade needs no care of its own: the carry runs into the exponent field. -/
def magnitude (f : Format) (mantissa : Nat) (scale : Int) : Nat :=
  if mantissa = 0 then 0
  else
    let wanted := max (scale + mantissa.log2 - f.fractionBits) f.leastScale
    let rounded :=
      if wanted ≤ scale then mantissa * Nat.pow 2 (scale - wanted).toNat
      else divNearest mantissa (Nat.pow 2 (wanted - scale).toNat)
    min ((wanted - f.leastScale).toNat * Nat.pow 2 f.fractionBits + rounded) f.infinityBits

/-- The unsigned pattern nearest to the quotient `n / d`. The quotient is taken with more bits than
the format has, the last of which says whether anything is left over. -/
def quotient (f : Format) (n d : Nat) : Nat :=
  let shift := d.log2 + f.fractionBits + 4
  let q := n * Nat.pow 2 shift / d
  let rest := n * Nat.pow 2 shift % d
  f.magnitude (2 * q + if rest = 0 then 0 else 1) (-(shift + 1 : Nat))

/-- Writes a value; what is no number gets the quiet pattern without a sign. -/
def encode (f : Format) : Value → Nat
  | .notANumber => f.infinityBits + Nat.pow 2 (f.fractionBits - 1)
  | .infinite negative => (if negative then f.signBit else 0) + f.infinityBits
  | .finite negative mantissa scale =>
      (if negative then f.signBit else 0) + f.magnitude mantissa scale

end Format

/-- The single-precision number nearest to a double-precision one. -/
def singleOfDouble (x : Float) : Float32 :=
  Float32.ofBits (UInt32.ofNat (single.encode (double.decode x.toBits.toNat)))

/-- The double-precision number nearest to a value. -/
def doubleOfValue (v : Value) : Float := Float.ofBits (UInt64.ofNat (double.encode v))

/-- The double-precision number nearest to a whole one. -/
def doubleOfNat (n : Nat) : Float := doubleOfValue (.finite false n 0)

/-- The number a half-precision pattern stands for, which single precision holds exactly. -/
def singleOfHalf (bits : Nat) : Float32 :=
  Float32.ofBits (UInt32.ofNat (single.encode (half.decode bits)))

/-- The half-precision pattern of a number, if half precision holds it exactly. -/
def halfOfSingle? (x : Float32) : Option Nat :=
  let bits := half.encode (single.decode x.toBits.toNat)
  if (singleOfHalf bits).toBits = x.toBits then some bits else none

/-- What `x` stands for, as a value of its format. -/
def valueOfSingle (x : Float32) : Value := single.decode x.toBits.toNat

/-- What `x` stands for, as a value of its format. -/
def valueOfDouble (x : Float) : Value := double.decode x.toBits.toNat

end Terrarium.Binary
