import Mathlib
import Terrarium.Number.Binary

/-!
The bits of a number, in a format of any width: what unpacking finds in them, which is what decoding
does, and what becomes of a number when it is packed and unpacked again. The library's lemmas on
unpacking and packing come with the whole of it only, and with no module of it alone.
-/
namespace Terrarium.Packed

open Float.Model (Format UnpackedFloat totalExponent)
open Float.Model.UnpackedFloat

variable {f : Format}

/-- The exponent an infinity would have, were it a number. -/
def beyond (f : Format) : Int := 2 ^ f.exponentBits - 2 + f.minExponent

/-- Mantissas of no more bits than there are, with all of them in use unless the exponent is the
least one. -/
structure Normal (f : Format) (m : Nat) (e : Int) : Prop where
  mantissa : m < 2 ^ f.mantissaBits
  exponent : f.minExponent ≤ e
  full : e = f.minExponent ∨ 2 ^ f.mantissaBitsWithoutImplicit ≤ m

/-- What the bits of a number can say. -/
def Canonical (f : Format) : UnpackedFloat → Prop
  | .finite _ m e _ => Normal f m e ∧ e < beyond f
  | _ => True

theorem bias_eq (f : Format) :
    (f.exponentBias : Int) + f.mantissaBitsWithoutImplicit = 1 - f.minExponent := by
  have hpos : 0 < 2 ^ (f.exponentBits - 1) := Nat.two_pow_pos _
  have hcast : (((2 ^ (f.exponentBits - 1) : Nat)) : Int) = 2 ^ (f.exponentBits - 1) :=
    Int.natCast_pow 2 _
  rw [Format.exponentBias, Format.minExponent, Format.mantissaBits]
  omega

theorem two_pow_mantissaBits (f : Format) :
    2 ^ f.mantissaBits = 2 ^ f.mantissaBitsWithoutImplicit + 2 ^ f.mantissaBitsWithoutImplicit := by
  rw [Format.mantissaBits, Nat.add_comm, Nat.pow_succ, Nat.mul_two]

variable {b : BitVec f.numBits}

theorem toNat_unpackMantissa (b : BitVec f.numBits) :
    (unpackMantissa b).toNat = b.toNat % 2 ^ f.mantissaBitsWithoutImplicit := by
  rw [unpackMantissa_def, BitVec.extractLsb'_toNat, Nat.shiftRight_zero]

theorem toNat_unpackExponent (b : BitVec f.numBits) :
    (unpackExponent b).toNat =
      b.toNat / 2 ^ f.mantissaBitsWithoutImplicit % 2 ^ f.exponentBits := by
  rw [unpackExponent_def, BitVec.extractLsb'_toNat, Nat.shiftRight_eq_div_pow]

/-- Whether a sign is a minus. -/
def negative : Sign → Bool
  | .negative => true
  | .positive => false

theorem negative_eq_false {s : Sign} (h : negative s = false) : s = .positive := by
  cases s with
  | negative => cases h
  | positive => rfl

theorem negative_ofBitVec (sign : BitVec 1) :
    negative (Sign.ofBitVec sign) = decide (sign.toNat = 1) := by
  decide +revert

theorem negative_unpackSign (b : BitVec f.numBits) : negative (Sign.ofBitVec (unpackSign b)) =
    decide (b.toNat / 2 ^ (f.exponentBits + f.mantissaBitsWithoutImplicit) % 2 = 1) := by
  rw [negative_ofBitVec, unpackSign_def, BitVec.extractLsb'_toNat, Nat.shiftRight_eq_div_pow,
    Nat.pow_one, Nat.add_comm f.exponentBits]

theorem exponent_eq_full :
    unpackExponent b = -1#f.exponentBits ↔ (unpackExponent b).toNat = 2 ^ f.exponentBits - 1 := by
  rw [BitVec.neg_one_eq_allOnes, ← BitVec.toNat_allOnes, BitVec.toNat_inj]

theorem exponent_eq_zero :
    unpackExponent b = 0#f.exponentBits ↔ (unpackExponent b).toNat = 0 := by
  rw [← BitVec.toNat_inj, BitVec.toNat_zero]

theorem mantissa_eq_zero :
    unpackMantissa b = 0#f.mantissaBitsWithoutImplicit ↔ (unpackMantissa b).toNat = 0 := by
  rw [← BitVec.toNat_inj, BitVec.toNat_zero]

theorem toNat_implicit {n : Nat} (m : BitVec n) : (1#1 ++ m).toNat = 2 ^ n + m.toNat := by
  rw [BitVec.toNat_append, ← Nat.shiftLeft_add_eq_or_of_lt (BitVec.isLt _), Nat.shiftLeft_eq]
  exact congrArg (· + m.toNat) (Nat.one_mul _)

theorem unpack_full (hexponent : (unpackExponent b).toNat = 2 ^ f.exponentBits - 1) :
    UnpackedFloat.unpack f b = if (unpackMantissa b).toNat = 0
      then .infinity (Sign.ofBitVec (unpackSign b)) else .notANumber := by
  simp only [unpack.eq_def, if_pos (exponent_eq_full.mpr hexponent), mantissa_eq_zero]

theorem unpack_zero (hfinite : (unpackExponent b).toNat ≠ 2 ^ f.exponentBits - 1)
    (hleast : (unpackExponent b).toNat = 0) (hm : (unpackMantissa b).toNat = 0) :
    UnpackedFloat.unpack f b = .zero (Sign.ofBitVec (unpackSign b)) := by
  rw [unpack.eq_def]
  dsimp only
  rw [if_neg (mt exponent_eq_full.mp hfinite), if_pos (exponent_eq_zero.mpr hleast),
    dif_pos (mantissa_eq_zero.mpr hm)]

theorem unpack_least (hfinite : (unpackExponent b).toNat ≠ 2 ^ f.exponentBits - 1)
    (hleast : (unpackExponent b).toNat = 0) (hm : 0 < (unpackMantissa b).toNat) :
    UnpackedFloat.unpack f b =
      .finite (Sign.ofBitVec (unpackSign b)) (unpackMantissa b).toNat f.minExponent hm := by
  have hbias := bias_eq f
  rw [unpack.eq_def]
  dsimp only
  rw [if_neg (mt exponent_eq_full.mp hfinite), if_pos (exponent_eq_zero.mpr hleast),
    dif_neg (mt mantissa_eq_zero.mp (Nat.ne_of_gt hm)), UnpackedFloat.finite.injEq]
  refine ⟨rfl, rfl, ?_⟩
  omega

theorem unpack_normal (hfinite : (unpackExponent b).toNat ≠ 2 ^ f.exponentBits - 1)
    (hleast : (unpackExponent b).toNat ≠ 0)
    (hm : 0 < 2 ^ f.mantissaBitsWithoutImplicit + (unpackMantissa b).toNat) :
    UnpackedFloat.unpack f b =
      .finite (Sign.ofBitVec (unpackSign b))
        (2 ^ f.mantissaBitsWithoutImplicit + (unpackMantissa b).toNat)
        (f.minExponent + ((unpackExponent b).toNat - 1 : Nat)) hm := by
  have hbias := bias_eq f
  rw [unpack.eq_def]
  dsimp only
  rw [if_neg (mt exponent_eq_full.mp hfinite), if_neg (mt exponent_eq_zero.mp hleast),
    UnpackedFloat.finite.injEq]
  refine ⟨rfl, toNat_implicit _, ?_⟩
  omega

theorem canonical_unpack (hf : 2 ≤ f.exponentBits) (b : BitVec f.numBits) :
    Canonical f (UnpackedFloat.unpack f b) := by
  have hmantissa : (unpackMantissa b).toNat < 2 ^ f.mantissaBitsWithoutImplicit := BitVec.isLt _
  have hexponent : (unpackExponent b).toNat < 2 ^ f.exponentBits := BitVec.isLt _
  have hwide : 2 ^ 2 ≤ 2 ^ f.exponentBits := Nat.pow_le_pow_right (by decide) hf
  have hcast : ((2 ^ f.exponentBits : Nat) : Int) = 2 ^ f.exponentBits := Int.natCast_pow 2 _
  have hbits := two_pow_mantissaBits f
  by_cases hfinite : (unpackExponent b).toNat = 2 ^ f.exponentBits - 1
  · rw [unpack_full hfinite]
    split <;> trivial
  by_cases hleast : (unpackExponent b).toNat = 0
  · rcases Nat.eq_zero_or_pos (unpackMantissa b).toNat with hm | hm
    · rw [unpack_zero hfinite hleast hm]
      trivial
    · rw [unpack_least hfinite hleast hm]
      refine ⟨⟨by omega, Int.le_refl _, .inl rfl⟩, ?_⟩
      rw [beyond]
      omega
  · rw [unpack_normal hfinite hleast (by omega)]
    refine ⟨⟨by omega, by omega, .inr (by omega)⟩, ?_⟩
    rw [beyond]
    omega

theorem unpack_ne_nan (hfinite : (unpackExponent b).toNat ≠ 2 ^ f.exponentBits - 1) :
    UnpackedFloat.unpack f b ≠ .notANumber := by
  rw [unpack.eq_def]
  dsimp only
  rw [if_neg (mt exponent_eq_full.mp hfinite)]
  split
  · split <;> exact nofun
  · exact nofun

/-- A number as it is decoded. -/
def decoded (f : Format) : UnpackedFloat → Binary.Value
  | .notANumber => .notANumber
  | .infinity s => .infinite (negative s)
  | .zero s => .finite (negative s) 0 f.minExponent
  | .finite s m e _ => .finite (negative s) m e

theorem leastScale_eq (f : Format) :
    Binary.Format.leastScale ⟨f.mantissaBitsWithoutImplicit, f.exponentBits⟩ = f.minExponent := by
  have hcast : ((Nat.pow 2 (f.exponentBits - 1) : Nat) : Int) = 2 ^ (f.exponentBits - 1) :=
    Int.natCast_pow 2 _
  rw [Binary.Format.leastScale, Format.minExponent, Format.mantissaBits]
  dsimp only
  omega

/-- Decoding bits is unpacking them. -/
theorem decode_eq (b : BitVec f.numBits) :
    Binary.Format.decode ⟨f.mantissaBitsWithoutImplicit, f.exponentBits⟩ b.toNat =
      decoded f (UnpackedFloat.unpack f b) := by
  have hsign : decide (b.toNat / Binary.Format.signBit
      ⟨f.mantissaBitsWithoutImplicit, f.exponentBits⟩ % 2 = 1) =
        negative (Sign.ofBitVec (unpackSign b)) := (negative_unpackSign b).symm
  rw [Binary.Format.decode]
  dsimp only
  simp only [hsign, Nat.pow_eq, leastScale_eq, ← toNat_unpackExponent, ← toNat_unpackMantissa]
  split
  · rename_i hfinite
    rw [unpack_full hfinite]
    split <;> rfl
  · rename_i hfinite
    split
    · rename_i hleast
      rcases Nat.eq_zero_or_pos (unpackMantissa b).toNat with hm | hm
      · rw [unpack_zero hfinite hleast hm, hm]
        rfl
      · rw [unpack_least hfinite hleast hm]
        rfl
    · rename_i hleast
      rw [unpack_normal hfinite hleast (Nat.add_pos_left (Nat.two_pow_pos _) _)]
      rfl

variable {m : Nat} {e : Int}

theorem sign_packComponents (s : Sign) (exponent : BitVec f.exponentBits)
    (mantissa : BitVec f.mantissaBitsWithoutImplicit) :
    Sign.ofBitVec (unpackSign (packComponents f s exponent mantissa)) = s := by
  rw [unpackSign_packComponents, Sign.ofBitVec_toBitVec]

theorem toNat_biased (hlow : f.minExponent ≤ e) :
    (e + f.exponentBias + f.mantissaBitsWithoutImplicit).toNat = (e - f.minExponent).toNat + 1 := by
  have hbias := bias_eq f
  omega

theorem unpack_pack_zero (f : Format) (s : Sign) :
    UnpackedFloat.unpack f (pack f (.zero s)) = .zero s := by
  have hwide : 0 < 2 ^ f.exponentBits - 1 :=
    Nat.sub_pos_of_lt (Nat.one_lt_two_pow (Nat.ne_of_gt f.he))
  rw [pack.eq_def]
  dsimp only
  rw [packedZero, unpack_zero, sign_packComponents]
  · rw [unpackExponent_packComponents]
    exact Nat.ne_of_lt hwide
  · rw [unpackExponent_packComponents]
    rfl
  · rw [unpackMantissa_packComponents]
    rfl

theorem full_packComponents (s : Sign) (mantissa : BitVec f.mantissaBitsWithoutImplicit) :
    (unpackExponent (packComponents f s (-1#f.exponentBits) mantissa)).toNat =
      2 ^ f.exponentBits - 1 := by
  rw [unpackExponent_packComponents, BitVec.neg_one_eq_allOnes, BitVec.toNat_allOnes]

theorem unpack_packedInfinity (f : Format) (s : Sign) :
    UnpackedFloat.unpack f (packedInfinity f s) = .infinity s := by
  rw [packedInfinity, unpack_full (full_packComponents _ _), unpackMantissa_packComponents,
    sign_packComponents]
  exact if_pos BitVec.toNat_zero

theorem unpack_pack_infinity (f : Format) (s : Sign) :
    UnpackedFloat.unpack f (pack f (.infinity s)) = .infinity s := unpack_packedInfinity f s

theorem unpack_pack_nan (f : Format) :
    UnpackedFloat.unpack f (pack f .notANumber) = .notANumber := by
  have hlast := Nat.pow_lt_pow_right (a := 2) (by decide) (Nat.sub_lt f.hm Nat.one_pos)
  rw [pack.eq_def]
  dsimp only
  rw [packedNaN, unpack_full (full_packComponents _ _), unpackMantissa_packComponents, if_neg]
  rw [BitVec.toNat_shiftLeft, BitVec.toNat_ofNat, Nat.shiftLeft_eq,
    Nat.mod_eq_of_lt (Nat.one_lt_two_pow (Nat.ne_of_gt f.hm)), Nat.one_mul,
    Nat.mod_eq_of_lt hlast]
  exact Nat.ne_of_gt (Nat.two_pow_pos _)

variable {s : Sign} {hm : 0 < m}

theorem biased_lt (hlow : f.minExponent ≤ e) (he : e < beyond f) :
    (e - f.minExponent).toNat + 1 < 2 ^ f.exponentBits - 1 := by
  have hcast : ((2 ^ f.exponentBits : Nat) : Int) = 2 ^ f.exponentBits := Int.natCast_pow 2 _
  rw [beyond] at he
  omega

theorem unpack_pack_of_lt (hmantissa : m < 2 ^ f.mantissaBitsWithoutImplicit)
    (hlow : f.minExponent ≤ e) (he : e < beyond f) :
    UnpackedFloat.unpack f (pack f (.finite s m e hm)) = .finite s m f.minExponent hm := by
  have hlt := biased_lt hlow he
  have hsmall : ¬2 ^ f.exponentBits ≤
      (e + f.exponentBias + f.mantissaBitsWithoutImplicit).toNat + 1 := by
    rw [toNat_biased hlow]
    omega
  have hbits : m.log2 + 1 ≠ f.mantissaBits := by
    have := (Nat.log2_lt (Nat.ne_of_gt hm)).mpr hmantissa
    rw [Format.mantissaBits]
    omega
  have hsame : (BitVec.ofNat f.mantissaBitsWithoutImplicit m).toNat = m := by
    rw [BitVec.toNat_ofNat, Nat.mod_eq_of_lt hmantissa]
  rw [pack.eq_def]
  dsimp only
  rw [if_neg hsmall, if_neg hbits, unpack_least, UnpackedFloat.finite.injEq, sign_packComponents,
    unpackMantissa_packComponents, hsame]
  · exact ⟨rfl, rfl, rfl⟩
  · rw [unpackExponent_packComponents, BitVec.toNat_zero]
    omega
  · rw [unpackExponent_packComponents, BitVec.toNat_zero]
  · rwa [unpackMantissa_packComponents, hsame]

theorem unpack_pack_of_le (hfull : 2 ^ f.mantissaBitsWithoutImplicit ≤ m)
    (hmantissa : m < 2 ^ f.mantissaBits) (hlow : f.minExponent ≤ e) (he : e < beyond f) :
    UnpackedFloat.unpack f (pack f (.finite s m e hm)) = .finite s m e hm := by
  have hlt := biased_lt hlow he
  have hsmall : ¬2 ^ f.exponentBits ≤
      (e + f.exponentBias + f.mantissaBitsWithoutImplicit).toNat + 1 := by
    rw [toNat_biased hlow]
    omega
  have hbits : m.log2 + 1 = f.mantissaBits := by
    have hlog := (Nat.le_log2 (Nat.ne_of_gt hm)).mpr hfull
    have hlog' := (Nat.log2_lt (Nat.ne_of_gt hm)).mpr hmantissa
    rw [Format.mantissaBits] at hlog' ⊢
    omega
  have hcut : (BitVec.ofNat f.mantissaBitsWithoutImplicit m).toNat =
      m - 2 ^ f.mantissaBitsWithoutImplicit := by
    rw [two_pow_mantissaBits] at hmantissa
    rw [BitVec.toNat_ofNat, Nat.mod_eq_sub_mod hfull, Nat.mod_eq_of_lt (by omega)]
  have hexponent : (BitVec.ofNat f.exponentBits
      (e + f.exponentBias + f.mantissaBitsWithoutImplicit).toNat).toNat =
        (e - f.minExponent).toNat + 1 := by
    rw [BitVec.toNat_ofNat, toNat_biased hlow, Nat.mod_eq_of_lt (by omega)]
  rw [pack.eq_def]
  dsimp only
  rw [if_neg hsmall, if_pos hbits, unpack_normal, UnpackedFloat.finite.injEq, sign_packComponents,
    unpackMantissa_packComponents, unpackExponent_packComponents, hcut, hexponent]
  · refine ⟨rfl, ?_, ?_⟩ <;> omega
  · rw [unpackExponent_packComponents, hexponent]
    omega
  · rw [unpackExponent_packComponents, hexponent]
    omega
  · exact Nat.add_pos_left (Nat.two_pow_pos _) _

theorem unpack_pack_of_large (he : beyond f ≤ e) :
    UnpackedFloat.unpack f (pack f (.finite s m e hm)) = .infinity s := by
  have hwide : 2 ≤ 2 ^ f.exponentBits := Nat.pow_le_pow_right (n := 2) (by decide) f.he
  have hcast : ((2 ^ f.exponentBits : Nat) : Int) = 2 ^ f.exponentBits := Int.natCast_pow 2 _
  rw [beyond] at he
  have hlarge : 2 ^ f.exponentBits ≤
      (e + f.exponentBias + f.mantissaBitsWithoutImplicit).toNat + 1 := by
    rw [toNat_biased (by omega)]
    omega
  rw [pack.eq_def]
  dsimp only
  rw [if_pos hlarge, unpack_packedInfinity]

theorem unpack_pack_ne_nan {a : UnpackedFloat} (ha : a ≠ .notANumber) :
    UnpackedFloat.unpack f (pack f a) ≠ .notANumber := by
  have hwide : 2 ≤ 2 ^ f.exponentBits := Nat.pow_le_pow_right (n := 2) (by decide) f.he
  cases a with
  | notANumber => exact absurd rfl ha
  | infinity s =>
      rw [unpack_pack_infinity]
      exact nofun
  | zero s =>
      rw [unpack_pack_zero]
      exact nofun
  | finite s m e hm =>
      rw [pack.eq_def]
      dsimp only
      split
      · rw [unpack_packedInfinity]
        exact nofun
      · apply unpack_ne_nan
        split
        · rw [unpackExponent_packComponents, BitVec.toNat_ofNat, Nat.mod_eq_of_lt (by omega)]
          omega
        · rw [unpackExponent_packComponents, BitVec.toNat_zero]
          omega

theorem targetExponent_eq (f : Format) (m : Nat) (e : Int) :
    f.targetExponent (totalExponent m e) =
      max (m.log2 + e - f.mantissaBitsWithoutImplicit) f.minExponent := by
  rw [Format.targetExponent, totalExponent, Format.mantissaBits]
  omega

theorem targetExponent_sub (f : Format) (m m' : Nat) (e e' : Int) :
    f.targetExponent (totalExponent m e - totalExponent m' e') =
      max (m.log2 + e - (m'.log2 + e') - f.mantissaBits) f.minExponent := by
  rw [Format.targetExponent, totalExponent, totalExponent]
  congr 1
  omega

end Terrarium.Packed
