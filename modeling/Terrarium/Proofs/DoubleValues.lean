import Terrarium.Proofs.PackedBounds

namespace Terrarium.Double

open Float.Model (Format UnpackedFloat)
open Float.Model.UnpackedFloat
open Packed (AtMost Canonical Unsigned)

variable {x y : Float}

/-- The exact value of a number. -/
def value (x : Float) : ℚ := Packed.value Format.binary64 x.toModel.unpack

theorem canonical (x : Float) : Canonical Format.binary64 x.toModel.unpack :=
  Packed.canonical_unpack (by decide) _

theorem isNaN_eq_false : x.isNaN = false ↔ x.toModel.unpack ≠ .notANumber := by
  rw [← Bool.not_eq_true]
  exact not_congr Packed.isNaN_iff

theorem compare_eq_some_iff {o : Ordering} :
    x.toModel.unpack.compare y.toModel.unpack = some o ↔
      (x.isNaN = false ∧ y.isNaN = false) ∧ compare (value x) (value y) = o :=
  Packed.compare_eq_some_iff (canonical x) (canonical y)

theorem lt_iff : x < y ↔ (x.isNaN = false ∧ y.isNaN = false) ∧ value x < value y := by
  have hcompare : x < y ↔ x.toModel.unpack.compare y.toModel.unpack = some .lt := by
    change decide (x.toModel < y.toModel) = true ↔ _
    rw [decide_eq_true_iff]
    exact beq_iff_eq
  rw [hcompare, compare_eq_some_iff, compare_lt_iff_lt]

theorem le_iff : x ≤ y ↔ (x.isNaN = false ∧ y.isNaN = false) ∧ value x ≤ value y := by
  have hcompare : x ≤ y ↔ ∃ o, x.toModel.unpack.compare y.toModel.unpack = some o ∧ o.isLE := by
    change decide (x.toModel ≤ y.toModel) = true ↔ _
    rw [decide_eq_true_iff]
    exact Option.any_eq_true _ _
  simp only [hcompare, compare_eq_some_iff, and_assoc, exists_and_left, exists_eq_left',
    ← Ordering.ne_gt_iff_isLE, compare_le_iff_le]

theorem nonneg_and_lt_iff (h : Unsigned x.toModel.unpack) : 0 ≤ x ∧ x < y ↔ x < y := by
  refine ⟨And.right, fun hlt => ⟨le_iff.mpr ⟨⟨rfl, (lt_iff.mp hlt).1.1⟩, ?_⟩, hlt⟩⟩
  exact h.value_nonneg

theorem unpack_add (x y : Float) :
    (x + y).toModel.unpack = UnpackedFloat.unpack Format.binary64 (pack Format.binary64
      (UnpackedFloat.add Format.binary64 x.toModel.unpack y.toModel.unpack)) := rfl

theorem unpack_mul (x y : Float) :
    (x * y).toModel.unpack = UnpackedFloat.unpack Format.binary64 (pack Format.binary64
      (UnpackedFloat.mul Format.binary64 x.toModel.unpack y.toModel.unpack)) := rfl

theorem unpack_div (x y : Float) :
    (x / y).toModel.unpack = UnpackedFloat.unpack Format.binary64 (pack Format.binary64
      (UnpackedFloat.div Format.binary64 x.toModel.unpack y.toModel.unpack)) := rfl

theorem valueOfDouble_eq (x : Float) :
    Binary.valueOfDouble x = Packed.decoded Format.binary64 x.toModel.unpack :=
  Packed.decode_eq (f := Format.binary64) x.toBits.toBitVec

variable {n : Nat}

theorem shifted_bounds (hn : 0 < n) (hlt : n < 2 ^ 53) :
    2 ^ 52 ≤ n * 2 ^ (52 - n.log2) ∧ n * 2 ^ (52 - n.log2) < 2 ^ 53 := by
  have hlog : n.log2 < 53 := (Nat.log2_lt (Nat.ne_of_gt hn)).mpr hlt
  have hlow : n.log2 + (52 - n.log2) = 52 := by omega
  have hhigh : n.log2 + 1 + (52 - n.log2) = 53 := by omega
  constructor
  · calc 2 ^ 52 = 2 ^ n.log2 * 2 ^ (52 - n.log2) := by rw [← Nat.pow_add, hlow]
      _ ≤ n * 2 ^ (52 - n.log2) := Nat.mul_le_mul_right _ (Nat.log2_self_le (Nat.ne_of_gt hn))
  · calc n * 2 ^ (52 - n.log2) < 2 ^ (n.log2 + 1) * 2 ^ (52 - n.log2) :=
          Nat.mul_lt_mul_of_pos_right Nat.lt_log2_self (Nat.two_pow_pos _)
      _ = 2 ^ 53 := by rw [← Nat.pow_add, hhigh]

theorem magnitude_ofNat (hn : 0 < n) (hlt : n < 2 ^ 53) :
    Binary.double.magnitude n 0 = (n.log2 + 1022) * 2 ^ 52 + n * 2 ^ (52 - n.log2) := by
  have hlog : n.log2 < 53 := (Nat.log2_lt (Nat.ne_of_gt hn)).mpr hlt
  have hshifted := (shifted_bounds hn hlt).2
  have hleast : Binary.double.leastScale = -1074 := rfl
  have hbits : Binary.double.fractionBits = 52 := rfl
  have hinfinity : Binary.double.infinityBits = 2047 * 2 ^ 52 := rfl
  have hwanted : max (0 + (n.log2 : Int) - (52 : Nat)) (-1074) = n.log2 - 52 := by omega
  have hzeros : (0 - ((n.log2 : Int) - 52)).toNat = 52 - n.log2 := by omega
  have hexponent : ((n.log2 : Int) - 52 - -1074).toNat = n.log2 + 1022 := by omega
  rw [Binary.Format.magnitude, if_neg (Nat.ne_of_gt hn)]
  simp only [hleast, hbits, hinfinity, hwanted, hzeros, hexponent, Nat.pow_eq]
  rw [if_pos (by omega), Nat.min_eq_left (by omega)]

theorem unpack_ofNat (hn : 0 < n) (hlt : n < 2 ^ 53) : ∃ hm,
    UnpackedFloat.unpack Format.binary64
      (UInt64.ofNat (Binary.double.encode (.finite false n 0))).toBitVec =
        .finite .positive (n * 2 ^ (52 - n.log2)) (n.log2 - 52) hm := by
  have hlog : n.log2 < 53 := (Nat.log2_lt (Nat.ne_of_gt hn)).mpr hlt
  obtain ⟨hlow, hhigh⟩ := shifted_bounds hn hlt
  generalize hb : (UInt64.ofNat (Binary.double.encode (.finite false n 0))).toBitVec = b
  have hbits : b.toNat = (n.log2 + 1022) * 2 ^ 52 + n * 2 ^ (52 - n.log2) := by
    rw [← hb]
    change (0 + Binary.double.magnitude n 0) % 2 ^ 64 = _
    rw [magnitude_ofNat hn hlt]
    omega
  have hmantissa : (@unpackMantissa Format.binary64 b).toNat = n * 2 ^ (52 - n.log2) - 2 ^ 52 := by
    rw [Packed.toNat_unpackMantissa, hbits]
    change _ % 2 ^ 52 = _
    omega
  have hexponent : (@unpackExponent Format.binary64 b).toNat = n.log2 + 1023 := by
    rw [Packed.toNat_unpackExponent, hbits]
    change _ / 2 ^ 52 % 2 ^ 11 = _
    omega
  have hsign : Sign.ofBitVec (@unpackSign Format.binary64 b) = .positive := by
    apply Packed.negative_eq_false
    rw [Packed.negative_unpackSign, hbits]
    change decide (_ / 2 ^ 63 % 2 = 1) = false
    rw [decide_eq_false_iff_not]
    omega
  have hleast : Format.binary64.minExponent = -1074 := rfl
  have hfull : 2 ^ Format.binary64.mantissaBitsWithoutImplicit = 2 ^ 52 := rfl
  have hinfinity : 2 ^ Format.binary64.exponentBits - 1 = 2047 := rfl
  refine ⟨by omega, ?_⟩
  rw [Packed.unpack_normal (by omega) (by omega) (by omega), UnpackedFloat.finite.injEq, hsign,
    hmantissa, hexponent, hleast, hfull]
  refine ⟨rfl, ?_, ?_⟩ <;> omega

theorem lt_beyond {j : Int} (hn : n < 2 ^ 53) (hj : j ≤ 919) :
    (n : ℚ) * 2 ^ j < 2 ^ Packed.beyond Format.binary64 := by
  have hcast : (n : ℚ) < 2 ^ 53 := by exact_mod_cast hn
  have hbeyond : Packed.beyond Format.binary64 = 972 := rfl
  calc (n : ℚ) * 2 ^ j < 2 ^ (53 : Int) * 2 ^ j :=
        mul_lt_mul_of_pos_right hcast (Packed.two_zpow_pos j)
    _ = 2 ^ (53 + j) := (zpow_add₀ (by norm_num) 53 j).symm
    _ ≤ 2 ^ Packed.beyond Format.binary64 := zpow_le_zpow_right₀ (by norm_num) (by omega)

theorem atMost_doubleOfNat (hlt : n < 2 ^ 53) :
    AtMost Format.binary64 n (Binary.doubleOfNat n).toModel.unpack := by
  have hone : (n : ℚ) * 2 ^ (0 : Int) = n := mul_one _
  refine AtMost.pack ?_ (Packed.canonical_unpack (by decide) _).fits
    (hone ▸ lt_beyond hlt (by decide))
  rcases Nat.eq_zero_or_pos n with rfl | hn
  · exact Packed.atMost_zero (le_refl _)
  · have hlog : n.log2 < 53 := (Nat.log2_lt (Nat.ne_of_gt hn)).mpr hlt
    have hzeros : (0 - ((n.log2 : Int) - 52)).toNat = 52 - n.log2 := by omega
    obtain ⟨hm, hunpack⟩ := unpack_ofNat hn hlt
    rw [hunpack, Packed.atMost_finite, ← hone,
      Packed.mul_two_zpow_sub (n : ℚ) (e := 0) (t := (n.log2 : Int) - 52) (by omega), hzeros]
    push_cast
    exact le_refl _

end Terrarium.Double
