import Terrarium.Proofs.SingleArithmetic

namespace Terrarium.Single

open Float.Model (Format UnpackedFloat)
open Float.Model.UnpackedFloat

variable {x y : Float32} {a b : Int}

/-- A finite number that is so many halves. -/
def Halves (x : Float32) (a : Int) : Prop := x.isFinite ∧ 2 * units x = a * units 1

instance (x : Float32) (a : Int) : Decidable (Halves x a) :=
  inferInstanceAs (Decidable (_ ∧ _))

theorem units_one : units 1 = 2 ^ 149 := by decide +kernel

theorem halves_iff : Halves x a ↔ x.isFinite ∧ units x = a * 2 ^ 148 := by
  rw [Halves, units_one]
  exact and_congr_right' (by omega)

theorem value_of_scaled {z : Int} {m : Nat} {e : Int} (hz : scaled m e = z.natAbs)
    (hm : m < 2 ^ 24) (hlow : -149 ≤ e) (hhigh : e ≤ 104) : Value z where
  mantissa := ⟨m, e, hm, hlow, hz⟩
  bounded := hz ▸ Nat.le_of_lt (scaled_lt_full hm hlow (Int.lt_add_one_iff.mpr hhigh))

theorem value_halves (ha : a.natAbs < 2 ^ 24) : Value (a * 2 ^ 148) := by
  have hscaled : scaled a.natAbs (-1) = (a * 2 ^ 148).natAbs := by
    rw [Int.natAbs_mul]
    rfl
  exact value_of_scaled hscaled ha (by decide) (by decide)

theorem Rounds.eq_of_value {c : Nat} {z i r : Int} (h : Rounds c i r) (hz : Value z)
    (hexact : i = z * c) : r = z :=
  Int.le_antisymm (h.ge hz (Int.le_of_eq hexact)) (h.le hz (Int.le_of_eq hexact.symm))

theorem halves_of_value (hnumber : x.isNaN = false) (hrounds : Rounds 1 (a * 2 ^ 148) (units x))
    (hvalue : Value (a * 2 ^ 148)) (ha : a.natAbs ≤ 2 ^ 25) : Halves x a := by
  have hunits := hrounds.eq_of_value hvalue (Int.mul_one _).symm
  refine halves_iff.mpr ⟨isFinite_of_bounds hnumber ?_, hunits⟩
  have hlimit : 2 ^ 25 * 2 ^ 148 < limit := by decide
  rw [hunits]
  omega

theorem halves_of_rounds (hnumber : x.isNaN = false) (hrounds : Rounds 1 (a * 2 ^ 148) (units x))
    (ha : a.natAbs < 2 ^ 24) : Halves x a :=
  halves_of_value hnumber hrounds (value_halves ha) (by omega)

theorem Halves.add (hx : Halves x a) (hy : Halves y b) (hsmall : (a + b).natAbs < 2 ^ 24) :
    Halves (x + y) (a + b) := by
  rw [halves_iff] at hx hy
  obtain ⟨hnumber, hrounds⟩ := add_rounds hx.1 hy.1
  rw [hx.2, hy.2, ← Int.add_mul] at hrounds
  exact halves_of_rounds hnumber hrounds hsmall

theorem Halves.sub (hx : Halves x a) (hy : Halves y b) (hsmall : (a - b).natAbs < 2 ^ 24) :
    Halves (x - y) (a - b) := by
  rw [halves_iff] at hx hy
  obtain ⟨hnumber, hrounds⟩ := sub_rounds hx.1 hy.1
  rw [hx.2, hy.2, ← Int.sub_mul] at hrounds
  exact halves_of_rounds hnumber hrounds hsmall

theorem Halves.lt_iff (hx : Halves x a) (hy : Halves y b) : x < y ↔ a < b := by
  rw [halves_iff] at hx hy
  rw [Single.lt_iff, hx.2, hy.2]
  have hnumbers := And.intro (number_of_isFinite hx.1) (number_of_isFinite hy.1)
  exact (and_iff_right hnumbers).trans (by omega)

theorem Halves.le_iff (hx : Halves x a) (hy : Halves y b) : x ≤ y ↔ a ≤ b := by
  rw [halves_iff] at hx hy
  rw [Single.le_iff, hx.2, hy.2]
  have hnumbers := And.intro (number_of_isFinite hx.1) (number_of_isFinite hy.1)
  exact (and_iff_right hnumbers).trans (by omega)

theorem Halves.abs (hx : Halves x a) : Halves x.abs a.natAbs := by
  rw [halves_iff] at hx ⊢
  have hunpack := unpack_abs (number_of_isFinite hx.1)
  have hfinite : x.toModel.unpack.isFinite = true := hx.1
  have hunits : unitsOf x.toModel.unpack.abs = (unitsOf x.toModel.unpack).natAbs := by
    cases h : x.toModel.unpack with
    | notANumber | infinity s =>
        rw [h] at hfinite
        cases hfinite
    | zero s => rfl
    | finite s m e hm => cases s <;> simp [UnpackedFloat.abs, unitsOf, Sign.apply]
  constructor
  · change x.abs.toModel.unpack.isFinite = true
    rw [hunpack]
    cases h : x.toModel.unpack with
    | notANumber | infinity s =>
        rw [h] at hfinite
        cases hfinite
    | zero s | finite s m e hm => rfl
  · rw [units, hunpack, hunits]
    change ((units x).natAbs : Int) = _
    rw [hx.2]
    omega

theorem value_whole {n : Nat} (hn : n < 2 ^ 24) : Value (2 * n * 2 ^ 148) := by
  have hscaled : scaled n 0 = (2 * n * 2 ^ 148 : Int).natAbs := by
    change n * 2 ^ 149 = _
    omega
  exact value_of_scaled hscaled hn (by decide) (by decide)

theorem halves_of_unpack_eq {n : Nat} (hn : n < 2 ^ 24)
    (hunpack : x.toModel.unpack = UnpackedFloat.unpack Format.binary32
      (pack Format.binary32 (UnpackedFloat.normalize Format.binary32 n 0 .positive))) :
    Halves x (2 * n) := by
  have hlow : (-149 : Int) ≤ 0 := by decide
  have hnumber : x.isNaN = false := by
    rw [isNaN_eq_false, hunpack]
    exact Packed.unpack_pack_ne_nan (normalize_ne_nan _ _ _)
  have hrounds := rounds_normalize (i := n) hlow
  have hexact : (n : Int) * (2 ^ (0 + 149 : Int).toNat : Nat) = 2 * n * 2 ^ 148 := by
    change (n : Int) * 2 ^ 149 = _
    omega
  rw [hexact, ← hunpack] at hrounds
  exact halves_of_value hnumber hrounds (value_whole hn) (by omega)

theorem halves_ofUInt64 (n : UInt64) (hn : n.toNat < 2 ^ 24) :
    Halves n.toFloat32 (2 * n.toNat) := halves_of_unpack_eq hn rfl

theorem halves_ofUInt32 (n : UInt32) (hn : n.toNat < 2 ^ 24) :
    Halves n.toFloat32 (2 * n.toNat) := halves_of_unpack_eq hn rfl

theorem scaled_div_one {m : Nat} {e : Int} (he : -149 ≤ e) :
    scaled m e / 2 ^ 149 = m * 2 ^ e.toNat / 2 ^ (-e).toNat := by
  have hshift : (e + 149).toNat + (-e).toNat = e.toNat + 149 := by omega
  apply Nat.eq_of_mul_eq_mul_right (Nat.zero_lt_one)
  rw [scaled, ← Nat.mul_div_mul_right _ _ (Nat.two_pow_pos (-e).toNat), Nat.mul_assoc,
    ← Nat.pow_add, hshift, Nat.pow_add, ← Nat.mul_assoc, Nat.mul_comm (2 ^ 149) (2 ^ (-e).toNat),
    Nat.mul_div_mul_right _ _ (Nat.two_pow_pos 149)]

theorem toNat_toInt (hx : x.isFinite) (hpos : 0 ≤ units x) (low high : Int) :
    (x.toModel.unpack.toInt low high).toNat = (units x).toNat / 2 ^ 149 := by
  have hcanonical := canonical x
  change x.toModel.unpack.isFinite = true at hx
  rw [units] at hpos ⊢
  cases h : x.toModel.unpack with
  | notANumber | infinity s =>
      rw [h] at hx
      cases hx
  | zero s => exact (Nat.zero_div _).symm
  | finite s m e hm =>
      rw [h] at hcanonical hpos
      obtain rfl := positive_of_nonneg (scaled_pos hm) hpos
      have hexponent : (0 - (e - (e - 0).toNat)).toNat = (-e).toNat := by omega
      change ((ExtendedMantissa.ofMantissaAndAccuracy (m <<< (e - 0).toNat) .exact >>>
        (0 - (e - (e - 0).toNat)).toNat).mantissa : Int).toNat = (scaled m e : Int).toNat / 2 ^ 149
      rw [mantissa_shift, hexponent, Int.toNat_natCast, Int.toNat_natCast,
        scaled_div_one hcanonical.normal.le_exponent, Int.sub_zero, Nat.shiftLeft_eq]

theorem toNat_toUInt64 (hx : x.isFinite) (hpos : 0 ≤ units x)
    (hlt : (units x).toNat / 2 ^ 149 < 2 ^ 64) :
    x.toUInt64.toNat = (units x).toNat / 2 ^ 149 := by
  have hword : x.toUInt64 =
    UInt64.ofNatClamp (x.toModel.unpack.toInt 0 (UInt64.size - 1)).toNat := rfl
  have hsize : (units x).toNat / 2 ^ 149 < UInt64.size := hlt
  rw [hword, toNat_toInt hx hpos, UInt64.ofNatClamp, dif_pos hsize]
  rfl

theorem toNat_toUInt32 (hx : x.isFinite) (hpos : 0 ≤ units x)
    (hlt : (units x).toNat / 2 ^ 149 < 2 ^ 32) :
    x.toUInt32.toNat = (units x).toNat / 2 ^ 149 := by
  have hword : x.toUInt32 =
    UInt32.ofNatClamp (x.toModel.unpack.toInt 0 (UInt32.size - 1)).toNat := rfl
  have hsize : (units x).toNat / 2 ^ 149 < UInt32.size := hlt
  rw [hword, toNat_toInt hx hpos, UInt32.ofNatClamp, dif_pos hsize]
  rfl

theorem Halves.toNat_toUInt64 (hx : Halves x a) (hpos : 0 ≤ a) (ha : a < 2 ^ 24) :
    x.toUInt64.toNat = (a / 2).toNat := by
  rw [halves_iff] at hx
  have hhalf : (a * 2 ^ 148).toNat / 2 ^ 149 = (a / 2).toNat := by omega
  rw [Single.toNat_toUInt64 hx.1 (by omega) (by omega), hx.2, hhalf]

/-- Two shifts a mantissa by one place, and the quotient has room for the place that is gained. -/
theorem divCore_two {m : Nat} {e : Int} (hm : 0 < m) (hlt : m < 2 ^ 24) (he : -148 ≤ e) :
    ∃ (k : Nat) (t : Int), -149 ≤ t ∧ t + k = e - 1 ∧
      divCore Format.binary32 m e (2 ^ 23) (-22) = (m * 2 ^ k, t, .exact) := by
  have hlog : m.log2 < 24 := (Nat.log2_lt (Nat.ne_of_gt hm)).mpr hlt
  have hlog' : (2 ^ 23).log2 = 23 := Nat.log2_two_pow
  rw [divCore, targetExponent_sub, hlog']
  generalize hexponent : min (e - -22) (max (m.log2 + e - ((23 : Nat) + -22) - 24) (-149)) = t
  have hshift : (e - -22 - t).toNat = (e - 1 - t).toNat + 23 := by omega
  have hmantissa : m <<< (e - -22 - t).toNat = m * 2 ^ (e - 1 - t).toNat * 2 ^ 23 := by
    rw [hshift, Nat.shiftLeft_eq, Nat.pow_add, Nat.mul_assoc]
  refine ⟨(e - 1 - t).toNat, t, by omega, by omega, ?_⟩
  rw [hmantissa, Nat.mul_div_cancel _ (Nat.two_pow_pos 23), Nat.mul_mod_left]
  rfl

theorem Normal.exponent_of_le {m : Nat} {e : Int} (h : Normal m e) (hle : 2 ^ 24 ≤ scaled m e) :
    -148 ≤ e := by
  by_contra hleast
  have hshift : (e + 149).toNat = 0 := by
    have := h.le_exponent
    omega
  have hmantissa := h.mantissa_lt
  rw [scaled, hshift, Nat.pow_zero, Nat.mul_one] at hle
  omega

theorem Halves.div_two {n : Nat} (hx : Halves x (2 * n)) (hn : n < 2 ^ 23) : Halves (x / 2) n := by
  have hdivisor : (2 : Float32).toModel.unpack = .finite .positive (2 ^ 23) (-22) (by decide) := rfl
  rw [halves_iff] at hx
  have hfinite : x.toModel.unpack.isFinite = true := hx.1
  have hcanonical := canonical x
  have hunits : unitsOf x.toModel.unpack = n * 2 ^ 149 := hx.2.trans (by omega)
  have hquotient := unpack_div x 2
  rw [hdivisor] at hquotient
  cases h : x.toModel.unpack with
  | notANumber | infinity s =>
      rw [h] at hfinite
      cases hfinite
  | zero s =>
      rw [h] at hunits hquotient
      rw [UnpackedFloat.div, Packed.unpack_pack_zero] at hquotient
      have hn : (n : Int) = 0 := by
        change (0 : Int) = _ at hunits
        omega
      rw [halves_iff, hn]
      exact ⟨congrArg UnpackedFloat.isFinite hquotient, congrArg unitsOf hquotient⟩
  | finite s m e hm =>
      rw [h] at hunits hquotient hcanonical
      have hscaled : 0 < scaled m e := scaled_pos hm
      obtain rfl : s = .positive := positive_of_nonneg hscaled (by
        change 0 ≤ unitsOf (.finite s m e hm)
        omega)
      have hwhole : scaled m e = n * 2 ^ 149 := Int.ofNat_inj.mp (hunits.trans (by omega))
      have hexponent := hcanonical.normal.exponent_of_le (by omega)
      obtain ⟨k, t, ht, hk, hcore⟩ := divCore_two hm hcanonical.normal.mantissa_lt hexponent
      rw [UnpackedFloat.div, hcore] at hquotient
      dsimp only at hquotient
      have hdivided : Divided m e (2 ^ 23) (-22) _ _ _ := divided_divCore hm (Nat.two_pow_pos 23)
      rw [hcore] at hdivided
      have hlast : t ≤ lastExponent (m * 2 ^ k) t := hdivided.last
      have hexact : scaled (m * 2 ^ k) t = n * 2 ^ 148 := by
        have hshift : (e + 149).toNat = k + (t + 149).toNat + 1 := by omega
        rw [scaled, hshift, Nat.pow_succ, Nat.pow_add, ← Nat.mul_assoc m] at hwhole
        rw [scaled, Nat.mul_assoc]
        omega
      have hrounds := rounds_roundWithAccuracy (k := 0) (.positive / .positive)
        (by omega) hlast
      rw [Int.natCast_zero, Int.add_zero, hexact, ← hquotient] at hrounds
      have hnumber : (x / 2).isNaN = false := by
        rw [isNaN_eq_false, hquotient]
        exact Packed.unpack_pack_ne_nan (roundWithAccuracy_ne_nan _ _ _ _)
      exact halves_of_rounds hnumber hrounds (by omega)

theorem Halves.roundMagnitude (hx : Halves x a) (ha : a.natAbs < 2 ^ 24) :
    roundMagnitude x = (a.natAbs + 1) / 2 := by
  have hhalf : Halves 0.5 1 ∧ Halves wholeFrom (2 ^ 24) := by decide +kernel
  have habs := hx.abs
  have hwhole : x.abs.toUInt64.toNat = a.natAbs / 2 := by
    rw [habs.toNat_toUInt64 (by omega) (by omega)]
    omega
  have hfloor := halves_ofUInt64 x.abs.toUInt64 (by omega)
  have hrest := habs.sub hfloor (by omega)
  rw [hwhole] at hrest
  simp only [Single.roundMagnitude, habs.lt_iff hhalf.2, hhalf.1.le_iff hrest, hwhole]
  split <;> omega

/-- Halves are rounded away from zero. -/
theorem Halves.round (hx : Halves x a) (ha : a.natAbs < 2 ^ 24) :
    round x = if a < 0 then a / 2 else (a + 1) / 2 := by
  have hzero : Halves 0 0 := by decide +kernel
  have hword : Nat.pow 2 63 = 9223372036854775808 := rfl
  simp only [Single.round, hx.roundMagnitude ha, hx.lt_iff hzero]
  split <;> omega

end Terrarium.Single
