import Terrarium.Proofs.SingleRounding

/-!
Single-precision arithmetic. Sums and products of finite numbers are numbers, the exact ones
rounded. So adding what is not negative makes no number smaller, taking it away or dividing by one
or more makes none greater, and products without rounding bound the products of smaller factors.
-/
namespace Terrarium.Single

open Float.Model (Format UnpackedFloat)
open Float.Model.UnpackedFloat

/-! ### Sums -/

theorem apply_mul (s : Sign) (i j : Int) : s.apply i * j = s.apply (i * j) := by
  cases s with
  | negative => exact Int.neg_mul i j
  | positive => rfl

theorem apply_shiftLeft (s : Sign) (m : Nat) {e t : Int} (ht : -149 ≤ t) (hle : t ≤ e) :
    s.apply (m <<< (e - t).toNat : Nat) * (2 ^ (t + 149).toNat : Nat) = s.apply (scaled m e) := by
  rw [apply_mul, scaled_eq_scaled ht hle, Nat.shiftLeft_eq, scaled,
    Int.natCast_mul (m * 2 ^ (e - t).toNat)]

theorem add_finite (s s' : Sign) {m m' : Nat} (e e' : Int) (hm : 0 < m) (hm' : 0 < m') :
    UnpackedFloat.add Format.binary32 (.finite s m e hm) (.finite s' m' e' hm') =
      UnpackedFloat.normalize Format.binary32
        (s.apply (m <<< (e - min e e').toNat : Nat) + s'.apply (m' <<< (e' - min e e').toNat : Nat))
        (min e e') .positive := rfl

/-- The sum of two finite numbers is a number, the exact sum rounded. -/
theorem Canonical.rounds_add {a b : UnpackedFloat} (ha : Canonical a) (hb : Canonical b)
    (hfa : a.isFinite) (hfb : b.isFinite) :
    let r := UnpackedFloat.unpack Format.binary32 (pack Format.binary32
      (UnpackedFloat.add Format.binary32 a b))
    r ≠ .notANumber ∧ Rounds 1 (unitsOf a + unitsOf b) (unitsOf r) := by
  cases a with
  | notANumber | infinity s => cases hfa
  | zero s =>
      have hzero : unitsOf (.zero s) = 0 := rfl
      rw [hzero, Int.zero_add]
      cases b with
      | notANumber | infinity s' => cases hfb
      | zero s' => cases s <;> cases s' <;> exact ⟨nofun, rounds_self (a := .zero _) trivial rfl⟩
      | finite s' m' e' hm' =>
          have hadd : UnpackedFloat.add Format.binary32 (.zero s) (.finite s' m' e' hm') =
            .finite s' m' e' hm' := rfl
          rw [hadd, unpack_pack_of_normal hb.normal hb.exponent_le]
          exact ⟨nofun, rounds_self hb hfb⟩
  | finite s m e hm =>
      cases b with
      | notANumber | infinity s' => cases hfb
      | zero s' =>
          have hadd : UnpackedFloat.add Format.binary32 (.finite s m e hm) (.zero s') =
            .finite s m e hm := rfl
          have hzero : unitsOf (.zero s') = 0 := rfl
          rw [hadd, unpack_pack_of_normal ha.normal ha.exponent_le, hzero, Int.add_zero]
          exact ⟨nofun, rounds_self ha hfa⟩
      | finite s' m' e' hm' =>
          have hlow : -149 ≤ min e e' :=
            Int.le_min.mpr ⟨ha.normal.le_exponent, hb.normal.le_exponent⟩
          rw [add_finite]
          refine ⟨Packed.unpack_pack_ne_nan (normalize_ne_nan _ _ _), ?_⟩
          have hrounds := rounds_normalize (i := s.apply (m <<< (e - min e e').toNat : Nat) +
            s'.apply (m' <<< (e' - min e e').toNat : Nat)) hlow
          rwa [Int.add_mul, apply_shiftLeft s m hlow (Int.min_le_left e e'),
            apply_shiftLeft s' m' hlow (Int.min_le_right e e')] at hrounds

theorem apply_neg (s : Sign) (i : Int) : (-s).apply i = -s.apply i := by
  cases s with
  | negative => exact (Int.neg_neg i).symm
  | positive => rfl

theorem sub_eq_add_neg (a b : UnpackedFloat) :
    UnpackedFloat.sub Format.binary32 a b = UnpackedFloat.add Format.binary32 a b.neg := by
  cases a with
  | finite s m e hm =>
      cases b with
      | finite s' m' e' hm' =>
          rw [UnpackedFloat.neg, add_finite, apply_neg, ← Int.sub_eq_add_neg]
          rfl
      | _ => rfl
  | _ => cases b <;> rfl

theorem Canonical.neg {a : UnpackedFloat} (ha : Canonical a) : Canonical a.neg := by
  cases a <;> exact ha

theorem isFinite_neg {a : UnpackedFloat} (ha : a.isFinite) : a.neg.isFinite := by
  cases a <;> exact ha

theorem unitsOf_neg (a : UnpackedFloat) : unitsOf a.neg = -unitsOf a := by
  cases a with
  | notANumber | zero s => rfl
  | infinity s | finite s m e hm => exact apply_neg s _

theorem add_infinity_left {a : UnpackedFloat} (ha : a.isFinite) (s : Sign) :
    UnpackedFloat.add Format.binary32 (.infinity s) a = .infinity s := by
  cases a with
  | notANumber | infinity s' => cases ha
  | zero s' | finite s' m e hm => rfl

theorem add_infinity_right {a : UnpackedFloat} (ha : a.isFinite) (s : Sign) :
    UnpackedFloat.add Format.binary32 a (.infinity s) = .infinity s := by
  cases a with
  | notANumber | infinity s' => cases ha
  | zero s' | finite s' m e hm => rfl

variable {x y z : Float32}

theorem unpack_add (x y : Float32) :
    (x + y).toModel.unpack = UnpackedFloat.unpack Format.binary32 (pack Format.binary32
      (UnpackedFloat.add Format.binary32 x.toModel.unpack y.toModel.unpack)) := rfl

theorem unpack_sub (x y : Float32) :
    (x - y).toModel.unpack = UnpackedFloat.unpack Format.binary32 (pack Format.binary32
      (UnpackedFloat.add Format.binary32 x.toModel.unpack y.toModel.unpack.neg)) := by
  rw [← sub_eq_add_neg]
  rfl

theorem le_of_unpack_eq (hx : x.isNaN = false) (hy : y.toModel.unpack = .infinity .positive) :
    x ≤ y := by
  have hbounded := (value_units x).bounded
  have hlimit : units y = limit := congrArg unitsOf hy
  refine le_iff.mpr ⟨⟨hx, isNaN_eq_false.mpr ?_⟩, ?_⟩
  · rw [hy]
    exact nofun
  · omega

theorem lt_inf_of_unpack_eq (hx : x.toModel.unpack = .infinity .negative) : x < inf := by
  have hlimit := limit_pos
  have hunits : units x = -(limit : Int) := congrArg unitsOf hx
  refine lt_iff.mpr ⟨⟨isNaN_eq_false.mpr ?_, rfl⟩, ?_⟩
  · rw [hx]
    exact nofun
  · rw [units_inf]
    omega

theorem add_rounds (hx : x.isFinite) (hy : y.isFinite) :
    (x + y).isNaN = false ∧ Rounds 1 (units x + units y) (units (x + y)) := by
  obtain ⟨hsum, hrounds⟩ := (canonical x).rounds_add (canonical y) hx hy
  exact ⟨isNaN_eq_false.mpr hsum, hrounds⟩

theorem sub_rounds (hx : x.isFinite) (hy : y.isFinite) :
    (x - y).isNaN = false ∧ Rounds 1 (units x - units y) (units (x - y)) := by
  obtain ⟨hdifference, hrounds⟩ :=
    (canonical x).rounds_add (canonical y).neg hx (isFinite_neg hy)
  rw [unitsOf_neg, ← Int.sub_eq_add_neg, ← unpack_sub] at hrounds
  rw [← unpack_sub] at hdifference
  exact ⟨isNaN_eq_false.mpr hdifference, hrounds⟩

theorem le_add (hx : 0 ≤ x) (hy : 0 ≤ y) : x ≤ x + y := by
  have hnumber := number_of_le_right hx
  rcases nonneg_cases hy with hy' | hy'
  · apply le_of_unpack_eq hnumber
    rcases nonneg_cases hx with hx' | hx'
    · rw [unpack_add, hx', hy']
      rfl
    · rw [unpack_add, hy', add_infinity_right hx']
      rfl
  · rcases nonneg_cases hx with hx' | hx'
    · apply le_of_unpack_eq hnumber
      rw [unpack_add, hx', add_infinity_left hy']
      rfl
    · have hunits : 0 ≤ units y := (le_iff.mp hy).2
      obtain ⟨hsum, hrounds⟩ := add_rounds hx' hy'
      exact le_iff.mpr ⟨⟨hnumber, hsum⟩, hrounds.le (value_units x) (by omega)⟩

theorem sub_lt_inf (hx : x < inf) (hy : 0 ≤ y) : x - y < inf := by
  rcases nonneg_cases hy with hy' | hy'
  · apply lt_inf_of_unpack_eq
    rcases lt_inf_cases hx with hx' | hx'
    · rw [unpack_sub, hx', hy']
      rfl
    · rw [unpack_sub, hy', UnpackedFloat.neg, add_infinity_right hx']
      rfl
  · rcases lt_inf_cases hx with hx' | hx'
    · apply lt_inf_of_unpack_eq
      rw [unpack_sub, hx', add_infinity_left (isFinite_neg hy')]
      rfl
    · have hunits : 0 ≤ units y := (le_iff.mp hy).2
      obtain ⟨hdifference, hrounds⟩ := sub_rounds hx' hy'
      have hle := hrounds.ge (value_units x) (by omega)
      exact lt_iff.mpr ⟨⟨hdifference, rfl⟩, Int.lt_of_le_of_lt hle (lt_iff.mp hx).2⟩

theorem add_nan_left (a : UnpackedFloat) :
    UnpackedFloat.add Format.binary32 .notANumber a = .notANumber := by
  cases a <;> rfl

theorem add_nan_right (a : UnpackedFloat) :
    UnpackedFloat.add Format.binary32 a .notANumber = .notANumber := by
  cases a <;> rfl

theorem isNaN_add_left (hx : x.isNaN) (y : Float32) : (x + y).isNaN := by
  rw [unpack_eq_nan] at hx ⊢
  rw [unpack_add, hx, add_nan_left, Packed.unpack_pack_nan]

theorem isNaN_add_right (x : Float32) (hy : y.isNaN) : (x + y).isNaN := by
  rw [unpack_eq_nan] at hy ⊢
  rw [unpack_add, hy, add_nan_right, Packed.unpack_pack_nan]

theorem isFinite_of_bounds (hx : x.isNaN = false) (h : (units x).natAbs < limit) : x.isFinite := by
  change x.toModel.unpack.isFinite = true
  rw [isNaN_eq_false] at hx
  rw [units] at h
  cases hunpack : x.toModel.unpack with
  | notANumber => exact absurd hunpack hx
  | infinity s =>
      rw [hunpack] at h
      cases s <;> simp [unitsOf, Sign.apply] at h
  | zero s | finite s m e hm => rfl

theorem number_of_isFinite (hx : x.isFinite) : x.isNaN = false := by
  rw [isNaN_eq_false]
  intro hnan
  have hfinite : x.toModel.unpack.isFinite = true := hx
  rw [hnan] at hfinite
  cases hfinite

theorem number_add (hx : x.isFinite) (hy : y.isNaN = false) : (x + y).isNaN = false := by
  cases hunpack : y.toModel.unpack with
  | notANumber => exact absurd hunpack (isNaN_eq_false.mp hy)
  | infinity s =>
      rw [isNaN_eq_false, unpack_add, hunpack, add_infinity_right hx]
      exact Packed.unpack_pack_ne_nan nofun
  | zero s | finite s m e hm =>
      have hfinite : y.isFinite := congrArg UnpackedFloat.isFinite hunpack
      exact (add_rounds hx hfinite).1

theorem number_sub (hx : x.isFinite) (hy : y.isNaN = false) : (x - y).isNaN = false := by
  cases hunpack : y.toModel.unpack with
  | notANumber => exact absurd hunpack (isNaN_eq_false.mp hy)
  | infinity s =>
      rw [isNaN_eq_false, unpack_sub, hunpack, UnpackedFloat.neg, add_infinity_right hx]
      exact Packed.unpack_pack_ne_nan nofun
  | zero s | finite s m e hm =>
      have hfinite : y.isFinite := congrArg UnpackedFloat.isFinite hunpack
      exact (sub_rounds hx hfinite).1

theorem Canonical.le_greatest {a : UnpackedFloat} (ha : Canonical a) (hfinite : a.isFinite) :
    (unitsOf a).natAbs ≤ scaled (2 ^ 24 - 1) 104 := by
  cases a with
  | notANumber | infinity s => cases hfinite
  | zero s => exact Nat.zero_le _
  | finite s m e hm =>
      have hle : scaled m e ≤ scaled (2 ^ 24 - 1) 104 := by
        rcases Int.lt_or_eq_of_le ha.exponent_le with hlt | rfl
        · have hfull := scaled_lt_full ha.normal.mantissa_lt ha.normal.le_exponent hlt
          exact (Nat.le_of_lt hfull).trans (scaled_le_scaled.mpr (by decide))
        · exact scaled_le_scaled.mpr (Nat.le_sub_one_of_lt ha.normal.mantissa_lt)
      cases s <;> simp only [unitsOf, Sign.apply] <;> omega

theorem isFinite_sub (hx : x.isFinite) (hy : y.isFinite) (hsmall : (units y).natAbs < 2 ^ 252) :
    (x - y).isFinite := by
  obtain ⟨hnumber, hrounds⟩ := sub_rounds hx hy
  have hgreatest : (units x).natAbs ≤ scaled (2 ^ 24 - 1) 104 := (canonical x).le_greatest hx
  have hthreshold : scaled (2 ^ 24 - 1) 104 + 2 ^ 252 = threshold := by decide
  exact isFinite_of_bounds hnumber (hrounds.bounded (by omega))

theorem sub_self (hx : x.isFinite) : x - x = 0 := by
  have hsub : UnpackedFloat.sub Format.binary32 x.toModel.unpack x.toModel.unpack =
      .zero .positive := by
    change x.toModel.unpack.isFinite = true at hx
    cases h : x.toModel.unpack with
    | notANumber | infinity s =>
        rw [h] at hx
        cases hx
    | zero s => cases s <;> rfl
    | finite s m e hm =>
        rw [UnpackedFloat.sub]
        dsimp only
        rw [Int.sub_self]
        rfl
  change Float32.ofModel (Float32.Model.pack
    (UnpackedFloat.sub Format.binary32 x.toModel.unpack x.toModel.unpack)) = 0
  rw [hsub]
  decide +kernel

/-! ### Products -/

theorem unpack_mul (x y : Float32) :
    (x * y).toModel.unpack = UnpackedFloat.unpack Format.binary32 (pack Format.binary32
      (UnpackedFloat.mul Format.binary32 x.toModel.unpack y.toModel.unpack)) := rfl

theorem apply_mul_apply (s s' : Sign) (i j : Int) :
    s.apply i * s'.apply j = (s * s').apply (i * j) := by
  cases s <;> cases s'
  · exact Int.neg_mul_neg i j
  · exact Int.neg_mul i j
  · exact Int.mul_neg i j
  · rfl

variable {m m' : Nat} {e e' : Int}

theorem scaled_mul_scaled (he : -149 ≤ e) (he' : -149 ≤ e') :
    scaled m e * scaled m' e' = scaled (m * m') (e + e' + (149 : Nat)) := by
  have hshift : (e + e' + (149 : Nat) + 149).toNat = (e + 149).toNat + (e' + 149).toNat := by omega
  rw [scaled, scaled, scaled, hshift, Nat.pow_add]
  ring

theorem Normal.mul_exponent (h : Normal m e) (h' : Normal m' e') (hm : 0 < m) (hm' : 0 < m') :
    e + e' ≤ lastExponent (m * m') (e + e') := by
  have hlog (hfull : 2 ^ 23 ≤ m * m') : 23 ≤ (m * m').log2 :=
    (Nat.le_log2 (Nat.ne_of_gt (Nat.mul_pos hm hm'))).mpr hfull
  rw [lastExponent]
  rcases h.least_or_full with he | hfull
  · rcases h'.least_or_full with he' | hfull'
    · omega
    · have := hlog (hfull'.trans (Nat.le_mul_of_pos_left m' hm))
      omega
  · have := hlog (hfull.trans (Nat.le_mul_of_pos_right m hm'))
    omega

theorem rounds_zero {c : Nat} (hc : 0 < c) : Rounds c 0 0 where
  le _ h := Int.nonpos_of_mul_nonpos_left h (Int.natCast_pos.mpr hc)
  ge _ h := Int.nonneg_of_mul_nonneg_left h (Int.natCast_pos.mpr hc)
  bounded _ := limit_pos

/-- The product of two finite numbers is a number, the exact product rounded. -/
theorem Canonical.rounds_mul {a b : UnpackedFloat} (ha : Canonical a) (hb : Canonical b)
    (hfa : a.isFinite) (hfb : b.isFinite) :
    let r := UnpackedFloat.unpack Format.binary32 (pack Format.binary32
      (UnpackedFloat.mul Format.binary32 a b))
    r ≠ .notANumber ∧ Rounds (2 ^ 149) (unitsOf a * unitsOf b) (unitsOf r) := by
  have hzero (s : Sign) : unitsOf (.zero s) = 0 := rfl
  cases a with
  | notANumber | infinity s => cases hfa
  | zero s =>
      rw [hzero, Int.zero_mul]
      cases b with
      | notANumber | infinity s' => cases hfb
      | zero s' | finite s' m' e' hm' =>
          rw [UnpackedFloat.mul, Packed.unpack_pack_zero]
          exact ⟨nofun, rounds_zero (Nat.two_pow_pos _)⟩
  | finite s m e hm =>
      cases b with
      | notANumber | infinity s' => cases hfb
      | zero s' =>
          rw [hzero, Int.mul_zero, UnpackedFloat.mul, Packed.unpack_pack_zero]
          exact ⟨nofun, rounds_zero (Nat.two_pow_pos _)⟩
      | finite s' m' e' hm' =>
          have hlow := ha.normal.le_exponent
          have hlow' := hb.normal.le_exponent
          rw [UnpackedFloat.mul, unitsOf, unitsOf, apply_mul_apply, ← Int.natCast_mul,
            scaled_mul_scaled hlow hlow']
          exact ⟨Packed.unpack_pack_ne_nan (roundWithAccuracy_ne_nan _ _ _ _),
            rounds_roundWithAccuracy (s * s') (by omega)
              (ha.normal.mul_exponent hb.normal hm hm')⟩

theorem mul_rounds (hx : x.isFinite) (hy : y.isFinite) :
    (x * y).isNaN = false ∧ Rounds (2 ^ 149) (units x * units y) (units (x * y)) := by
  obtain ⟨hproduct, hrounds⟩ := (canonical x).rounds_mul (canonical y) hx hy
  exact ⟨isNaN_eq_false.mpr hproduct, hrounds⟩

/-! ### Quotients and roots -/

theorem ne_nan {a : UnpackedFloat} (h : a.isNaN = false) : a ≠ .notANumber := by
  rintro rfl
  cases h

theorem unpack_div (x y : Float32) :
    (x / y).toModel.unpack = UnpackedFloat.unpack Format.binary32 (pack Format.binary32
      (UnpackedFloat.div Format.binary32 x.toModel.unpack y.toModel.unpack)) := rfl

/-- A quotient of mantissas: the exponent leaves it enough bits, and if bits are lost then it is
less than the exact one. -/
structure Divided (m : Nat) (e : Int) (m' : Nat) (e' : Int) (q : Nat) (t : Int) (a : Accuracy) :
    Prop where
  low : min (e - e') (-149) ≤ t
  high : t ≤ e - e'
  mul_le : q * m' ≤ m * 2 ^ (e - e' - t).toNat
  lost : a = .exact ∨ q * m' < m * 2 ^ (e - e' - t).toNat
  last : t ≤ lastExponent q t

theorem targetExponent_sub (m m' : Nat) (e e' : Int) : Format.binary32.targetExponent
    (Float.Model.totalExponent m e - Float.Model.totalExponent m' e') =
      max (m.log2 + e - (m'.log2 + e') - 24) (-149) :=
  Packed.targetExponent_sub Format.binary32 m m' e e'

theorem divided_divCore (hm : 0 < m) (hm' : 0 < m') :
    let core := divCore Format.binary32 m e m' e'
    Divided m e m' e' core.1 core.2.1 core.2.2 := by
  rw [divCore, targetExponent_sub]
  dsimp only
  generalize hexponent : min (e - e') (max (m.log2 + e - (m'.log2 + e') - 24) (-149)) = t
  rw [Nat.shiftLeft_eq]
  generalize hn : m * 2 ^ (e - e' - t).toNat = n
  have hdiv := Nat.div_add_mod' n m'
  refine ⟨by omega, by omega, by omega, ?_, ?_⟩
  · rw [accuracyOfFraction]
    split
    · exact .inl rfl
    · right
      omega
  · rw [lastExponent]
    rcases Int.lt_or_le (-149) t with hlt | hle
    · -- Where the exponent is not the least one, it was chosen for the sake of the bits.
      have hfull : 2 ^ 23 ≤ n / m' := by
        rw [Nat.le_div_iff_mul_le hm', ← hn]
        calc 2 ^ 23 * m' ≤ 2 ^ 23 * 2 ^ (m'.log2 + 1) :=
              Nat.mul_le_mul_left _ (Nat.le_of_lt Nat.lt_log2_self)
          _ = 2 ^ (23 + (m'.log2 + 1)) := (Nat.pow_add _ _ _).symm
          _ ≤ 2 ^ (m.log2 + (e - e' - t).toNat) := Nat.pow_le_pow_right (by decide) (by omega)
          _ = 2 ^ m.log2 * 2 ^ (e - e' - t).toNat := Nat.pow_add _ _ _
          _ ≤ m * 2 ^ (e - e' - t).toNat :=
              Nat.mul_le_mul_right _ (Nat.log2_self_le (Nat.ne_of_gt hm))
      have hlog := (Nat.le_log2 (Nat.ne_of_gt ((Nat.two_pow_pos 23).trans_le hfull))).mpr hfull
      omega
    · omega

theorem Divided.scaled_mul_le {q : Nat} {t : Int} {a : Accuracy} (h : Divided m e m' e' q t a)
    (he : -149 ≤ e) (he' : -149 ≤ e' ∧ e' ≤ 104) :
    scaled q (t + (149 : Nat)) * scaled m' e' ≤ scaled m (e + (149 : Nat)) * 2 ^ 149 ∧
    (a = .exact ∨
      scaled q (t + (149 : Nat)) * scaled m' e' < scaled m (e + (149 : Nat)) * 2 ^ 149) := by
  have hlow := h.low
  have hhigh := h.high
  have hshift : (e + (149 : Nat) + 149).toNat + 149 =
      (e - e' - t).toNat + ((t + (149 : Nat) + 149).toNat + (e' + 149).toNat) := by omega
  have hleft : scaled q (t + (149 : Nat)) * scaled m' e' =
      q * m' * 2 ^ ((t + (149 : Nat) + 149).toNat + (e' + 149).toNat) := by
    rw [scaled, scaled, Nat.pow_add]
    ring
  have hright : scaled m (e + (149 : Nat)) * 2 ^ 149 = m * 2 ^ (e - e' - t).toNat *
      2 ^ ((t + (149 : Nat) + 149).toNat + (e' + 149).toNat) := by
    rw [scaled, Nat.mul_assoc, ← Nat.pow_add, hshift, Nat.pow_add, Nat.mul_assoc]
  rw [hleft, hright]
  exact ⟨Nat.mul_le_mul_right _ h.mul_le,
    h.lost.imp_right fun hlt => Nat.mul_lt_mul_of_pos_right hlt (Nat.two_pow_pos _)⟩

/-- A quotient by one or more is rounded to no more than what was divided. -/
theorem Divided.between {q : Nat} {t : Int} {a : Accuracy} (h : Divided m e m' e' q t a)
    (hnormal : Normal m e) (he' : -149 ≤ e' ∧ e' ≤ 104) (hone : 2 ^ 149 ≤ scaled m' e') :
    let r := unitsOf (UnpackedFloat.unpack Format.binary32 (pack Format.binary32
      (roundWithAccuracy Format.binary32 .positive q t a)))
    0 ≤ r ∧ r ≤ scaled m e := by
  have hlow := h.low
  have hexponent := hnormal.le_exponent
  have hpos : 0 < scaled m' e' := (Nat.two_pow_pos 149).trans_le hone
  obtain ⟨hle, hlost⟩ := h.scaled_mul_le hexponent he'
  have hmore := Nat.mul_le_mul_left (scaled m (e + (149 : Nat))) hone
  have hcut := cut_scaled_le (a := a) (k := 149) hnormal.mantissa_lt hexponent (by omega) h.last
    (Nat.le_of_mul_le_mul_right (hle.trans hmore) hpos)
    (hlost.imp_right fun hlt => Nat.lt_of_mul_lt_mul_right (hlt.trans_le hmore))
  rw [unitsOf_roundWithAccuracy _ _ h.last]
  change (0 : Int) ≤ (min _ limit : Nat) ∧ ((min _ limit : Nat) : Int) ≤ _
  omega

theorem positive_of_nonneg {s : Sign} {n : Nat} (hn : 0 < n) (h : 0 ≤ s.apply n) :
    s = .positive := by
  cases s with
  | negative =>
      rw [Sign.apply] at h
      omega
  | positive => rfl

theorem Canonical.div_between {a b : UnpackedFloat} (ha : Canonical a) (hb : Canonical b)
    (hfa : a.isFinite) (hpos : 0 ≤ unitsOf a) (hone : ((2 ^ 149 : Nat) : Int) ≤ unitsOf b) :
    let r := UnpackedFloat.unpack Format.binary32 (pack Format.binary32
      (UnpackedFloat.div Format.binary32 a b))
    r ≠ .notANumber ∧ 0 ≤ unitsOf r ∧ unitsOf r ≤ unitsOf a := by
  have hnone : ¬((2 ^ 149 : Nat) : Int) ≤ 0 := by decide
  cases a with
  | notANumber | infinity s => cases hfa
  | zero s =>
      cases b with
      | notANumber | zero s' => exact absurd hone hnone
      | infinity s' | finite s' m' e' hm' =>
          rw [UnpackedFloat.div, Packed.unpack_pack_zero]
          exact ⟨nofun, Int.le_refl _, Int.le_refl _⟩
  | finite s m e hm =>
      cases b with
      | notANumber | zero s' => exact absurd hone hnone
      | infinity s' =>
          rw [UnpackedFloat.div, Packed.unpack_pack_zero]
          exact ⟨nofun, Int.le_refl _, hpos⟩
      | finite s' m' e' hm' =>
          obtain rfl := positive_of_nonneg (scaled_pos hm) hpos
          obtain rfl := positive_of_nonneg (scaled_pos hm') (Int.le_trans (by decide) hone)
          exact ⟨Packed.unpack_pack_ne_nan (roundWithAccuracy_ne_nan _ _ _ _),
            (divided_divCore hm hm').between ha.normal ⟨hb.normal.le_exponent, hb.exponent_le⟩
              (Int.ofNat_le.mp hone)⟩

theorem div_le (hx : x.isFinite) (hpos : 0 ≤ x) (hy : 1 ≤ y) : 0 ≤ x / y ∧ x / y ≤ x := by
  obtain ⟨⟨-, hnumber⟩, hpos⟩ := le_iff.mp hpos
  obtain ⟨-, hone⟩ := le_iff.mp hy
  have hunits : units 1 = (2 ^ 149 : Nat) := by decide +kernel
  rw [hunits] at hone
  obtain ⟨hdivided, hle⟩ := (canonical x).div_between (canonical y) hx hpos hone
  have hnumber' : (x / y).isNaN = false := isNaN_eq_false.mpr hdivided
  exact ⟨le_iff.mpr ⟨⟨rfl, hnumber'⟩, hle.1⟩, le_iff.mpr ⟨⟨hnumber', hnumber⟩, hle.2⟩⟩

theorem number_div (hx : x.isNaN = false) (hy : y.isFinite) (hzero : units y ≠ 0) :
    (x / y).isNaN = false := by
  rw [isNaN_eq_false] at hx ⊢
  change y.toModel.unpack.isFinite = true at hy
  rw [units] at hzero
  rw [unpack_div]
  apply Packed.unpack_pack_ne_nan
  cases hunpack : y.toModel.unpack with
  | notANumber | infinity s =>
      rw [hunpack] at hy
      cases hy
  | zero s =>
      rw [hunpack] at hzero
      exact absurd rfl hzero
  | finite s m e hm =>
      cases hunpack' : x.toModel.unpack with
      | notANumber => exact absurd hunpack' hx
      | infinity s' | zero s' => exact ne_nan rfl
      | finite s' m' e' hm' => exact roundWithAccuracy_ne_nan _ _ _ _

theorem number_sqrt (hx : 0 ≤ x) : x.sqrt.isNaN = false := by
  obtain ⟨⟨-, hnumber⟩, hpos⟩ := le_iff.mp hx
  rw [isNaN_eq_false] at hnumber ⊢
  rw [units_zero, units] at hpos
  change UnpackedFloat.unpack Format.binary32 (pack Format.binary32
    (UnpackedFloat.sqrt Format.binary32 x.toModel.unpack)) ≠ .notANumber
  apply Packed.unpack_pack_ne_nan
  cases hunpack : x.toModel.unpack with
  | notANumber => exact absurd hunpack hnumber
  | zero s => exact ne_nan rfl
  | infinity s =>
      rw [hunpack] at hpos
      obtain rfl := positive_of_nonneg limit_pos hpos
      exact ne_nan rfl
  | finite s m e hm =>
      rw [hunpack] at hpos
      obtain rfl := positive_of_nonneg (scaled_pos hm) hpos
      exact roundWithAccuracy_ne_nan _ _ _ _

/-! ### Magnitudes and whole numbers -/

theorem unpack_abs (hx : x.isNaN = false) : x.abs.toModel.unpack = x.toModel.unpack.abs := by
  have hcanonical := canonical x
  rw [isNaN_eq_false] at hx
  change UnpackedFloat.unpack Format.binary32 (pack Format.binary32 x.toModel.unpack.abs) = _
  cases h : x.toModel.unpack with
  | notANumber => exact absurd h hx
  | infinity s => exact Packed.unpack_packedInfinity _ .positive
  | zero s => exact Packed.unpack_pack_zero _ .positive
  | finite s m e hm =>
      rw [h] at hcanonical
      exact unpack_pack_of_normal hcanonical.normal hcanonical.exponent_le

theorem isNaN_abs (hx : x.isNaN) : x.abs.isNaN := by
  rw [unpack_eq_nan] at hx ⊢
  change UnpackedFloat.unpack Format.binary32 (pack Format.binary32 x.toModel.unpack.abs) = _
  rw [hx]
  exact Packed.unpack_pack_nan Format.binary32

theorem abs_nonneg (hx : x.isNaN = false) : 0 ≤ x.abs := by
  have hunpack := unpack_abs hx
  rw [isNaN_eq_false] at hx
  rw [le_iff, units_zero, isNaN_eq_false (x := x.abs), units, hunpack]
  cases h : x.toModel.unpack with
  | notANumber => exact absurd h hx
  | infinity s | zero s | finite s m e hm => exact ⟨⟨rfl, ne_nan rfl⟩, Int.natCast_nonneg _⟩

theorem isFinite_toFloat32 (n : UInt64) : n.toFloat32.isFinite := by
  have hlow : (-149 : Int) ≤ 0 := by decide
  have hunpack : n.toFloat32.toModel.unpack = UnpackedFloat.unpack Format.binary32
    (pack Format.binary32 (UnpackedFloat.normalize Format.binary32 n.toNat 0 .positive)) := rfl
  have hnumber : n.toFloat32.isNaN = false := by
    rw [isNaN_eq_false, hunpack]
    exact Packed.unpack_pack_ne_nan (normalize_ne_nan _ _ _)
  apply isFinite_of_bounds hnumber
  rw [units, hunpack]
  apply (rounds_normalize hlow).bounded
  have hn : n.toNat < 2 ^ 64 := n.toNat_lt
  have hthreshold : 2 ^ 64 * 2 ^ 149 < threshold := by decide
  rw [← Int.natCast_mul, Int.natAbs_natCast, Nat.mul_one]
  exact (Nat.mul_lt_mul_of_pos_right hn (Nat.two_pow_pos _)).trans hthreshold

/-! ### Bounds -/

theorem isFinite_of_nonneg (hx : 0 ≤ x) (h : units x < limit) : x.isFinite := by
  have hpos := (le_iff.mp hx).2
  rw [units_zero] at hpos
  exact isFinite_of_bounds (number_of_le_right hx) (by omega)

theorem isFinite_of_le (hx : 0 ≤ x) (hxy : x ≤ y) (hy : y.isFinite) : x.isFinite :=
  isFinite_of_nonneg hx (Int.lt_of_le_of_lt (le_iff.mp hxy).2 ((canonical y).bounds hy).2)

theorem sub_between (hy : 0 ≤ y) (hyx : y ≤ x) (hx : x.isFinite) : 0 ≤ x - y ∧ (x - y).isFinite := by
  obtain ⟨hnumber, hrounds⟩ := sub_rounds hx (isFinite_of_le hy hyx hx)
  have hpos : 0 ≤ units y := (le_iff.mp hy).2
  have hle : units y ≤ units x := (le_iff.mp hyx).2
  have hlow : units 0 ≤ units (x - y) := hrounds.le (value_units 0) (by rw [units_zero]; omega)
  have hhigh : units (x - y) ≤ units x := hrounds.ge (value_units x) (by omega)
  have hdifference : 0 ≤ x - y := le_iff.mpr ⟨⟨rfl, hnumber⟩, hlow⟩
  refine ⟨hdifference, isFinite_of_nonneg hdifference ?_⟩
  exact Int.lt_of_le_of_lt hhigh ((canonical x).bounds hx).2

/-- A product that is a number itself. -/
def ExactProduct (x y : Float32) : Prop := units x * units y = units (x * y) * (2 ^ 149 : Nat)

instance (x y : Float32) : Decidable (ExactProduct x y) :=
  inferInstanceAs (Decidable (units x * units y = units (x * y) * (2 ^ 149 : Nat)))

variable {x' y' : Float32}

theorem units_nonneg (hx : 0 ≤ x) : 0 ≤ units x := (le_iff.mp hx).2

theorem mul_nonneg (hx : 0 ≤ x) (hy : 0 ≤ y) (hfx : x.isFinite) (hfy : y.isFinite) : 0 ≤ x * y := by
  obtain ⟨hnumber, hrounds⟩ := mul_rounds hfx hfy
  have hproduct := Int.mul_nonneg (units_nonneg hx) (units_nonneg hy)
  exact le_iff.mpr ⟨⟨rfl, hnumber⟩, hrounds.le (value_units 0) (by rwa [units_zero, Int.zero_mul])⟩

theorem mul_le_exact (hexact : ExactProduct x' y') (hx : 0 ≤ x) (hxx' : x ≤ x') (hy : 0 ≤ y)
    (hyy' : y ≤ y') (hfx : x'.isFinite) (hfy : y'.isFinite) : x * y ≤ x' * y' := by
  obtain ⟨hnumber, hrounds⟩ := mul_rounds (isFinite_of_le hx hxx' hfx) (isFinite_of_le hy hyy' hfy)
  have hle := Int.mul_le_mul (le_iff.mp hxx').2 (le_iff.mp hyy').2 (units_nonneg hy)
    (units_nonneg (le_trans hx hxx'))
  rw [hexact] at hle
  exact le_iff.mpr ⟨⟨hnumber, (mul_rounds hfx hfy).1⟩, hrounds.ge (value_units _) hle⟩

theorem exact_le_mul (hexact : ExactProduct x y) (hx : 0 ≤ x) (hxx' : x ≤ x') (hy : 0 ≤ y)
    (hyy' : y ≤ y') (hfx : x'.isFinite) (hfy : y'.isFinite) : x * y ≤ x' * y' := by
  obtain ⟨hnumber, hrounds⟩ := mul_rounds hfx hfy
  have hproduct := (mul_rounds (isFinite_of_le hx hxx' hfx) (isFinite_of_le hy hyy' hfy)).1
  have hle := Int.mul_le_mul (le_iff.mp hxx').2 (le_iff.mp hyy').2 (units_nonneg hy)
    (units_nonneg (le_trans hx hxx'))
  rw [hexact] at hle
  exact le_iff.mpr ⟨⟨hproduct, hnumber⟩, hrounds.le (value_units _) hle⟩

theorem sq_nonneg (hx : x.isNaN = false) : 0 ≤ x * x := by
  cases h : x.toModel.unpack with
  | notANumber => exact absurd h (isNaN_eq_false.mp hx)
  | infinity s =>
      apply le_of_unpack_eq rfl
      rw [unpack_mul, h]
      cases s <;> rfl
  | zero s | finite s m e hm =>
      have hfinite : x.isFinite := congrArg UnpackedFloat.isFinite h
      obtain ⟨hnumber, hrounds⟩ := mul_rounds hfinite hfinite
      refine le_iff.mpr ⟨⟨rfl, hnumber⟩, hrounds.le (value_units 0) ?_⟩
      rw [units_zero, Int.zero_mul]
      exact mul_self_nonneg _

theorem add_nonneg (hx : 0 ≤ x) (hy : 0 ≤ y) : 0 ≤ x + y := le_trans hx (le_add hx hy)

end Terrarium.Single
