import Terrarium.Proofs.SingleOrder

/-!
Rounding to single precision. Whatever is rounded becomes a number that lies on the same side of
every number as the exact value, and an infinity only from half way beyond the greatest number on.
-/
namespace Terrarium.Single

open Float.Model (Format UnpackedFloat totalExponent)
open Float.Model.UnpackedFloat

variable {m e k n : Nat}

/-! ### Packing -/

theorem unpack_pack_of_normal {s : Sign} {m : Nat} {e : Int} {hm : 0 < m} (h : Normal m e)
    (he : e ≤ 104) :
    UnpackedFloat.unpack Format.binary32 (pack Format.binary32 (.finite s m e hm)) =
      .finite s m e hm := by
  obtain ⟨hmantissa, hlow, hfull⟩ := h
  have hbeyond : e < Packed.beyond Format.binary32 := Int.lt_add_one_iff.mpr he
  rcases Nat.lt_or_ge m (2 ^ 23) with hlt | hle
  · obtain rfl : e = -149 := hfull.resolve_right (Nat.not_le.mpr hlt)
    exact Packed.unpack_pack_of_lt hlt hlow hbeyond
  · exact Packed.unpack_pack_of_le hle hmantissa hlow hbeyond

theorem unitsOf_pack {s : Sign} {m : Nat} {e : Int} {hm : 0 < m} (h : Normal m e) :
    unitsOf (UnpackedFloat.unpack Format.binary32 (pack Format.binary32 (.finite s m e hm))) =
      s.apply (min (scaled m e) limit : Nat) := by
  by_cases he : e ≤ 104
  · rw [unpack_pack_of_normal h he, Nat.min_eq_left (Nat.le_of_lt (h.scaled_lt_limit he))]
    rfl
  · have hlimit : limit ≤ scaled m e := by
      rcases Int.lt_or_eq_of_le (show (105 : Int) ≤ e by omega) with hlt | rfl
      · exact Nat.le_of_lt (normal_limit.scaled_lt h hlt)
      · exact Nat.mul_le_mul_right _ (h.full.resolve_left (by decide))
    rw [Packed.unpack_pack_of_large (Int.not_le.mp he), Nat.min_eq_right hlimit]
    rfl

/-! ### Cutting off bits -/

theorem shift_succ (em : ExtendedMantissa) (k : Nat) :
    em >>> (k + 1) = (em >>> k).shiftRightOne := rfl

theorem mantissa_shift (a : Accuracy) (m k : Nat) :
    (ExtendedMantissa.ofMantissaAndAccuracy m a >>> k).mantissa = m / 2 ^ k := by
  induction k with
  | zero =>
      rw [Nat.pow_zero, Nat.div_one]
      rcases a with _ | (_ | _ | _) <;> rfl
  | succ k ih =>
      rw [shift_succ, ExtendedMantissa.shiftRightOne]
      dsimp only
      rw [ih, Nat.div_div_eq_div_mul, ← Nat.pow_succ]

theorem mantissa_le_rounded (em : ExtendedMantissa) :
    em.mantissa ≤ em.roundedMantissa ∧ em.roundedMantissa ≤ em.mantissa + 1 := by
  obtain ⟨m, roundBit, stickyBit⟩ := em
  cases roundBit <;> cases stickyBit <;>
    simp only [ExtendedMantissa.roundedMantissa, ExtendedMantissa.accuracy,
      Accuracy.roundToNearestEven] <;>
    omega

/-- A mantissa cut by `k` bits and rounded. -/
def cut (a : Accuracy) (m k : Nat) : Nat :=
  (ExtendedMantissa.ofMantissaAndAccuracy m a >>> k).roundedMantissa

variable {a : Accuracy}

theorem le_cut {m k n : Nat} (h : n * 2 ^ k ≤ m) : n ≤ cut a m k := by
  have hfloor := (mantissa_le_rounded (ExtendedMantissa.ofMantissaAndAccuracy m a >>> k)).1
  rw [mantissa_shift] at hfloor
  exact ((Nat.le_div_iff_mul_le (Nat.two_pow_pos k)).mpr h).trans hfloor

theorem cut_le_of_lt {m k n : Nat} (h : m < n * 2 ^ k) : cut a m k ≤ n := by
  have hceil := (mantissa_le_rounded (ExtendedMantissa.ofMantissaAndAccuracy m a >>> k)).2
  rw [mantissa_shift] at hceil
  exact hceil.trans ((Nat.div_lt_iff_lt_mul (Nat.two_pow_pos k)).mpr h)

theorem cut_le_of_lt_half {m k n : Nat} (h : 2 * m < (2 * n + 1) * 2 ^ k) :
    cut .exact m k ≤ n := by
  cases k with
  | zero =>
      rw [Nat.pow_zero] at h
      change m ≤ n
      omega
  | succ k =>
      have hhalf : m / 2 ^ k < 2 * n + 1 := by
        rw [Nat.div_lt_iff_lt_mul (Nat.two_pow_pos k)]
        rw [Nat.pow_succ, ← Nat.mul_assoc] at h
        omega
      have hmantissa := mantissa_shift .exact m k
      rw [cut, shift_succ]
      generalize ExtendedMantissa.ofMantissaAndAccuracy m .exact >>> k = em at hmantissa ⊢
      obtain ⟨m', roundBit, stickyBit⟩ := em
      obtain rfl : m' = m / 2 ^ k := hmantissa
      rcases Nat.lt_or_eq_of_le (Nat.le_of_lt_succ hhalf) with hlt | heq
      · have hceil := (mantissa_le_rounded
          (ExtendedMantissa.shiftRightOne ⟨m / 2 ^ k, roundBit, stickyBit⟩)).2
        have hfloor : (ExtendedMantissa.shiftRightOne
          ⟨m / 2 ^ k, roundBit, stickyBit⟩).mantissa = m / 2 ^ k / 2 := rfl
        omega
      · rw [heq, ExtendedMantissa.shiftRightOne]
        cases roundBit <;> cases stickyBit <;>
          simp [ExtendedMantissa.roundedMantissa, ExtendedMantissa.accuracy,
            Accuracy.roundToNearestEven]

theorem cut_le {m k n : Nat} (h : m ≤ n * 2 ^ k) : cut .exact m k ≤ n := by
  have hpos : 0 < 2 ^ k := Nat.two_pow_pos k
  apply cut_le_of_lt_half
  rw [Nat.add_mul, Nat.mul_assoc]
  omega

/-- The exponent of the last bit that rounding keeps. -/
def lastExponent (m : Nat) (e : Int) : Int := max (m.log2 + e - 23) (-149)

theorem targetExponent_eq (m : Nat) (e : Int) :
    Format.binary32.targetExponent (totalExponent m e) = lastExponent m e :=
  Packed.targetExponent_eq Format.binary32 m e

variable {m : Nat} {e : Int}

theorem cut_le_full (a : Accuracy) (m : Nat) (e : Int) :
    cut a m (lastExponent m e - e).toNat ≤ 2 ^ 24 := by
  have hlog : m < 2 ^ (m.log2 + 1) := Nat.lt_log2_self
  have hbits : m.log2 + 1 ≤ 24 + (lastExponent m e - e).toNat := by
    rw [lastExponent]
    omega
  apply cut_le_of_lt
  rw [← Nat.pow_add]
  exact hlog.trans_le (Nat.pow_le_pow_right (by decide) hbits)

theorem full_le (hlast : -149 < lastExponent m e) (he : e ≤ lastExponent m e) :
    2 ^ 23 * 2 ^ (lastExponent m e - e).toNat ≤ m := by
  have hbits : 23 + (lastExponent m e - e).toNat = m.log2 := by
    rw [lastExponent] at hlast he ⊢
    omega
  have hm : m ≠ 0 := by
    rintro rfl
    rw [Nat.log2_zero] at hbits
    omega
  rw [← Nat.pow_add, hbits]
  exact Nat.log2_self_le hm

/-- In any format, rounding cuts off bits, and one bit more if the last one is carried beyond the
first. -/
theorem roundWithAccuracy_eq_cut (f : Format) (s : Sign) {m n k carry : Nat} {e t : Int}
    {a : Accuracy} (hk : (f.targetExponent (totalExponent m e) - e).toNat = k)
    (hn : cut a m k = n) (ht : e + k = t)
    (hcarry : (f.targetExponent (totalExponent n t) - t).toNat = carry) :
    roundWithAccuracy f s m e a =
      if h : n / 2 ^ carry = 0 then .zero s
      else .finite s (n / 2 ^ carry) (t + carry) (Nat.pos_of_ne_zero h) := by
  subst hk hn ht hcarry
  rw [roundWithAccuracy.eq_def]
  simp only [shiftToTargetExponent, shiftToExponent, mantissa_shift]
  rfl

/-- Rounding gives zero or a normal number, and its value is what the cut left. -/
theorem roundWithAccuracy_eq (s : Sign) (a : Accuracy) (he : e ≤ lastExponent m e) :
    (cut a m (lastExponent m e - e).toNat = 0 ∧
      roundWithAccuracy Format.binary32 s m e a = .zero s) ∨
    ∃ m' e' hm', roundWithAccuracy Format.binary32 s m e a = .finite s m' e' hm' ∧
      Normal m' e' ∧
      scaled m' e' = scaled (cut a m (lastExponent m e - e).toNat) (lastExponent m e) := by
  have hlow : -149 ≤ lastExponent m e := Int.le_max_right _ _
  have hexponent : e + (lastExponent m e - e).toNat = lastExponent m e := by omega
  have hfull : -149 < lastExponent m e → 2 ^ 23 ≤ cut a m (lastExponent m e - e).toNat :=
    fun hlast => le_cut (full_le hlast he)
  have hcut := cut_le_full a m e
  generalize hn : cut a m (lastExponent m e - e).toNat = n at hfull hcut ⊢
  rw [roundWithAccuracy_eq_cut Format.binary32 s
    (congrArg (fun t => (t - e).toNat) (targetExponent_eq m e)) hn hexponent
    (congrArg (fun t => (t - lastExponent m e).toNat) (targetExponent_eq n (lastExponent m e)))]
  clear hn hexponent
  generalize lastExponent m e = t at hlow hfull ⊢
  rcases Nat.eq_zero_or_pos n with rfl | hpos
  · exact .inl ⟨rfl, dif_pos (Nat.zero_div _)⟩
  right
  rcases Nat.lt_or_eq_of_le hcut with hlt | rfl
  · have hcarry : (lastExponent n t - t).toNat = 0 := by
      have hlog : n.log2 < 24 := (Nat.log2_lt (Nat.ne_of_gt hpos)).mpr hlt
      rw [lastExponent]
      omega
    simp only [hcarry, Nat.pow_zero, Nat.div_one, dif_neg (Nat.ne_of_gt hpos), Int.natCast_zero,
      Int.add_zero]
    refine ⟨n, t, hpos, rfl, ⟨hlt, hlow, ?_⟩, rfl⟩
    rcases Int.lt_or_eq_of_le hlow with hlast | hlast
    · exact .inr (hfull hlast)
    · exact .inl hlast.symm
  · -- The carry makes the mantissa a power of two, of which one bit more is cut off.
    have hcarry : (lastExponent (2 ^ 24) t - t).toNat = 1 := by
      rw [lastExponent, Nat.log2_two_pow]
      omega
    have hscaled : scaled (2 ^ 23) (t + 1) = scaled (2 ^ 24) t := by
      have hshift : (t + 1 + 149).toNat = (t + 149).toNat + 1 := by omega
      rw [scaled, scaled, hshift]
      ring
    simp only [hcarry]
    have hnext : -149 ≤ t + 1 := Int.le_add_one hlow
    exact ⟨2 ^ 23, t + 1, by decide, rfl, ⟨by decide, hnext, .inr (Nat.le_refl _)⟩, hscaled⟩

theorem unitsOf_roundWithAccuracy (s : Sign) (a : Accuracy) (he : e ≤ lastExponent m e) :
    unitsOf (UnpackedFloat.unpack Format.binary32 (pack Format.binary32
      (roundWithAccuracy Format.binary32 s m e a))) =
        s.apply (min (scaled (cut a m (lastExponent m e - e).toNat) (lastExponent m e)) limit : Nat)
    := by
  rcases roundWithAccuracy_eq s a he with ⟨hzero, hround⟩ | ⟨m', e', hm', hround, hnormal, hscaled⟩
  · rw [hround, hzero, Packed.unpack_pack_zero, scaled, Nat.zero_mul, Nat.zero_min]
    cases s <;> rfl
  · rw [hround, ← hscaled]
    exact unitsOf_pack hnormal

/-! ### Rounding keeps the order -/

variable {p : Nat} {j : Int} {k : Nat}

theorem scaled_mul_pow (he : -149 ≤ e) (k : Nat) : scaled m e * 2 ^ k = scaled m (e + k) := by
  have hshift : (e + k + 149).toNat = (e + 149).toNat + k := by omega
  rw [scaled, scaled, hshift, Nat.pow_add, Nat.mul_assoc]

theorem scaled_add (he : -149 ≤ e + k) (hle : e ≤ j) :
    scaled m (j + k) = scaled (m * 2 ^ (j - e).toNat) (e + k) := by
  have hshift : j + k - (e + k) = j - e := by omega
  rw [scaled_eq_scaled he (Int.add_le_add_right hle k), hshift]

theorem le_cut_scaled (hp : p < 2 ^ 24) (hj : -149 ≤ j) (hlow : -149 ≤ e + k)
    (he : e ≤ lastExponent m e) (h : scaled p (j + k) ≤ scaled m (e + k)) :
    scaled p j ≤ scaled (cut a m (lastExponent m e - e).toNat) (lastExponent m e) := by
  have hlast : -149 ≤ lastExponent m e := Int.le_max_right _ _
  rcases Int.lt_or_le j (lastExponent m e) with hlt | hle
  · have hfull := le_cut (a := a) (full_le (by omega) he)
    exact (Nat.le_of_lt (scaled_lt_full hp hj hlt)).trans (scaled_le_scaled.mpr hfull)
  · rw [scaled_eq_scaled hlast hle]
    rw [scaled_add (e := lastExponent m e) (by omega) hle, scaled_add hlow he,
      scaled_le_scaled] at h
    exact scaled_le_scaled.mpr (le_cut h)

theorem cut_scaled_le (hp : p < 2 ^ 24) (hj : -149 ≤ j) (hlow : -149 ≤ e + k)
    (he : e ≤ lastExponent m e) (h : scaled m (e + k) ≤ scaled p (j + k))
    (hlost : a = .exact ∨ scaled m (e + k) < scaled p (j + k)) :
    scaled (cut a m (lastExponent m e - e).toNat) (lastExponent m e) ≤ scaled p j := by
  have hlast : -149 ≤ lastExponent m e := Int.le_max_right _ _
  rcases Int.lt_or_le j (lastExponent m e) with hlt | hle
  · -- A number with so large an exponent is greater than any with a smaller one.
    have hfull : scaled (2 ^ 23) (lastExponent m e + k) ≤ scaled m (e + k) := by
      rw [scaled_add hlow he]
      exact scaled_le_scaled.mpr (full_le (by omega) he)
    have hmore := scaled_lt_full (e := j + k) hp (by omega) (Int.add_lt_add_right hlt k)
    exact absurd hmore (Nat.not_lt.mpr (hfull.trans h))
  · rw [scaled_eq_scaled hlast hle]
    rw [scaled_add (e := lastExponent m e) (by omega) hle, scaled_add hlow he] at h hlost
    rw [scaled_le_scaled] at h ⊢
    rcases hlost with rfl | hlost
    · exact cut_le h
    · exact cut_le_of_lt (Nat.lt_of_mul_lt_mul_right hlost)

/-- Half way between the greatest number and what an infinity stands for. -/
def threshold : Nat := scaled (2 ^ 25 - 1) 103

theorem cut_scaled_lt (hlow : -149 ≤ e + k) (he : e ≤ lastExponent m e)
    (h : scaled m (e + k) < threshold * 2 ^ k) :
    scaled (cut .exact m (lastExponent m e - e).toNat) (lastExponent m e) < limit := by
  have hlast : -149 ≤ lastExponent m e := Int.le_max_right _ _
  rw [threshold, scaled_mul_pow (by decide)] at h
  rcases Int.lt_or_le (lastExponent m e) 104 with hlt | hle
  · -- The cut leaves at most one bit too many, and the exponent is not the greatest one.
    refine (scaled_le_scaled.mpr (cut_le_full _ m e)).trans_lt ?_
    rw [limit, scaled, scaled]
    calc 2 ^ 24 * 2 ^ (lastExponent m e + 149).toNat ≤ 2 ^ 24 * 2 ^ 252 :=
          Nat.mul_le_mul_left _ (Nat.pow_le_pow_right (by decide) (by omega))
      _ < 2 ^ 23 * 2 ^ (105 + 149) := by decide
  · have hfull : scaled (2 ^ 23) (lastExponent m e + k) ≤ scaled m (e + k) := by
      rw [scaled_add hlow he]
      exact scaled_le_scaled.mpr (full_le (by omega) he)
    have hgreatest : lastExponent m e = 104 := by
      by_contra hne
      have hmore : scaled (2 ^ 23) (105 + k) ≤ scaled (2 ^ 23) (lastExponent m e + k) := by
        have hle : 105 ≤ lastExponent m e := by omega
        rw [scaled_add (by omega) hle, scaled_le_scaled]
        exact Nat.le_mul_of_pos_right _ (Nat.two_pow_pos _)
      have hless : scaled (2 ^ 25 - 1) (103 + k) < scaled (2 ^ 23) (105 + k) := by
        rw [scaled_add (e := 103) (j := 105) (by omega) (by decide)]
        exact Nat.mul_lt_mul_of_pos_right (by decide) (Nat.two_pow_pos _)
      exact absurd (hless.trans_le (hmore.trans hfull)) (Nat.lt_asymm h)
    rw [hgreatest] at he ⊢
    have hhalf : cut .exact m (104 - e).toNat ≤ 2 ^ 24 - 1 := by
      have hshift : (103 + k + 149 : Int).toNat + 1 = (104 - e).toNat + (e + k + 149).toNat := by
        omega
      apply cut_le_of_lt_half
      apply Nat.lt_of_mul_lt_mul_right (a := 2 ^ (e + k + 149).toNat)
      rw [Nat.mul_assoc, Nat.mul_assoc, ← Nat.pow_add, ← hshift, Nat.pow_succ]
      rw [scaled, scaled] at h
      omega
    exact (scaled_le_scaled.mpr hhalf).trans_lt (scaled_lt_full (by decide) (by decide) (by decide))

/-- A multiple of the least positive number that is a number, or stands for an infinity. -/
structure Value (z : Int) : Prop where
  mantissa : ∃ m e, m < 2 ^ 24 ∧ -149 ≤ e ∧ scaled m e = z.natAbs
  bounded : z.natAbs ≤ limit

theorem Value.neg {z : Int} (h : Value z) : Value (-z) where
  mantissa := by
    rw [Int.natAbs_neg]
    exact h.mantissa
  bounded := by
    rw [Int.natAbs_neg]
    exact h.bounded

theorem Canonical.value {a : UnpackedFloat} (ha : Canonical a) : Value (unitsOf a) := by
  have happly (s : Sign) (n : Nat) : (s.apply n).natAbs = n := by
    cases s <;> simp [Sign.apply]
  cases a with
  | notANumber | zero s => exact ⟨⟨0, 0, by decide, by decide, Nat.zero_mul _⟩, Nat.zero_le _⟩
  | infinity s =>
      rw [unitsOf]
      refine ⟨⟨2 ^ 23, 105, by decide, by decide, ?_⟩, ?_⟩
      · exact (happly s limit).symm
      · exact Nat.le_of_eq (happly s limit)
  | finite s m e hm =>
      rw [unitsOf]
      refine ⟨⟨m, e, ha.normal.mantissa_lt, ha.normal.le_exponent, (happly s _).symm⟩, ?_⟩
      rw [happly]
      exact Nat.le_of_lt (ha.normal.scaled_lt_limit ha.exponent_le)

theorem value_units (x : Float32) : Value (units x) := (canonical x).value

/-- What rounding makes of an exact value: a number on the same side of every number, and no
infinity of what lies below the half. The exact value is given in parts of the least positive
number, `c` of which make it up. -/
structure Rounds (c : Nat) (exact rounded : Int) : Prop where
  le : ∀ {z}, Value z → z * c ≤ exact → z ≤ rounded
  ge : ∀ {z}, Value z → exact ≤ z * c → rounded ≤ z
  bounded : exact.natAbs < threshold * c → rounded.natAbs < limit

variable {c : Nat} {i r : Int}

theorem Rounds.neg (h : Rounds c i r) : Rounds c (-i) (-r) where
  le hz hle := Int.le_neg_of_le_neg (h.ge hz.neg (by rw [Int.neg_mul]; omega))
  ge hz hle := Int.neg_le_of_neg_le (h.le hz.neg (by rw [Int.neg_mul]; omega))
  bounded hlt := by
    rw [Int.natAbs_neg] at hlt ⊢
    exact h.bounded hlt

theorem Rounds.apply (h : Rounds c i r) (s : Sign) : Rounds c (s.apply i) (s.apply r) := by
  cases s with
  | negative => exact h.neg
  | positive => exact h

theorem rounds_roundWithAccuracy (s : Sign) (hlow : -149 ≤ e + k) (he : e ≤ lastExponent m e) :
    Rounds (2 ^ k) (s.apply (scaled m (e + k))) (unitsOf (UnpackedFloat.unpack Format.binary32
      (pack Format.binary32 (roundWithAccuracy Format.binary32 s m e .exact)))) := by
  rw [unitsOf_roundWithAccuracy s .exact he]
  apply Rounds.apply
  constructor
  · rintro z ⟨⟨p, j, hp, hj, hz⟩, hbounded⟩ h
    rcases Int.lt_or_le z 0 with hneg | hpos
    · omega
    · obtain rfl : z = scaled p j := by omega
      rw [← Int.natCast_mul, Int.ofNat_le, scaled_mul_pow hj] at h
      have hle := le_cut_scaled (a := .exact) hp hj hlow he h
      omega
  · rintro z ⟨⟨p, j, hp, hj, hz⟩, hbounded⟩ h
    have hpos : 0 ≤ z := by
      by_contra hneg
      have := Int.mul_neg_of_neg_of_pos (Int.not_le.mp hneg)
        (Int.natCast_pos.mpr (Nat.two_pow_pos k))
      omega
    obtain rfl : z = scaled p j := by omega
    rw [← Int.natCast_mul, Int.ofNat_le, scaled_mul_pow hj] at h
    have hle := cut_scaled_le hp hj hlow he h (.inl rfl)
    omega
  · intro h
    have hlt := cut_scaled_lt hlow he h
    omega

theorem round_eq (hm : 0 < m) (hlow : -149 ≤ e) :
    ∃ m' e', -149 ≤ e' ∧ e' ≤ lastExponent m' e' ∧ scaled m' e' = scaled m e ∧
      ∀ s, UnpackedFloat.round Format.binary32 s m e =
        roundWithAccuracy Format.binary32 s m' e' .exact := by
  have hround (s : Sign) : UnpackedFloat.round Format.binary32 s m e =
      roundWithAccuracy Format.binary32 s (m <<< (e - lastExponent m e).toNat)
        (e - (e - lastExponent m e).toNat) .exact := by
    rw [UnpackedFloat.round, targetExponent_eq]
    rfl
  rcases Int.lt_or_le (lastExponent m e) e with hlt | hle
  · have hlast : -149 ≤ lastExponent m e := Int.le_max_right _ _
    have hexponent : e - (e - lastExponent m e).toNat = lastExponent m e := by omega
    refine ⟨m * 2 ^ (e - lastExponent m e).toNat, lastExponent m e, hlast, ?_, ?_, ?_⟩
    · -- Appended zeros and the smaller exponent leave the leading bit where it is.
      have hlog : m.log2 + (e - lastExponent m e).toNat ≤
          (m * 2 ^ (e - lastExponent m e).toNat).log2 := by
        rw [Nat.le_log2 (Nat.ne_of_gt (Nat.mul_pos hm (Nat.two_pow_pos _))), Nat.pow_add]
        exact Nat.mul_le_mul_right _ (Nat.log2_self_le (Nat.ne_of_gt hm))
      have hmax : lastExponent m e = m.log2 + e - 23 ∨ lastExponent m e = -149 := by
        rw [lastExponent]
        omega
      rw [lastExponent.eq_def (m * _)]
      omega
    · exact (scaled_eq_scaled hlast (Int.le_of_lt hlt)).symm
    · intro s
      rw [hround, hexponent, Nat.shiftLeft_eq]
  · have hzero : (e - lastExponent m e).toNat = 0 := by omega
    refine ⟨m, e, hlow, hle, rfl, fun s => ?_⟩
    rw [hround, hzero, Int.natCast_zero, Int.sub_zero]
    rfl

theorem rounds_round (s : Sign) (hm : 0 < m) (hlow : -149 ≤ e) :
    Rounds 1 (s.apply (scaled m e)) (unitsOf (UnpackedFloat.unpack Format.binary32
      (pack Format.binary32 (UnpackedFloat.round Format.binary32 s m e)))) := by
  obtain ⟨m', e', hlow', hlast, hscaled, hround⟩ := round_eq hm hlow
  rw [hround, ← hscaled]
  have hrounds := rounds_roundWithAccuracy (k := 0) s (by omega) hlast
  rwa [Nat.pow_zero, Int.natCast_zero, Int.add_zero] at hrounds

theorem rounds_self {a : UnpackedFloat} (ha : Canonical a) (hfinite : a.isFinite) :
    Rounds 1 (unitsOf a) (unitsOf a) where
  le _ h := by omega
  ge _ h := by omega
  bounded _ := by
    have hbounds := ha.bounds hfinite
    omega

theorem roundWithAccuracy_ne_nan (s : Sign) (m : Nat) (e : Int) (accuracy : Accuracy) :
    roundWithAccuracy Format.binary32 s m e accuracy ≠ .notANumber := by
  rw [roundWithAccuracy.eq_def]
  dsimp only
  split <;> exact nofun

theorem normalize_ne_nan (i e : Int) (s : Sign) :
    UnpackedFloat.normalize Format.binary32 i e s ≠ .notANumber := by
  rw [UnpackedFloat.normalize]
  split
  · exact roundWithAccuracy_ne_nan _ _ _ _
  · exact nofun
  · exact roundWithAccuracy_ne_nan _ _ _ _

theorem rounds_normalize {i : Int} (hlow : -149 ≤ e) :
    Rounds 1 (i * (2 ^ (e + 149).toNat : Nat)) (unitsOf (UnpackedFloat.unpack Format.binary32
      (pack Format.binary32 (UnpackedFloat.normalize Format.binary32 i e .positive)))) := by
  have hscaled (m : Nat) : (m : Int) * (2 ^ (e + 149).toNat : Nat) = scaled m e := by
    rw [scaled, Int.natCast_mul]
  rw [UnpackedFloat.normalize]
  rcases Int.lt_trichotomy i 0 with hneg | rfl | hpos
  · have hexact : i * (2 ^ (e + 149).toNat : Nat) = -(scaled (-i).toNat e) := by
      rw [← hscaled, Int.toNat_of_nonneg (by omega), Int.neg_mul, Int.neg_neg]
    rw [Int.compare_eq_lt.mpr hneg, hexact]
    exact rounds_round .negative (by omega) hlow
  · rw [Int.compare_eq_eq.mpr rfl, Int.zero_mul]
    dsimp only
    rw [Packed.unpack_pack_zero]
    exact rounds_self (a := .zero .positive) trivial rfl
  · have hexact : i * (2 ^ (e + 149).toNat : Nat) = scaled i.toNat e := by
      rw [← hscaled, Int.toNat_of_nonneg (by omega)]
    rw [Int.compare_eq_gt.mpr hpos, hexact]
    exact rounds_round .positive (by omega) hlow

end Terrarium.Single
