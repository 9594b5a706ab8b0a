import Terrarium.Proofs.PackedValues
import Terrarium.Proofs.SingleRounding

/-!
How far rounding can go up, in a format of any width. What is not negative stays so, and if the
exact result of an operation is no greater than some number of the format, then neither is the
rounded one.
-/
namespace Terrarium.Packed

open Float.Model (Format UnpackedFloat totalExponent)
open Float.Model.UnpackedFloat
open Single (cut roundWithAccuracy_eq_cut)

variable {f : Format} {m n : Nat} {e j : Int} {q r : ℚ} {a b : UnpackedFloat}

/-! ### Signs -/

/-- Numbers without a minus, and what is no number. -/
def Unsigned : UnpackedFloat → Prop
  | .notANumber => True
  | .infinity s | .zero s | .finite s _ _ _ => s = .positive

theorem Unsigned.value_nonneg (ha : Unsigned a) : 0 ≤ value f a := by
  cases a with
  | notANumber | zero s => exact le_refl 0
  | infinity s =>
      obtain rfl : s = .positive := ha
      exact (limit_pos f).le
  | finite s m e hm =>
      obtain rfl : s = .positive := ha
      exact (scaled_pos hm e).le

theorem unsigned_of_value_pos (ha : 0 < value f a) : Unsigned a := by
  cases a with
  | notANumber => trivial
  | zero s => exact absurd ha (lt_irrefl 0)
  | infinity s =>
      cases s with
      | negative => exact absurd ha (not_lt.mpr (neg_nonpos.mpr (limit_pos f).le))
      | positive => rfl
  | finite s m e hm =>
      cases s with
      | negative => exact absurd ha (not_lt.mpr (neg_nonpos.mpr (scaled_pos hm e).le))
      | positive => rfl

theorem unsigned_unpack {b : BitVec f.numBits} (h : Sign.ofBitVec (unpackSign b) = .positive) :
    Unsigned (UnpackedFloat.unpack f b) := by
  rw [unpack.eq_def]
  dsimp only
  split
  · split
    · exact h
    · trivial
  · split
    · split
      · exact h
      · exact h
    · exact h

theorem Unsigned.pack (ha : Unsigned a) : Unsigned (UnpackedFloat.unpack f (pack f a)) := by
  apply unsigned_unpack
  cases a with
  | notANumber => exact sign_packComponents _ _ _
  | infinity s | zero s => exact (sign_packComponents _ _ _).trans ha
  | finite s m e hm =>
      rw [pack.eq_def]
      dsimp only
      split
      · exact (sign_packComponents _ _ _).trans ha
      · split <;> exact (sign_packComponents _ _ _).trans ha

theorem unsigned_roundWithAccuracy (f : Format) (m : Nat) (e : Int) (accuracy : Accuracy) :
    Unsigned (roundWithAccuracy f .positive m e accuracy) := by
  rw [roundWithAccuracy.eq_def]
  dsimp only
  split <;> rfl

theorem Unsigned.mul (ha : Unsigned a) (hb : Unsigned b) : Unsigned (UnpackedFloat.mul f a b) := by
  cases a with
  | notANumber => trivial
  | infinity s | zero s =>
      obtain rfl : s = .positive := ha
      cases b with
      | notANumber => trivial
      | infinity s' | zero s' | finite s' m' e' hm' =>
          obtain rfl : s' = .positive := hb
          trivial
  | finite s m e hm =>
      obtain rfl : s = .positive := ha
      cases b with
      | notANumber => trivial
      | infinity s' | zero s' =>
          obtain rfl : s' = .positive := hb
          trivial
      | finite s' m' e' hm' =>
          obtain rfl : s' = .positive := hb
          exact unsigned_roundWithAccuracy _ _ _ _

/-! ### Rounding -/

/-- The mantissa has few enough bits and the exponent is not too small. -/
def Fits (f : Format) : UnpackedFloat → Prop
  | .finite _ m e _ => m < 2 ^ f.mantissaBits ∧ f.minExponent ≤ e
  | _ => True

theorem Canonical.fits (ha : Canonical f a) : Fits f a := by
  cases a with
  | finite s m e hm => exact ⟨ha.1.mantissa, ha.1.exponent⟩
  | _ => trivial

/-- A finite number without a minus that is no greater than `q`. -/
structure AtMost (f : Format) (q : ℚ) (a : UnpackedFloat) : Prop where
  unsigned : Unsigned a
  finite : a.isFinite
  le : value f a ≤ q

theorem AtMost.trans (ha : AtMost f q a) (hqr : q ≤ r) : AtMost f r a :=
  ⟨ha.unsigned, ha.finite, ha.le.trans hqr⟩

theorem AtMost.ne_nan (ha : AtMost f q a) : a ≠ .notANumber := by
  rintro rfl
  cases ha.finite

theorem Unsigned.atMost (ha : Unsigned a) (hnumber : a ≠ .notANumber) (hle : value f a ≤ q)
    (hq : q < limit f) : AtMost f q a := by
  refine ⟨ha, ?_, hle⟩
  cases a with
  | notANumber => exact absurd rfl hnumber
  | infinity s =>
      obtain rfl : s = .positive := ha
      exact absurd hq (not_lt.mpr hle)
  | zero s | finite s m e hm => rfl

theorem atMost_zero (hq : 0 ≤ q) : AtMost f q (.zero .positive) := ⟨rfl, rfl, hq⟩

theorem atMost_finite (hm : 0 < m) : AtMost f q (.finite .positive m e hm) ↔ (m : ℚ) * 2 ^ e ≤ q :=
  ⟨fun h => h.le, fun h => ⟨rfl, rfl, h⟩⟩

theorem fits_roundWithAccuracy (f : Format) (s : Sign) (m : Nat) (e : Int) (a : Accuracy) :
    Fits f (roundWithAccuracy f s m e a) := by
  have hlow : f.minExponent ≤ f.targetExponent (totalExponent m e) := Int.le_max_right _ _
  have hbits (n : Nat) (t : Int) : n.log2 + 1 ≤
      f.mantissaBits + (f.targetExponent (totalExponent n t) - t).toNat := by
    rw [targetExponent_eq, Format.mantissaBits]
    omega
  rw [roundWithAccuracy_eq_cut f s rfl rfl rfl rfl]
  split
  · trivial
  · refine ⟨?_, by omega⟩
    rw [Nat.div_lt_iff_lt_mul (Nat.two_pow_pos _), ← Nat.pow_add]
    exact Nat.lt_log2_self.trans_le (Nat.pow_le_pow_right (by decide) (hbits _ _))

theorem two_zpow_pos (e : Int) : (0 : ℚ) < 2 ^ e := zpow_pos (by norm_num) e

theorem mul_two_zpow_sub (q : ℚ) {t : Int} (h : t ≤ e) :
    q * 2 ^ e = q * 2 ^ (e - t).toNat * 2 ^ t := by
  have hexponent : e = ((e - t).toNat : Int) + t := by omega
  conv_lhs => rw [hexponent, zpow_add₀ (by norm_num), zpow_natCast, ← mul_assoc]

theorem two_zpow_log2_le (hm : 0 < m) (e : Int) : (2 : ℚ) ^ (m.log2 + e) ≤ m * 2 ^ e := by
  have hcast : (2 : ℚ) ^ m.log2 ≤ m := by exact_mod_cast Nat.log2_self_le (Nat.ne_of_gt hm)
  rw [zpow_add₀ (by norm_num), zpow_natCast]
  exact mul_le_mul_of_nonneg_right hcast (two_zpow_pos e).le

theorem lt_two_zpow_log2 (m : Nat) (e : Int) : (m : ℚ) * 2 ^ e < 2 ^ (m.log2 + 1 + e) := by
  have hcast : (m : ℚ) < 2 ^ (m.log2 + 1) := by exact_mod_cast Nat.lt_log2_self
  have hexponent : (m.log2 : Int) + 1 + e = ((m.log2 + 1 : Nat) : Int) + e := by omega
  rw [hexponent, zpow_add₀ (by norm_num), zpow_natCast]
  exact mul_lt_mul_of_pos_right hcast (two_zpow_pos e)

theorem targetExponent_le (hm : 0 < m) (hn : n < 2 ^ f.mantissaBits) (hj : f.minExponent ≤ j)
    (h : (m : ℚ) * 2 ^ e ≤ n * 2 ^ j) : f.targetExponent (totalExponent m e) ≤ j := by
  have hcast : (n : ℚ) < 2 ^ f.mantissaBits := by exact_mod_cast hn
  have hlt : (2 : ℚ) ^ (m.log2 + e) < 2 ^ ((f.mantissaBits : Int) + j) := by
    rw [zpow_add₀ (by norm_num) (f.mantissaBits : Int), zpow_natCast]
    exact ((two_zpow_log2_le hm e).trans h).trans_lt
      (mul_lt_mul_of_pos_right hcast (two_zpow_pos j))
  have hexponent := (zpow_lt_zpow_iff_right₀ (by norm_num)).mp hlt
  rw [targetExponent_eq]
  rw [Format.mantissaBits] at hexponent
  omega

theorem cut_mul_le {t : Int} {accuracy : Accuracy} (het : e ≤ t) (htj : t ≤ j)
    (h : (m : ℚ) * 2 ^ e ≤ n * 2 ^ j) (hlost : accuracy = .exact ∨ (m : ℚ) * 2 ^ e < n * 2 ^ j) :
    (cut accuracy m (t - e).toNat : ℚ) * 2 ^ t ≤ n * 2 ^ j := by
  have hshift : (n : ℚ) * 2 ^ j = (n * 2 ^ (j - t).toNat * 2 ^ (t - e).toNat : Nat) * 2 ^ e := by
    push_cast
    rw [mul_two_zpow_sub n htj, mul_two_zpow_sub _ het]
  have hcut : cut accuracy m (t - e).toNat ≤ n * 2 ^ (j - t).toNat := by
    rw [hshift] at h hlost
    rcases hlost with rfl | hlost
    · exact Single.cut_le (Nat.cast_le.mp (le_of_mul_le_mul_right h (two_zpow_pos e)))
    · exact Single.cut_le_of_lt (Nat.cast_lt.mp (lt_of_mul_lt_mul_right hlost (two_zpow_pos e).le))
  rw [mul_two_zpow_sub _ htj]
  exact mul_le_mul_of_nonneg_right (by exact_mod_cast hcut) (two_zpow_pos t).le

/-- A rounded number is no greater than a number above the exact one. Where bits were lost before,
the exponent has to leave room for the next number. -/
theorem atMost_roundWithAccuracy {accuracy : Accuracy} (hn : n < 2 ^ f.mantissaBits)
    (hj : f.minExponent ≤ j) (h : (m : ℚ) * 2 ^ e ≤ n * 2 ^ j)
    (hlost : accuracy = .exact ∨ e ≤ j ∧ (m : ℚ) * 2 ^ e < n * 2 ^ j) :
    AtMost f (n * 2 ^ j) (roundWithAccuracy f .positive m e accuracy) := by
  have hpos : (0 : ℚ) ≤ n * 2 ^ j := mul_nonneg (Nat.cast_nonneg n) (two_zpow_pos j).le
  generalize ht : max e (f.targetExponent (totalExponent m e)) = t
  have hk : (f.targetExponent (totalExponent m e) - e).toNat = (t - e).toNat := by omega
  have hexponent : e + (t - e).toNat = t := by omega
  have hcut : (cut accuracy m (t - e).toNat : ℚ) * 2 ^ t ≤ n * 2 ^ j := by
    rcases Int.lt_or_le j t with hlt | hle
    · -- No bit is cut off, since a number above has a smaller exponent.
      have hsame : (t - e).toNat = 0 := by
        rcases Nat.eq_zero_or_pos m with rfl | hm
        · rw [targetExponent_eq, Nat.log2_zero] at ht
          omega
        · have := targetExponent_le hm hn hj h
          omega
      have hte : t = e := by omega
      obtain rfl : accuracy = .exact := hlost.resolve_right fun hroom => by omega
      rw [hsame, hte]
      exact h
    · exact cut_mul_le (by omega) hle h (hlost.imp_right (·.2))
  generalize hm' : cut accuracy m (t - e).toNat = m' at hcut
  generalize hcarry : (f.targetExponent (totalExponent m' t) - t).toNat = carry
  rw [roundWithAccuracy_eq_cut f .positive hk hm' hexponent hcarry]
  split
  · exact atMost_zero hpos
  · rw [atMost_finite]
    have hfloor : ((m' / 2 ^ carry * 2 ^ carry : Nat) : ℚ) ≤ m' := by
      exact_mod_cast Nat.div_mul_le_self m' (2 ^ carry)
    have hshift : (t + carry - t : Int).toNat = carry := by omega
    rw [mul_two_zpow_sub (t := t) _ (by omega), hshift]
    push_cast at hfloor
    exact (mul_le_mul_of_nonneg_right hfloor (two_zpow_pos t).le).trans hcut

theorem atMost_round (hn : n < 2 ^ f.mantissaBits) (hj : f.minExponent ≤ j)
    (h : (m : ℚ) * 2 ^ e ≤ n * 2 ^ j) :
    AtMost f (n * 2 ^ j) (UnpackedFloat.round f .positive m e) := by
  rw [UnpackedFloat.round, decreaseExponent]
  dsimp only
  generalize (e - f.targetExponent (totalExponent m e)).toNat = k
  apply atMost_roundWithAccuracy hn hj _ (.inl rfl)
  have hshift : (e - (e - k) : Int).toNat = k := by omega
  rw [mul_two_zpow_sub (t := e - k) _ (by omega), hshift] at h
  rw [Nat.shiftLeft_eq]
  exact_mod_cast h

theorem fits_round (f : Format) (s : Sign) (m : Nat) (e : Int) :
    Fits f (UnpackedFloat.round f s m e) := fits_roundWithAccuracy _ _ _ _ _

/-! ### Packing -/

theorem AtMost.pack (ha : AtMost f q a) (hfits : Fits f a) (hq : q < 2 ^ beyond f) :
    AtMost f q (UnpackedFloat.unpack f (pack f a)) := by
  cases a with
  | notANumber | infinity s => cases ha.finite
  | zero s =>
      obtain rfl : s = .positive := ha.unsigned
      rw [unpack_pack_zero]
      exact ha
  | finite s m e hm =>
      obtain rfl : s = .positive := ha.unsigned
      obtain ⟨hmantissa, hlow⟩ := hfits
      have hbeyond : e < beyond f := by
        have hone : (1 : ℚ) ≤ m := Nat.one_le_cast.mpr hm
        have hpow : (2 : ℚ) ^ e < 2 ^ beyond f :=
          (le_mul_of_one_le_left (two_zpow_pos e).le hone).trans_lt (ha.le.trans_lt hq)
        exact (zpow_lt_zpow_iff_right₀ (by norm_num)).mp hpow
      rcases Nat.lt_or_ge m (2 ^ f.mantissaBitsWithoutImplicit) with hm' | hm'
      · rw [unpack_pack_of_lt hm' hlow hbeyond, atMost_finite]
        have hsmaller := zpow_le_zpow_right₀ (a := (2 : ℚ)) (by norm_num) hlow
        exact (mul_le_mul_of_nonneg_left hsmaller (Nat.cast_nonneg m)).trans ha.le
      · rw [unpack_pack_of_le hm' hmantissa hlow hbeyond]
        exact ha

/-! ### Sums, products and quotients -/

theorem normalize_pos (hm : 0 < m) (e : Int) (s : Sign) :
    UnpackedFloat.normalize f m e s = UnpackedFloat.round f .positive m e := by
  have hcompare : compare (m : Int) 0 = .gt := Int.compare_eq_gt.mpr (Int.natCast_pos.mpr hm)
  rw [UnpackedFloat.normalize, hcompare, Int.toNat_natCast]

theorem AtMost.add (ha : AtMost f q a) (hb : AtMost f r b) (hfa : Fits f a) (hfb : Fits f b)
    (hn : n < 2 ^ f.mantissaBits) (hj : f.minExponent ≤ j) (h : q + r ≤ n * 2 ^ j) :
    AtMost f (n * 2 ^ j) (UnpackedFloat.add f a b) ∧ Fits f (UnpackedFloat.add f a b) := by
  have hvalue := (add_le_add ha.le hb.le).trans h
  cases a with
  | notANumber | infinity s => cases ha.finite
  | zero s =>
      obtain rfl : s = .positive := ha.unsigned
      change 0 + value f b ≤ _ at hvalue
      rw [zero_add] at hvalue
      cases b with
      | notANumber | infinity s' => cases hb.finite
      | zero s' =>
          obtain rfl : s' = .positive := hb.unsigned
          exact ⟨⟨rfl, rfl, hvalue⟩, trivial⟩
      | finite s' m' e' hm' => exact ⟨⟨hb.unsigned, rfl, hvalue⟩, hfb⟩
  | finite s m e hm =>
      obtain rfl : s = .positive := ha.unsigned
      cases b with
      | notANumber | infinity s' => cases hb.finite
      | zero s' =>
          change value f (.finite .positive m e hm) + 0 ≤ _ at hvalue
          rw [add_zero] at hvalue
          exact ⟨⟨rfl, rfl, hvalue⟩, hfa⟩
      | finite s' m' e' hm' =>
          obtain rfl : s' = .positive := hb.unsigned
          have hsum : UnpackedFloat.add f (.finite .positive m e hm) (.finite .positive m' e' hm') =
              UnpackedFloat.normalize f ((m * 2 ^ (e - min e e').toNat +
                m' * 2 ^ (e' - min e e').toNat : Nat) : Int) (min e e') .positive := by
            rw [Int.natCast_add, ← Nat.shiftLeft_eq, ← Nat.shiftLeft_eq]
            rfl
          have hpos : 0 < m * 2 ^ (e - min e e').toNat + m' * 2 ^ (e' - min e e').toNat :=
            Nat.add_pos_left (Nat.mul_pos hm (Nat.two_pow_pos _)) _
          rw [hsum, normalize_pos hpos]
          refine ⟨atMost_round hn hj ?_, fits_round _ _ _ _⟩
          change (m : ℚ) * 2 ^ e + m' * 2 ^ e' ≤ _ at hvalue
          rw [mul_two_zpow_sub _ (min_le_left e e'), mul_two_zpow_sub _ (min_le_right e e'),
            ← add_mul] at hvalue
          exact_mod_cast hvalue

theorem AtMost.mul (ha : AtMost f q a) (hb : AtMost f r b) (hn : n < 2 ^ f.mantissaBits)
    (hj : f.minExponent ≤ j) (h : q * r ≤ n * 2 ^ j) :
    AtMost f (n * 2 ^ j) (UnpackedFloat.mul f a b) ∧ Fits f (UnpackedFloat.mul f a b) := by
  have hpos : (0 : ℚ) ≤ n * 2 ^ j := mul_nonneg (Nat.cast_nonneg n) (two_zpow_pos j).le
  cases a with
  | notANumber | infinity s => cases ha.finite
  | zero s =>
      obtain rfl : s = .positive := ha.unsigned
      cases b with
      | notANumber | infinity s' => cases hb.finite
      | zero s' | finite s' m' e' hm' =>
          obtain rfl : s' = .positive := hb.unsigned
          exact ⟨atMost_zero hpos, trivial⟩
  | finite s m e hm =>
      obtain rfl : s = .positive := ha.unsigned
      cases b with
      | notANumber | infinity s' => cases hb.finite
      | zero s' =>
          obtain rfl : s' = .positive := hb.unsigned
          exact ⟨atMost_zero hpos, trivial⟩
      | finite s' m' e' hm' =>
          obtain rfl : s' = .positive := hb.unsigned
          have hle : (m : ℚ) * 2 ^ e * (m' * 2 ^ e') ≤ n * 2 ^ j :=
            (mul_le_mul ha.le hb.le (scaled_pos hm' e').le
              ((scaled_pos hm e).le.trans ha.le)).trans h
          have hexact : ((m * m' : Nat) : ℚ) * 2 ^ (e + e') = m * 2 ^ e * (m' * 2 ^ e') := by
            rw [zpow_add₀ (by norm_num)]
            push_cast
            ring
          refine ⟨?_, fits_roundWithAccuracy _ _ _ _ _⟩
          exact atMost_roundWithAccuracy hn hj (hexact.trans_le hle) (.inl rfl)

theorem AtMost.infinity_mul (hb : AtMost f q b) :
    UnpackedFloat.mul f (.infinity .positive) b = .notANumber ∨
      UnpackedFloat.mul f (.infinity .positive) b = .infinity .positive := by
  cases b with
  | notANumber | infinity s => cases hb.finite
  | zero s => exact .inl rfl
  | finite s m e hm =>
      obtain rfl : s = .positive := hb.unsigned
      exact .inr rfl

theorem divCore_le {m' : Nat} {e' : Int} (hm : 0 < m) (hm' : 0 < m') (hn : n < 2 ^ f.mantissaBits)
    (hj : f.minExponent ≤ j) (h : (m : ℚ) * 2 ^ e ≤ n * 2 ^ j * (m' * 2 ^ e')) :
    let core := divCore f m e m' e'
    (core.1 : ℚ) * 2 ^ core.2.1 ≤ n * 2 ^ j ∧
      (core.2.2 = .exact ∨ core.2.1 ≤ j ∧ (core.1 : ℚ) * 2 ^ core.2.1 < n * 2 ^ j) := by
  have hpos' : (0 : ℚ) < m' := Nat.cast_pos.mpr hm'
  have hexponent : f.targetExponent (totalExponent m e - totalExponent m' e') ≤ j := by
    have hcast : (n : ℚ) ≤ 2 ^ (f.mantissaBits : Int) := by
      rw [zpow_natCast]
      exact_mod_cast Nat.le_of_lt hn
    have hlt : (2 : ℚ) ^ (m.log2 + e) < 2 ^ ((f.mantissaBits : Int) + j + (m'.log2 + 1 + e')) := by
      calc (2 : ℚ) ^ (m.log2 + e) ≤ m * 2 ^ e := two_zpow_log2_le hm e
        _ ≤ n * 2 ^ j * (m' * 2 ^ e') := h
        _ ≤ 2 ^ (f.mantissaBits : Int) * 2 ^ j * (m' * 2 ^ e') := by gcongr
        _ < 2 ^ (f.mantissaBits : Int) * 2 ^ j * 2 ^ (m'.log2 + 1 + e') := by
            gcongr
            exact lt_two_zpow_log2 m' e'
        _ = _ := by rw [← zpow_add₀ (by norm_num), ← zpow_add₀ (by norm_num)]
    have := (zpow_lt_zpow_iff_right₀ (by norm_num)).mp hlt
    rw [targetExponent_sub]
    omega
  rw [divCore]
  dsimp only
  generalize ht : min (e - e') (f.targetExponent (totalExponent m e - totalExponent m' e')) = t
  have htj : t ≤ j := by omega
  have hte : t ≤ e - e' := by omega
  rw [Nat.shiftLeft_eq]
  generalize hN : m * 2 ^ (e - e' - t).toNat = N
  have hdiv := Nat.div_add_mod' N m'
  have hexact : (N : ℚ) * 2 ^ t ≤ n * 2 ^ j * m' := by
    have hshift : (m : ℚ) * 2 ^ e = N * 2 ^ t * 2 ^ e' := by
      have hsum : e = e - e' + e' := by omega
      rw [← hN, hsum, zpow_add₀ (by norm_num), ← mul_assoc, mul_two_zpow_sub _ hte, ← hsum]
      push_cast
      rfl
    rw [hshift, ← mul_assoc] at h
    exact le_of_mul_le_mul_right h (two_zpow_pos e')
  have hscale (q : Nat) : ((q * m' : Nat) : ℚ) * 2 ^ t = q * 2 ^ t * m' := by
    push_cast
    ring
  constructor
  · have hle : ((N / m' * m' : Nat) : ℚ) ≤ N := by exact_mod_cast Nat.div_mul_le_self N m'
    apply le_of_mul_le_mul_right _ hpos'
    rw [← hscale]
    exact (mul_le_mul_of_nonneg_right hle (two_zpow_pos t).le).trans hexact
  · rcases Nat.eq_zero_or_pos (N % m') with hzero | hrest
    · exact .inl (if_pos hzero)
    · have hlt : ((N / m' * m' : Nat) : ℚ) < N := by
        exact_mod_cast (show N / m' * m' < N by omega)
      refine .inr ⟨htj, lt_of_mul_lt_mul_right ?_ hpos'.le⟩
      rw [← hscale]
      exact (mul_lt_mul_of_pos_right hlt (two_zpow_pos t)).trans_le hexact

theorem AtMost.div {m' : Nat} {e' : Int} {hm' : 0 < m'} (ha : AtMost f q a)
    (hn : n < 2 ^ f.mantissaBits) (hj : f.minExponent ≤ j)
    (h : q ≤ n * 2 ^ j * (m' * 2 ^ e')) :
    AtMost f (n * 2 ^ j) (UnpackedFloat.div f a (.finite .positive m' e' hm')) ∧
      Fits f (UnpackedFloat.div f a (.finite .positive m' e' hm')) := by
  have hpos : (0 : ℚ) ≤ n * 2 ^ j := mul_nonneg (Nat.cast_nonneg n) (two_zpow_pos j).le
  cases a with
  | notANumber | infinity s => cases ha.finite
  | zero s =>
      obtain rfl : s = .positive := ha.unsigned
      exact ⟨atMost_zero hpos, trivial⟩
  | finite s m e hm =>
      obtain rfl : s = .positive := ha.unsigned
      obtain ⟨hle, hlost⟩ := divCore_le hm hm' hn hj (ha.le.trans h)
      exact ⟨atMost_roundWithAccuracy hn hj hle hlost, fits_roundWithAccuracy _ _ _ _ _⟩

end Terrarium.Packed
