import Terrarium.Proofs.PackedBits

namespace Terrarium.Packed

open Float.Model (Format UnpackedFloat)
open Float.Model.UnpackedFloat

variable {f : Format}

def signed : Sign → ℚ → ℚ
  | .negative, q => -q
  | .positive, q => q

/-- The value an infinity has. -/
def limit (f : Format) : ℚ := 2 ^ f.mantissaBitsWithoutImplicit * 2 ^ beyond f

/-- The exact value of a number. -/
def value (f : Format) : UnpackedFloat → ℚ
  | .notANumber => 0
  | .infinity s => signed s (limit f)
  | .zero _ => 0
  | .finite s m e _ => signed s (m * 2 ^ e)

variable {m m' : Nat} {e e' : Int}

theorem limit_pos (f : Format) : 0 < limit f := by
  rw [limit]
  positivity

theorem scaled_pos (hm : 0 < m) (e : Int) : (0 : ℚ) < m * 2 ^ e := by
  have hcast : (0 : ℚ) < m := Nat.cast_pos.mpr hm
  positivity

theorem Normal.lt_full (h : Normal f m e) (he : e < e') :
    (m : ℚ) * 2 ^ e < 2 ^ f.mantissaBitsWithoutImplicit * 2 ^ e' := by
  have hm : (m : ℚ) < 2 ^ f.mantissaBits := by exact_mod_cast h.mantissa
  have htwo : (0 : ℚ) < 2 := by norm_num
  calc (m : ℚ) * 2 ^ e < 2 ^ f.mantissaBits * 2 ^ e := mul_lt_mul_of_pos_right hm (zpow_pos htwo e)
    _ = 2 ^ f.mantissaBitsWithoutImplicit * 2 ^ (e + 1) := by
        rw [Format.mantissaBits, zpow_add_one₀ (ne_of_gt htwo)]
        ring
    _ ≤ 2 ^ f.mantissaBitsWithoutImplicit * 2 ^ e' :=
        mul_le_mul_of_nonneg_left (zpow_le_zpow_right₀ (by norm_num) he) (by positivity)

theorem Normal.lt (h : Normal f m e) (h' : Normal f m' e') (he : e < e') :
    (m : ℚ) * 2 ^ e < m' * 2 ^ e' := by
  have hlow := h.exponent
  have hfull : 2 ^ f.mantissaBitsWithoutImplicit ≤ m' := h'.full.resolve_left (by omega)
  have hcast : (2 : ℚ) ^ f.mantissaBitsWithoutImplicit ≤ m' := by exact_mod_cast hfull
  exact (h.lt_full he).trans_le (mul_le_mul_of_nonneg_right hcast (by positivity))

theorem Normal.lt_full_iff (h : Normal f m e) (hj : f.minExponent < e') :
    (m : ℚ) * 2 ^ e < 2 ^ f.mantissaBitsWithoutImplicit * 2 ^ e' ↔ e < e' := by
  refine ⟨fun hlt => ?_, h.lt_full⟩
  by_contra hle
  have hfull : 2 ^ f.mantissaBitsWithoutImplicit ≤ m := h.full.resolve_left (by omega)
  have hcast : (2 : ℚ) ^ f.mantissaBitsWithoutImplicit ≤ m := by exact_mod_cast hfull
  have hexponent : (2 : ℚ) ^ e' ≤ 2 ^ e := zpow_le_zpow_right₀ (by norm_num) (Int.not_lt.mp hle)
  exact absurd hlt (not_lt.mpr (mul_le_mul hcast hexponent (by positivity) (by positivity)))

theorem Normal.compare_eq (h : Normal f m e) (h' : Normal f m' e') :
    (compare e e').then (compare m m') = compare ((m : ℚ) * 2 ^ e) (m' * 2 ^ e') := by
  rcases lt_trichotomy e e' with hlt | rfl | hgt
  · rw [compare_lt_iff_lt.mpr hlt, compare_lt_iff_lt.mpr (h.lt h' hlt)]
    rfl
  · have hpos : (0 : ℚ) < 2 ^ e := by positivity
    rw [compare_eq_iff_eq.mpr rfl]
    change compare m m' = _
    rcases lt_trichotomy m m' with hlt | rfl | hgt
    · have hcast : (m : ℚ) < m' := Nat.cast_lt.mpr hlt
      rw [compare_lt_iff_lt.mpr hlt, compare_lt_iff_lt.mpr (mul_lt_mul_of_pos_right hcast hpos)]
    · rw [compare_eq_iff_eq.mpr rfl, compare_eq_iff_eq.mpr rfl]
    · have hcast : (m' : ℚ) < m := Nat.cast_lt.mpr hgt
      rw [compare_gt_iff_gt.mpr hgt, compare_gt_iff_gt.mpr (mul_lt_mul_of_pos_right hcast hpos)]
  · rw [compare_gt_iff_gt.mpr hgt, compare_gt_iff_gt.mpr (h'.lt h hgt)]
    rfl

theorem compare_of_lt {q r : ℚ} (h : q < r) : some Ordering.lt = some (compare q r) := by
  rw [compare_lt_iff_lt.mpr h]

theorem compare_of_gt {q r : ℚ} (h : r < q) : some Ordering.gt = some (compare q r) := by
  rw [compare_gt_iff_gt.mpr h]

theorem compare_neg (q r : ℚ) : compare (-q) (-r) = (compare q r).swap := by
  rcases lt_trichotomy q r with hlt | rfl | hgt
  · rw [compare_lt_iff_lt.mpr hlt, compare_gt_iff_gt.mpr (neg_lt_neg hlt)]
    rfl
  · rw [compare_eq_iff_eq.mpr rfl, compare_eq_iff_eq.mpr rfl]
    rfl
  · rw [compare_gt_iff_gt.mpr hgt, compare_lt_iff_lt.mpr (neg_lt_neg hgt)]
    rfl

variable {a b : UnpackedFloat}

theorem Canonical.bounds (ha : Canonical f a) (hfinite : a.isFinite) :
    -limit f < value f a ∧ value f a < limit f := by
  have hlimit := limit_pos f
  cases a with
  | notANumber | infinity s => cases hfinite
  | zero s => exact ⟨neg_neg_of_pos hlimit, hlimit⟩
  | finite s m e hm =>
      have hlt : (m : ℚ) * 2 ^ e < limit f := ha.1.lt_full ha.2
      have hpos := scaled_pos hm e
      cases s <;> simp only [value, signed] <;> constructor <;> linarith

theorem Canonical.compare_eq (ha : Canonical f a) (hb : Canonical f b) (hna : a ≠ .notANumber)
    (hnb : b ≠ .notANumber) : a.compare b = some (compare (value f a) (value f b)) := by
  have hlimit := limit_pos f
  cases a with
  | notANumber => exact absurd rfl hna
  | infinity s =>
      cases b with
      | notANumber => exact absurd rfl hnb
      | infinity s' =>
          cases s <;> cases s'
          · rw [compare_eq_iff_eq.mpr rfl]
            rfl
          · exact compare_of_lt (by simp only [value, signed]; linarith)
          · exact compare_of_gt (by simp only [value, signed]; linarith)
          · rw [compare_eq_iff_eq.mpr rfl]
            rfl
      | zero s' | finite s' m' e' hm' =>
          have hbounds := hb.bounds rfl
          cases s
          · exact compare_of_lt hbounds.1
          · exact compare_of_gt hbounds.2
  | zero s =>
      cases b with
      | notANumber => exact absurd rfl hnb
      | infinity s' =>
          have hbounds := ha.bounds rfl
          cases s'
          · exact compare_of_gt hbounds.1
          · exact compare_of_lt hbounds.2
      | zero s' =>
          have hzero : compare (0 : ℚ) 0 = .eq := compare_eq_iff_eq.mpr rfl
          exact congrArg some hzero.symm
      | finite s' m' e' hm' =>
          have hpos := scaled_pos hm' e'
          cases s'
          · exact compare_of_gt (neg_neg_of_pos hpos)
          · exact compare_of_lt hpos
  | finite s m e hm =>
      have hpos := scaled_pos hm e
      cases b with
      | notANumber => exact absurd rfl hnb
      | infinity s' =>
          have hbounds := ha.bounds rfl
          cases s'
          · exact compare_of_gt hbounds.1
          · exact compare_of_lt hbounds.2
      | zero s' =>
          cases s
          · exact compare_of_lt (neg_neg_of_pos hpos)
          · exact compare_of_gt hpos
      | finite s' m' e' hm' =>
          have hpos' := scaled_pos hm' e'
          cases s <;> cases s'
          · simp only [UnpackedFloat.compare, value, signed, compare_neg, ha.1.compare_eq hb.1]
          · exact compare_of_lt (by simp only [value, signed]; linarith)
          · exact compare_of_gt (by simp only [value, signed]; linarith)
          · simp only [UnpackedFloat.compare, value, signed, ha.1.compare_eq hb.1]

theorem isNaN_iff : a.isNaN ↔ a = .notANumber := by
  cases a with
  | notANumber => exact iff_of_true rfl rfl
  | _ => exact iff_of_false Bool.false_ne_true nofun

theorem compare_nan_left (b : UnpackedFloat) : UnpackedFloat.compare .notANumber b = none := by
  cases b <;> rfl

theorem compare_nan_right (a : UnpackedFloat) : a.compare .notANumber = none := by
  cases a <;> rfl

/-- What is no number is in no order with anything. -/
theorem compare_eq_some_iff (ha : Canonical f a) (hb : Canonical f b) {o : Ordering} :
    a.compare b = some o ↔
      (a.isNaN = false ∧ b.isNaN = false) ∧ compare (value f a) (value f b) = o := by
  rw [← Bool.not_eq_true, ← Bool.not_eq_true, isNaN_iff, isNaN_iff]
  constructor
  · intro h
    have hna : a ≠ .notANumber := by
      rintro rfl
      rw [compare_nan_left] at h
      cases h
    have hnb : b ≠ .notANumber := by
      rintro rfl
      rw [compare_nan_right] at h
      cases h
    rw [ha.compare_eq hb hna hnb, Option.some.injEq] at h
    exact ⟨⟨hna, hnb⟩, h⟩
  · rintro ⟨⟨hna, hnb⟩, h⟩
    rw [ha.compare_eq hb hna hnb, h]

end Terrarium.Packed
