import Terrarium.Number.Single
import Terrarium.Proofs.PackedValues

/-!
The order of single-precision numbers. Every number is a whole multiple of the least positive one,
and of two numbers the one with the greater multiple is the greater. An infinity stands where the
next larger exponent would begin. What is no number is in no order with anything.
-/
namespace Terrarium.Single

open Float.Model (Format UnpackedFloat)
open Float.Model.UnpackedFloat

/-- A mantissa with its exponent, as a multiple of the least positive number. -/
def scaled (m : Nat) (e : Int) : Nat := m * 2 ^ (e + 149).toNat

/-- The multiple that stands for an infinity. -/
def limit : Nat := scaled (2 ^ 23) 105

def unitsOf : UnpackedFloat → Int
  | .notANumber => 0
  | .infinity s => s.apply limit
  | .zero _ => 0
  | .finite s m e _ => s.apply (scaled m e)

/-- How many times the least positive number makes a number. -/
def units (x : Float32) : Int := unitsOf x.toModel.unpack

/-- The mantissas and exponents of the format. -/
abbrev Normal (m : Nat) (e : Int) : Prop := Packed.Normal Format.binary32 m e

/-- What the bits of a number can say. -/
abbrev Canonical (a : UnpackedFloat) : Prop := Packed.Canonical Format.binary32 a

theorem Normal.mantissa_lt {m : Nat} {e : Int} (h : Normal m e) : m < 2 ^ 24 := h.mantissa

theorem Normal.le_exponent {m : Nat} {e : Int} (h : Normal m e) : -149 ≤ e := h.exponent

theorem Normal.least_or_full {m : Nat} {e : Int} (h : Normal m e) : e = -149 ∨ 2 ^ 23 ≤ m := h.full

theorem Canonical.normal {s : Sign} {m : Nat} {e : Int} {hm : 0 < m}
    (h : Canonical (.finite s m e hm)) : Normal m e := h.1

theorem Canonical.exponent_le {s : Sign} {m : Nat} {e : Int} {hm : 0 < m}
    (h : Canonical (.finite s m e hm)) : e ≤ 104 := Int.lt_add_one_iff.mp h.2

theorem normal_limit : Normal (2 ^ 23) 105 := ⟨by decide, by decide, .inr (Nat.le_refl _)⟩

variable {m m' : Nat} {e e' : Int}

theorem scaled_pos (hm : 0 < m) : 0 < scaled m e := Nat.mul_pos hm (Nat.two_pow_pos _)

theorem limit_pos : 0 < limit := scaled_pos (by decide)

theorem scaled_le_scaled : scaled m e ≤ scaled m' e ↔ m ≤ m' :=
  Nat.mul_le_mul_right_iff (Nat.two_pow_pos _)

theorem scaled_eq_scaled (he : -149 ≤ e) (hle : e ≤ e') :
    scaled m e' = scaled (m * 2 ^ (e' - e).toNat) e := by
  have hshift : (e' + 149).toNat = (e' - e).toNat + (e + 149).toNat := by omega
  rw [scaled, scaled, hshift, Nat.pow_add, Nat.mul_assoc]

theorem scaled_lt_full (hm : m < 2 ^ 24) (he : -149 ≤ e) (hlt : e < e') :
    scaled m e < scaled (2 ^ 23) e' := by
  have hshift : (e + 149).toNat + 1 ≤ (e' + 149).toNat := by omega
  calc m * 2 ^ (e + 149).toNat < 2 ^ 24 * 2 ^ (e + 149).toNat :=
        Nat.mul_lt_mul_of_pos_right hm (Nat.two_pow_pos _)
    _ = 2 ^ 23 * 2 ^ ((e + 149).toNat + 1) := by ring
    _ ≤ 2 ^ 23 * 2 ^ (e' + 149).toNat :=
        Nat.mul_le_mul_left _ (Nat.pow_le_pow_right (by decide) hshift)

theorem Normal.scaled_lt (h : Normal m e) (h' : Normal m' e') (he : e < e') :
    scaled m e < scaled m' e' := by
  have hlow := h.le_exponent
  have hfull : 2 ^ 23 ≤ m' := h'.least_or_full.resolve_left (by omega)
  exact (scaled_lt_full h.mantissa_lt hlow he).trans_le (scaled_le_scaled.mpr hfull)

theorem Normal.scaled_lt_limit (h : Normal m e) (he : e ≤ 104) : scaled m e < limit :=
  h.scaled_lt normal_limit (Int.lt_add_one_iff.mpr he)

theorem mul_two_zpow_eq (he : -149 ≤ e) : (m : ℚ) * 2 ^ e = scaled m e * 2 ^ (-149 : Int) := by
  have hexponent : e = ((e + 149).toNat : Int) + -149 := by omega
  rw [scaled]
  push_cast
  conv_lhs => rw [hexponent, zpow_add₀ (by norm_num), zpow_natCast, ← mul_assoc]

theorem limit_eq : Packed.limit Format.binary32 = (limit : Int) * 2 ^ (-149 : Int) := by
  have hbits : Format.binary32.mantissaBitsWithoutImplicit = 23 := rfl
  have hexponent : Packed.beyond Format.binary32 = 105 := rfl
  rw [Packed.limit, hbits, hexponent, Int.cast_natCast, limit, ← mul_two_zpow_eq (by decide)]
  norm_num

theorem value_eq {a : UnpackedFloat} (ha : Canonical a) :
    Packed.value Format.binary32 a = unitsOf a * 2 ^ (-149 : Int) := by
  have hsigned (s : Sign) (n : Nat) (q : ℚ) : Packed.signed s (n * q) = s.apply (n : Int) * q := by
    cases s <;> simp [Packed.signed, Sign.apply]
  cases a with
  | notANumber | zero s => simp [Packed.value, unitsOf]
  | infinity s =>
      rw [Packed.value, limit_eq, Int.cast_natCast, hsigned]
      rfl
  | finite s m e hm => rw [Packed.value, mul_two_zpow_eq ha.normal.le_exponent, hsigned, unitsOf]

theorem compare_units (i j : Int) :
    compare ((i : ℚ) * 2 ^ (-149 : Int)) (j * 2 ^ (-149 : Int)) = compare i j := by
  have hpos : (0 : ℚ) < 2 ^ (-149 : Int) := by positivity
  rcases Int.lt_trichotomy i j with hlt | rfl | hgt
  · have hcast := mul_lt_mul_of_pos_right (Int.cast_lt.mpr hlt) hpos
    rw [Int.compare_eq_lt.mpr hlt, compare_lt_iff_lt.mpr hcast]
  · rw [Int.compare_eq_eq.mpr rfl, compare_eq_iff_eq.mpr rfl]
  · have hcast := mul_lt_mul_of_pos_right (Int.cast_lt.mpr hgt) hpos
    rw [Int.compare_eq_gt.mpr hgt, compare_gt_iff_gt.mpr hcast]

theorem Canonical.bounds {a : UnpackedFloat} (ha : Canonical a) (hfinite : a.isFinite) :
    -(limit : Int) < unitsOf a ∧ unitsOf a < limit := by
  have hpos : (0 : ℚ) < 2 ^ (-149 : Int) := by positivity
  obtain ⟨hlow, hhigh⟩ := Packed.Canonical.bounds ha hfinite
  rw [value_eq ha, limit_eq, ← neg_mul] at hlow
  rw [value_eq ha, limit_eq] at hhigh
  exact ⟨by exact_mod_cast lt_of_mul_lt_mul_right hlow hpos.le,
    by exact_mod_cast lt_of_mul_lt_mul_right hhigh hpos.le⟩

variable {x y z low high : Float32}

theorem unpack_eq_nan : x.isNaN ↔ x.toModel.unpack = .notANumber := Packed.isNaN_iff

theorem isNaN_eq_false : x.isNaN = false ↔ x.toModel.unpack ≠ .notANumber := by
  rw [← Bool.not_eq_true, unpack_eq_nan]

theorem canonical (x : Float32) : Canonical x.toModel.unpack :=
  Packed.canonical_unpack (by decide) _

theorem compare_eq_some_iff {o : Ordering} :
    x.toModel.unpack.compare y.toModel.unpack = some o ↔
      (x.isNaN = false ∧ y.isNaN = false) ∧ compare (units x) (units y) = o := by
  rw [Packed.compare_eq_some_iff (canonical x) (canonical y), value_eq (canonical x),
    value_eq (canonical y), compare_units]
  rfl

theorem lt_iff : x < y ↔ (x.isNaN = false ∧ y.isNaN = false) ∧ units x < units y := by
  have hcompare : x < y ↔ x.toModel.unpack.compare y.toModel.unpack = some .lt := by
    change decide (x.toModel < y.toModel) = true ↔ _
    rw [decide_eq_true_iff]
    exact beq_iff_eq
  rw [hcompare, compare_eq_some_iff, Int.compare_eq_lt]

theorem le_iff : x ≤ y ↔ (x.isNaN = false ∧ y.isNaN = false) ∧ units x ≤ units y := by
  have hcompare : x ≤ y ↔ ∃ o, x.toModel.unpack.compare y.toModel.unpack = some o ∧ o.isLE := by
    change decide (x.toModel ≤ y.toModel) = true ↔ _
    rw [decide_eq_true_iff]
    exact Option.any_eq_true _ _
  simp only [hcompare, compare_eq_some_iff, and_assoc, exists_and_left, exists_eq_left',
    Int.isLE_compare]

theorem beq_iff : x == y ↔ (x.isNaN = false ∧ y.isNaN = false) ∧ units x = units y := by
  have hcompare : x == y ↔ x.toModel.unpack.compare y.toModel.unpack = some .eq := by
    change (x.toModel.unpack.compare y.toModel.unpack == some .eq) = true ↔ _
    exact beq_iff_eq
  rw [hcompare, compare_eq_some_iff, Int.compare_eq_eq]

/-- What is greater than every finite number. -/
def inf : Float32 := 1 / 0

@[simp] theorem units_inf : units inf = limit := rfl

@[simp] theorem units_zero : units 0 = 0 := rfl

theorem lt_inf_cases (h : x < inf) :
    x.toModel.unpack = .infinity .negative ∨ x.toModel.unpack.isFinite := by
  rw [lt_iff, isNaN_eq_false, units_inf, units] at h
  cases hx : x.toModel.unpack with
  | notANumber => exact absurd hx h.1.1
  | infinity s =>
      cases s with
      | negative => exact .inl rfl
      | positive =>
          rw [hx] at h
          exact absurd h.2 (Int.lt_irrefl _)
  | zero s | finite s m e hm => exact .inr rfl

theorem nonneg_cases (h : 0 ≤ x) :
    x.toModel.unpack = .infinity .positive ∨ x.toModel.unpack.isFinite := by
  have hlimit := limit_pos
  rw [le_iff, isNaN_eq_false, isNaN_eq_false, units_zero, units] at h
  cases hx : x.toModel.unpack with
  | notANumber => exact absurd hx h.1.2
  | infinity s =>
      cases s with
      | negative =>
          have hneg : unitsOf (.infinity .negative) = -(limit : Int) := rfl
          rw [hx, hneg] at h
          omega
      | positive => exact .inl rfl
  | zero s | finite s m e hm => exact .inr rfl

theorem not_nan_left (h : x < y) : ¬x.isNaN := Bool.eq_false_iff.mp (lt_iff.mp h).1.1

theorem not_nan_right (h : x < y) : ¬y.isNaN := Bool.eq_false_iff.mp (lt_iff.mp h).1.2

theorem not_lt (hx : x.isNaN = false) (hy : y.isNaN = false) : ¬x < y ↔ y ≤ x := by
  rw [lt_iff, le_iff, and_iff_right ⟨hx, hy⟩, and_iff_right ⟨hy, hx⟩, Int.not_lt]

theorem not_le (hx : x.isNaN = false) (hy : y.isNaN = false) : ¬x ≤ y ↔ y < x := by
  rw [lt_iff, le_iff, and_iff_right ⟨hx, hy⟩, and_iff_right ⟨hy, hx⟩, Int.not_le]

theorem le_refl (hx : x.isNaN = false) : x ≤ x := le_iff.mpr ⟨⟨hx, hx⟩, Int.le_refl _⟩

theorem le_trans (hxy : x ≤ y) (hyz : y ≤ z) : x ≤ z := by
  rw [le_iff] at hxy hyz ⊢
  exact ⟨⟨hxy.1.1, hyz.1.2⟩, Int.le_trans hxy.2 hyz.2⟩

theorem le_of_lt (h : x < y) : x ≤ y := by
  rw [lt_iff] at h
  exact le_iff.mpr ⟨h.1, Int.le_of_lt h.2⟩

theorem number_of_le_left (h : x ≤ y) : x.isNaN = false := (le_iff.mp h).1.1

theorem number_of_le_right (h : x ≤ y) : y.isNaN = false := (le_iff.mp h).1.2

theorem clamp_mem (hbounds : low ≤ high) (hx : x.isNaN = false) :
    low ≤ clamp x low high ∧ clamp x low high ≤ high := by
  have hlow := number_of_le_left hbounds
  have hhigh := number_of_le_right hbounds
  rw [clamp]
  split
  · exact ⟨le_refl hlow, hbounds⟩
  · rename_i hx_low
    rw [not_lt hx hlow] at hx_low
    split
    · exact ⟨hbounds, le_refl hhigh⟩
    · rename_i hx_high
      rw [not_lt hhigh hx] at hx_high
      exact ⟨hx_low, hx_high⟩

theorem clamp_nan (hx : x.isNaN) : clamp x low high = x := by
  have hlow : ¬x < low := fun h => not_nan_left h hx
  have hhigh : ¬high < x := fun h => not_nan_right h hx
  rw [clamp, if_neg hlow, if_neg hhigh]

theorem smaller_cases (hx : ¬x ≤ 0) (hy : ¬y ≤ 0) :
    0 ≤ smaller x y ∨ (smaller x y).isNaN ∧ x.isNaN ∧ y.isNaN := by
  have hzero : (0 : Float32).isNaN = false := rfl
  have hpos {z : Float32} (hz : ¬z ≤ 0) (hnumber : z.isNaN = false) : 0 ≤ z :=
    le_of_lt ((not_le hnumber hzero).mp hz)
  rw [smaller]
  split
  · rename_i h
    rw [Bool.or_eq_true, decide_eq_true_eq] at h
    rcases Bool.eq_false_or_eq_true y.isNaN with hnan | hnumber
    · right
      rcases h with h | h
      · exact ⟨hnan, h, hnan⟩
      · exact absurd hnan (not_nan_left h)
    · exact .inl (hpos hy hnumber)
  · rename_i h
    simp only [Bool.or_eq_true, not_or, Bool.not_eq_true] at h
    exact .inl (hpos hx h.1)

theorem smaller_of_le (h : x ≤ y) : smaller x y = x := by
  obtain ⟨⟨hx, hy⟩, hle⟩ := le_iff.mp h
  refine if_neg ?_
  rw [hx, Bool.false_or, decide_eq_true_iff, not_lt hy hx]
  exact h

theorem smaller_of_not_le (hy : y.isNaN = false) (h : ¬x ≤ y) : smaller x y = y := by
  refine if_pos ?_
  rw [Bool.or_eq_true, decide_eq_true_iff]
  rcases Bool.eq_false_or_eq_true x.isNaN with hnan | hnumber
  · exact .inl hnan
  · exact .inr ((not_le hnumber hy).mp h)

theorem zero_le_larger (x : Float32) : 0 ≤ larger x 0 := by
  have hzero : (0 : Float32).isNaN = false := rfl
  rw [larger, hzero, Bool.false_or]
  split
  · rename_i h
    exact le_of_lt (decide_eq_true_iff.mp h)
  · exact le_refl hzero

end Terrarium.Single
