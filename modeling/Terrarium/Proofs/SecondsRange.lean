import Terrarium.Duration
import Terrarium.Proofs.DoubleValues

namespace Terrarium.Duration

open Float.Model (Format UnpackedFloat)
open Float.Model.UnpackedFloat
open Packed (AtMost)

/-- As many seconds are too many for a duration, which is `2 ^ 64`. -/
def tooLong : Float := 18446744073709551616

variable {m : Nat} {e : Int}

theorem unpack_tooLong :
    tooLong.toModel.unpack = .finite .positive (2 ^ 52) 12 (by decide) := rfl

theorem value_tooLong : Double.value tooLong = 2 ^ 52 * 2 ^ (12 : Int) := by
  rw [Double.value, unpack_tooLong]
  exact congrArg (· * (2 : ℚ) ^ (12 : Int)) (Nat.cast_pow 2 52)

theorem tooLong_lt_limit : Double.value tooLong < Packed.limit Format.binary64 := by
  rw [value_tooLong]
  exact mul_lt_mul_of_pos_left (zpow_lt_zpow_right₀ (by norm_num) (by decide)) (by norm_num)

theorem le_divNearest (n d : Nat) : n / d ≤ Binary.divNearest n d := by
  rw [Binary.divNearest]
  split <;> omega

theorem divNearest_le (n d : Nat) : Binary.divNearest n d ≤ n + 1 := by
  have hdiv := Nat.div_le_self n d
  rw [Binary.divNearest]
  split <;> omega

theorem limit_le_nanos (hm : m < 2 ^ 53) (hfull : 12 ≤ e → 2 ^ 52 ≤ m) :
    limit ≤ Binary.divNearest (second * (m * 2 ^ e.toNat)) (2 ^ (-e).toNat) ↔ 12 ≤ e := by
  have hlimit : limit = second * (2 ^ 52 * 2 ^ 12) := rfl
  constructor
  · intro h
    by_contra hlt
    have hpow : 2 ^ e.toNat ≤ 2 ^ 11 := Nat.pow_le_pow_right (by decide) (by omega)
    have hmantissa : m ≤ 2 ^ 53 - 1 := by omega
    have hmore := Nat.mul_le_mul_left second (Nat.mul_le_mul hmantissa hpow)
    have hless : second * ((2 ^ 53 - 1) * 2 ^ 11) + 1 < limit := by decide
    have hround := divNearest_le (second * (m * 2 ^ e.toNat)) (2 ^ (-e).toNat)
    omega
  · intro h
    have hwhole : (-e).toNat = 0 := by omega
    have hpow : 2 ^ 12 ≤ 2 ^ e.toNat := Nat.pow_le_pow_right (by decide) (by omega)
    have hround := le_divNearest (second * (m * 2 ^ e.toNat)) (2 ^ (-e).toNat)
    rw [hwhole, Nat.pow_zero, Nat.div_one] at hround
    rw [hwhole, Nat.pow_zero, hlimit]
    exact (Nat.mul_le_mul_left second (Nat.mul_le_mul (hfull h) hpow)).trans hround

theorem ofSeconds?_finite {x : Float} {minus : Bool}
    (hx : Binary.valueOfDouble x = .finite minus m e) (hm : m < 2 ^ 53)
    (hfull : 12 ≤ e → 2 ^ 52 ≤ m) : ofSeconds? x = none ↔ minus ∧ m ≠ 0 ∨ 12 ≤ e := by
  have hnanos := limit_le_nanos hm hfull
  rw [ofSeconds?, hx]
  simp only [Nat.pow_eq, hnanos, ite_eq_left_iff, reduceCtorEq, imp_false, not_not,
    Bool.and_eq_true, Bool.or_eq_true, decide_eq_true_eq]

theorem ofSeconds?_eq_none (x : Float) : ofSeconds? x = none ↔ ¬(0 ≤ x ∧ x < tooLong) := by
  have hcanonical := Double.canonical x
  have hlimit := tooLong_lt_limit
  rw [value_tooLong] at hlimit
  have hbound : (0 : ℚ) < 2 ^ 52 * 2 ^ (12 : Int) := by positivity
  have hdecoded := Double.valueOfDouble_eq x
  rw [Double.le_iff, Double.lt_iff, Double.isNaN_eq_false (x := x), value_tooLong, Double.value,
    Double.value]
  cases hx : x.toModel.unpack with
  | notANumber =>
      rw [hx] at hdecoded
      rw [ofSeconds?, hdecoded]
      exact iff_of_true rfl fun h => h.1.1.2 rfl
  | infinity s =>
      rw [hx] at hdecoded
      rw [ofSeconds?, hdecoded]
      refine iff_of_true rfl ?_
      rintro ⟨⟨-, hpos⟩, -, hlt⟩
      cases s with
      | negative =>
          change (0 : ℚ) ≤ -Packed.limit Format.binary64 at hpos
          linarith
      | positive => exact lt_asymm hlimit hlt
  | zero s =>
      rw [hx] at hdecoded
      rw [ofSeconds?_finite hdecoded (by decide) (by decide)]
      refine iff_of_false ?_ (not_not_intro ⟨⟨⟨rfl, nofun⟩, le_refl 0⟩, ⟨nofun, rfl⟩, hbound⟩)
      rintro (⟨-, hm⟩ | hle)
      · exact hm rfl
      · exact absurd hle (by decide)
  | finite s m e hm =>
      rw [hx] at hdecoded hcanonical
      have hnormal := hcanonical.1
      have hfull (hle : 12 ≤ e) : 2 ^ 52 ≤ m := hnormal.full.resolve_left fun hleast => by
        rw [hleast] at hle
        exact absurd hle (by decide)
      rw [ofSeconds?_finite hdecoded hnormal.mantissa hfull]
      have hpos := Packed.scaled_pos hm e
      cases s with
      | negative =>
          refine iff_of_true (.inl ⟨rfl, Nat.ne_of_gt hm⟩) ?_
          rintro ⟨⟨-, hnonneg⟩, -⟩
          change (0 : ℚ) ≤ -(m * 2 ^ e) at hnonneg
          linarith
      | positive =>
          have hlt : Packed.value Format.binary64 (.finite .positive m e hm) <
              2 ^ 52 * 2 ^ (12 : Int) ↔ e < 12 := hnormal.lt_full_iff (by decide)
          rw [hlt]
          constructor
          · rintro (⟨hminus, -⟩ | hle) ⟨-, -, hless⟩
            · cases hminus
            · omega
          · intro h
            by_contra hless
            exact h ⟨⟨⟨rfl, nofun⟩, hpos.le⟩, ⟨nofun, rfl⟩, by omega⟩

variable {n : Nat}

theorem unpack_second : (Binary.doubleOfNat second).toModel.unpack =
    .finite .positive (second * 2 ^ 23) (-23) (by decide) := rfl

theorem atMost_fraction (hn : n < second) : AtMost Format.binary64 1
    (Binary.doubleOfNat n / Binary.doubleOfNat second).toModel.unpack := by
  have hone : ((1 : Nat) : ℚ) * 2 ^ (0 : Int) = 1 := by norm_num
  have hvalue : (n : ℚ) ≤ ((1 : Nat) : ℚ) * 2 ^ (0 : Int) *
      ((second * 2 ^ 23 : Nat) * 2 ^ (-23 : Int)) := by
    have hcast : (n : ℚ) ≤ second := by exact_mod_cast Nat.le_of_lt hn
    have hsame : ((second * 2 ^ 23 : Nat) : ℚ) * 2 ^ (-23 : Int) = second := by
      rw [Nat.cast_mul, mul_assoc]
      norm_num
    rwa [hone, hsame, one_mul]
  have hsecond : second < 2 ^ 53 := by decide
  rw [Double.unpack_div, unpack_second, ← hone]
  obtain ⟨hle, hfits⟩ :=
    (Double.atMost_doubleOfNat (hn.trans hsecond)).div (by decide) (by decide) hvalue
  exact hle.pack hfits (Double.lt_beyond (by decide) (by decide))

theorem atMost_seconds (d : Duration) (hd : d.nanos / second + 1 < 2 ^ 53) :
    AtMost Format.binary64 (d.nanos / second + 1 : Nat) d.seconds.toModel.unpack := by
  have hone : ((d.nanos / second + 1 : Nat) : ℚ) * 2 ^ (0 : Int) = (d.nanos / second + 1 : Nat) :=
    mul_one _
  have hwhole := Double.atMost_doubleOfNat (Nat.lt_of_succ_lt hd)
  have hrest := atMost_fraction (Nat.mod_lt d.nanos (by decide : 0 < second))
  obtain ⟨hle, hfits⟩ := hwhole.add hrest (Double.canonical _).fits (Double.canonical _).fits
    (n := d.nanos / second + 1) (j := 0) hd (by decide) (by rw [hone]; push_cast; exact le_refl _)
  rw [seconds, Double.unpack_add, ← hone]
  exact hle.pack hfits (Double.lt_beyond hd (by decide))

end Terrarium.Duration
