import Terrarium.Proofs.SecondsRange
import Terrarium.Server.Simulation

namespace Terrarium

open Float.Model (Format UnpackedFloat)
open Float.Model.UnpackedFloat
open Packed (AtMost Unsigned)

namespace Settings

variable {s : Settings}

/-- Settings that passed the check, by themselves or as those of a text or of a file. -/
def Accepted (s : Settings) : Prop :=
  s.check = .ok s ∨ (∃ text, ofText text = .ok s) ∨ ∃ contents, ofFile contents = .ok s

theorem check_of_check {t : Settings} (h : t.check = .ok s) : s.check = .ok s := by
  rw [check] at h
  split at h
  · cases h
  · rename_i hnone
    cases h
    rw [check, hnone]

theorem check_of_ofText {text : String} (h : ofText text = .ok s) : s.check = .ok s := by
  rw [ofText] at h
  split at h
  · cases h
  · exact check_of_check h

theorem Accepted.check_eq (h : s.Accepted) : s.check = .ok s := by
  rcases h with h | ⟨text, h⟩ | ⟨contents, h⟩
  · exact h
  · exact check_of_ofText h
  · rw [ofFile] at h
    split at h
    · cases h
    · exact check_of_ofText h

theorem complaint?_of_check (h : s.check = .ok s) : s.complaint? = none := by
  rw [check] at h
  split at h
  · cases h
  · assumption

theorem Accepted.factor (h : s.Accepted) : s.warnFactor.isNaN = false ∧ ¬s.warnFactor < 1 := by
  have hnone := complaint?_of_check h.check_eq
  rw [complaint?] at hnone
  split_ifs at hnone with _ _ _ _ hbelow
  rwa [Bool.or_eq_true, not_or, Bool.not_eq_true, decide_eq_true_eq] at hbelow

/-- The time from which a frame overruns, as a number of seconds. -/
def overrun (s : Settings) : Float := s.warnFactor * s.tick.seconds

theorem Accepted.unsigned_factor (h : s.Accepted) : Unsigned s.warnFactor.toModel.unpack := by
  obtain ⟨hnumber, hless⟩ := h.factor
  have hunpack : (1 : Float).toModel.unpack = .finite .positive (2 ^ 52) (-52) (by decide) := rfl
  have hone : 0 < Double.value 1 := by
    rw [Double.value, hunpack]
    exact Packed.scaled_pos (by decide) (-52)
  apply Packed.unsigned_of_value_pos (f := Format.binary64)
  refine hone.trans_le (not_lt.mp fun hlt => hless ?_)
  exact Double.lt_iff.mpr ⟨⟨hnumber, rfl⟩, hlt⟩

theorem atMost_tick (s : Settings) :
    AtMost Format.binary64 18446744073710 s.tick.seconds.toModel.unpack := by
  have hmicros : s.tickMicros.toNat < 2 ^ 64 := s.tickMicros.toNat_lt
  have hnanos : s.tick.nanos = 1000 * s.tickMicros.toNat := rfl
  have hsecond : Duration.second = 1000000000 := rfl
  have hwhole : s.tick.nanos / Duration.second + 1 ≤ 18446744073710 := by
    rw [hsecond]
    omega
  apply (Duration.atMost_seconds s.tick (by omega)).trans
  exact_mod_cast hwhole

theorem Accepted.unsigned_overrun (h : s.Accepted) : Unsigned s.overrun.toModel.unpack :=
  (h.unsigned_factor.mul (atMost_tick s).unsigned).pack

theorem Accepted.threshold?_eq_none (h : s.Accepted) :
    s.threshold? = none ↔ ¬s.overrun < Duration.tooLong := by
  rw [← Double.nonneg_and_lt_iff h.unsigned_overrun]
  exact Duration.ofSeconds?_eq_none s.overrun

theorem Accepted.atMost_factor (h : s.Accepted) (hle : s.warnFactor ≤ 999999) :
    AtMost Format.binary64 999999 s.warnFactor.toModel.unpack := by
  have hunpack : (999999 : Float).toModel.unpack =
    .finite .positive (999999 * 2 ^ 33) (-33) (by decide) := rfl
  have hvalue : Double.value 999999 = 999999 := by
    rw [Double.value, hunpack]
    change ((999999 * 2 ^ 33 : Nat) : ℚ) * 2 ^ (-33 : Int) = 999999
    norm_num
  have hlimit : (999999 : ℚ) < Packed.limit Format.binary64 := by
    refine lt_trans ?_ Duration.tooLong_lt_limit
    rw [Duration.value_tooLong]
    norm_num
  obtain ⟨⟨hnumber, -⟩, hbound⟩ := Double.le_iff.mp hle
  rw [hvalue] at hbound
  exact h.unsigned_factor.atMost (Double.isNaN_eq_false.mp hnumber) hbound hlimit

/-- No tick is too long for a factor of up to 999999. -/
theorem Accepted.overrun_lt (h : s.Accepted) (hle : s.warnFactor ≤ 999999) :
    s.overrun < Duration.tooLong := by
  have hproduct : (999999 : ℚ) * 18446744073710 ≤ ((2 ^ 53 - 1 : Nat) : ℚ) * 2 ^ (11 : Int) := by
    norm_num
  obtain ⟨hmul, hfits⟩ :=
    (h.atMost_factor hle).mul (atMost_tick s) (by decide) (by decide) hproduct
  have hoverrun := hmul.pack hfits (Double.lt_beyond (by decide) (by decide))
  refine Double.lt_iff.mpr ⟨⟨Double.isNaN_eq_false.mpr hoverrun.ne_nan, rfl⟩, ?_⟩
  rw [Duration.value_tooLong]
  exact hoverrun.le.trans_lt (by norm_num)

theorem Accepted.unpack_infinite (h : s.Accepted) (hinf : s.warnFactor.isInf) :
    s.warnFactor.toModel.unpack = .infinity .positive := by
  have hunsigned := h.unsigned_factor
  change s.warnFactor.toModel.unpack.isInf = true at hinf
  cases hfactor : s.warnFactor.toModel.unpack with
  | notANumber | zero sign | finite sign m e hm =>
      rw [hfactor] at hinf
      cases hinf
  | infinity sign =>
      rw [hfactor] at hunsigned
      exact congrArg UnpackedFloat.infinity hunsigned

theorem Accepted.not_overrun_lt (h : s.Accepted) (hinf : s.warnFactor.isInf) :
    ¬s.overrun < Duration.tooLong := by
  have hoverrun := Double.unpack_mul s.warnFactor s.tick.seconds
  rw [h.unpack_infinite hinf] at hoverrun
  rw [Double.lt_iff, Double.isNaN_eq_false (x := s.overrun), Double.value, overrun, hoverrun]
  rintro ⟨⟨hnumber, -⟩, hlt⟩
  rcases (atMost_tick s).infinity_mul with hmul | hmul
  · rw [hmul] at hnumber
    exact hnumber (Packed.unpack_pack_nan _)
  · rw [hmul, Packed.unpack_pack_infinity] at hlt
    exact lt_asymm Duration.tooLong_lt_limit hlt

end Settings

namespace Simulation

variable {s : Settings}

/-- Accepted settings start a simulation if there is enough memory and the time from which a frame
overruns is below the limit of durations. A factor of up to 999999 always keeps it there, an
infinite one never does, and the check lets both pass. -/
theorem start_accepted (h : s.Accepted) :
    (start s = if !HeightMap.fits s.size || !FrameLog.fits s.history.toNat then .error .tooLarge
      else if s.overrun < Duration.tooLong then .ok (ofWorld (World.new s.size))
      else .error .thresholdOutOfRange) ∧
    (s.threshold? = none ↔ ¬s.overrun < Duration.tooLong) ∧
    (s.warnFactor ≤ 999999 → s.threshold?.isSome) ∧
    (s.warnFactor.isInf → s.threshold? = none) := by
  have hnone := h.threshold?_eq_none
  have hsome : s.threshold?.isSome ↔ s.overrun < Duration.tooLong := by
    rw [← Option.ne_none_iff_isSome, ne_eq, hnone, not_not]
  refine ⟨?_, hnone, fun hle => hsome.mpr (h.overrun_lt hle),
    fun hinf => hnone.mpr (h.not_overrun_lt hinf)⟩
  rw [start, h.check_eq]
  dsimp only
  split
  · rfl
  · cases hthreshold : s.threshold? with
    | none => rw [if_neg (hnone.mp hthreshold)]
    | some d => rw [if_pos (hsome.mp (Option.isSome_of_eq_some hthreshold))]

theorem start_accepted_infinite :
    let s : Settings := ⟨16000, 100, 8, 1 / 0, 120⟩
    s.Accepted ∧ s.threshold? = none ∧ start s = .error .thresholdOutOfRange := by
  intro s
  have haccepted : s.Accepted := .inl (by decide +kernel)
  obtain ⟨hstart, hiff, -, hinfinite⟩ := start_accepted haccepted
  have hnone := hinfinite (by decide +kernel)
  rw [if_neg (by decide), if_neg (hiff.mp hnone)] at hstart
  exact ⟨haccepted, hnone, hstart⟩

end Simulation

end Terrarium
