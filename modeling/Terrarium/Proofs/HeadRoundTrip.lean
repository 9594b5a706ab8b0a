import Terrarium.Cbor.Written
import Mathlib

namespace Terrarium

namespace Binary

theorem encode_half_lt (v : Value) : half.encode v < UInt16.size := by
  have hmagnitude (mantissa : Nat) (scale : Int) : half.magnitude mantissa scale ≤ 31744 := by
    rw [Format.magnitude]
    split
    · exact Nat.zero_le _
    · exact Nat.min_le_right _ _
  cases v with
  | notANumber => decide
  | infinite negative => cases negative <;> decide
  | finite negative mantissa scale =>
      have hsign : (if negative then half.signBit else 0) ≤ 32768 := by cases negative <;> decide
      exact Nat.lt_of_le_of_lt (Nat.add_le_add hsign (hmagnitude mantissa scale)) (by decide)

/-- A half-precision pattern is written for the very number that it is read as. -/
theorem singleOfHalf_of_halfOfSingle? {x : Float32} {bits : Nat} (h : halfOfSingle? x = some bits) :
    bits < UInt16.size ∧ singleOfHalf bits = x := by
  rw [halfOfSingle?] at h
  split at h
  case isTrue hbits =>
    cases h
    exact ⟨encode_half_lt _, Float32.toBits_inj.mp hbits⟩
  case isFalse => cases h

end Binary

namespace Cbor

theorem length_bigEndian (width n : Nat) : (bigEndian width n).length = width := by
  induction width with
  | zero => rfl
  | succ width ih => rw [bigEndian, List.length_cons, ih]

theorem foldl_bigEndian (width n acc : Nat) :
    (bigEndian width n).foldl (fun n b => n * 256 + b.toNat) acc =
      acc * 256 ^ width + n % 256 ^ width := by
  induction width generalizing acc with
  | zero => rw [Nat.pow_zero, Nat.mod_one, Nat.mul_one]; rfl
  | succ width ih =>
      have hbyte : (UInt8.ofNat (n / Nat.pow 256 width)).toNat = n / 256 ^ width % 256 :=
        UInt8.toNat_ofNat
      rw [bigEndian, List.foldl_cons, ih, hbyte, Nat.mod_pow_succ, Nat.pow_succ, Nat.add_mul,
        Nat.mul_comm (256 ^ width) 256, Nat.mul_comm (256 ^ width) (_ % 256), ← Nat.mul_assoc]
      omega

theorem ofBigEndian_bigEndian {width n : Nat} (hn : n < 256 ^ width) :
    ofBigEndian (bigEndian width n) = n := by
  rw [ofBigEndian, foldl_bigEndian, Nat.zero_mul, Nat.zero_add, Nat.mod_eq_of_lt hn]

theorem takeExact_append (front rest : List UInt8) :
    takeExact front.length (front ++ rest) = some (front, rest) := by
  rw [takeExact, List.take_left, List.drop_left]
  exact if_pos rfl

theorem readBigEndian_append {width n : Nat} (hn : n < 256 ^ width) (rest : List UInt8) :
    readBigEndian width (bigEndian width n ++ rest) = some (n, rest) := by
  have htake := takeExact_append (bigEndian width n) rest
  rw [length_bigEndian] at htake
  rw [readBigEndian, htake]
  simp only [ofBigEndian_bigEndian hn]

theorem readArgument_append {step n : Nat} (hstep : step < 4) (hn : n < 256 ^ 2 ^ step)
    (rest : List UInt8) :
    readArgument (24 + step) (bigEndian (2 ^ step) n ++ rest) = some (some n, rest) := by
  have hread : readBigEndian (Nat.pow 2 (24 + step - 24)) (bigEndian (2 ^ step) n ++ rest) =
      some (n, rest) := by
    rw [Nat.add_sub_cancel_left]
    exact readBigEndian_append hn rest
  rw [readArgument, if_neg (by omega), if_pos (by omega), hread]

theorem writeHead_ne_nil (major n : Nat) : writeHead major n ≠ [] := by
  rw [writeHead]
  repeat' split
  all_goals exact List.cons_ne_nil _ _

/-- A head of a major kind with an argument, in any width that the argument fits. -/
inductive WideHead (major n : Nat) : List UInt8 → Prop where
  | short (hn : n < 24) : WideHead major n [UInt8.ofNat (32 * major + n)]
  | wide {k : Nat} (hk : k < 4) (hn : n < 256 ^ 2 ^ k) :
      WideHead major n (UInt8.ofNat (32 * major + (24 + k)) :: bigEndian (2 ^ k) n)

theorem wideHead_writeHead {n : Nat} (hn : n < UInt64.size) (major : Nat) :
    WideHead major n (writeHead major n) := by
  rw [writeHead]
  by_cases hshort : n < 24
  · rw [if_pos hshort]
    exact .short hshort
  rw [if_neg hshort]
  by_cases h8 : n < UInt8.size
  · rw [if_pos h8]
    exact .wide (k := 0) (by decide) h8
  rw [if_neg h8]
  by_cases h16 : n < UInt16.size
  · rw [if_pos h16]
    exact .wide (k := 1) (by decide) h16
  rw [if_neg h16]
  by_cases h32 : n < UInt32.size
  · rw [if_pos h32]
    exact .wide (k := 2) (by decide) h32
  · rw [if_neg h32]
    exact .wide (k := 3) (by decide) hn

theorem WideHead.pull {major n : Nat} {head : Head} {s : List UInt8} (h : WideHead major n s)
    (hmajor : major < 7) (hhead : headOf major (some n) = some head) (rest : List UInt8) :
    pull (s ++ rest) = some (head, rest) := by
  have hpull {info : Nat} {argument : List UInt8} (hinfo : info < 32)
      (hread : readArgument info (argument ++ rest) = some (some n, rest)) :
      Cbor.pull (UInt8.ofNat (32 * major + info) :: argument ++ rest) = some (head, rest) := by
    have hbyte : (UInt8.ofNat (32 * major + info)).toNat = 32 * major + info := by
      rw [UInt8.toNat_ofNat', Nat.mod_eq_of_lt (by omega)]
    have hdiv : (32 * major + info) / 32 = major := by omega
    have hmod : (32 * major + info) % 32 = info := by omega
    rw [List.cons_append, Cbor.pull]
    simp only [hbyte, hdiv, hmod, if_neg (Nat.ne_of_lt hmajor), hread, hhead, Option.map_some]
  cases h with
  | short hn =>
      refine hpull (Nat.lt_trans hn (by decide)) ?_
      rw [readArgument, if_pos hn, List.nil_append]
  | wide hk hn => exact hpull (by omega) (readArgument_append hk hn rest)

theorem pull_writeHead {major n : Nat} {head : Head} (hmajor : major < 7) (hn : n < UInt64.size)
    (hhead : headOf major (some n) = some head) (rest : List UInt8) :
    pull (writeHead major n ++ rest) = some (head, rest) :=
  (wideHead_writeHead hn major).pull hmajor hhead rest

theorem pull_half {bits : Nat} (hbits : bits < UInt16.size) (rest : List UInt8) :
    pull (0xf9 :: bigEndian 2 bits ++ rest) = some (.float (Binary.singleOfHalf bits), rest) := by
  have hread : readArgument 25 (bigEndian 2 bits ++ rest) = some (some bits, rest) :=
    @readArgument_append 1 _ (by decide) hbits rest
  have hpull : pull (0xf9 :: (bigEndian 2 bits ++ rest)) =
      pullSpecial 25 (bigEndian 2 bits ++ rest) := rfl
  simp only [List.cons_append, hpull, pullSpecial, hread]

theorem pull_single (bits : UInt32) (rest : List UInt8) :
    pull (0xfa :: bigEndian 4 bits.toNat ++ rest) = some (.float (Float32.ofBits bits), rest) := by
  have hread : readArgument 26 (bigEndian 4 bits.toNat ++ rest) = some (some bits.toNat, rest) :=
    @readArgument_append 2 _ (by decide) bits.toNat_lt rest
  have hpull : pull (0xfa :: (bigEndian 4 bits.toNat ++ rest)) =
      pullSpecial 26 (bigEndian 4 bits.toNat ++ rest) := rfl
  simp only [List.cons_append, hpull, pullSpecial, hread, UInt32.ofNat_toNat]

theorem pull_double (bits : UInt64) (rest : List UInt8) :
    pull (0xfb :: bigEndian 8 bits.toNat ++ rest) =
      some (.float (Binary.singleOfDouble (Float.ofBits bits)), rest) := by
  have hread : readArgument 27 (bigEndian 8 bits.toNat ++ rest) = some (some bits.toNat, rest) :=
    @readArgument_append 3 _ (by decide) bits.toNat_lt rest
  have hpull : pull (0xfb :: (bigEndian 8 bits.toNat ++ rest)) =
      pullSpecial 27 (bigEndian 8 bits.toNat ++ rest) := rfl
  simp only [List.cons_append, hpull, pullSpecial, hread, UInt64.ofNat_toNat]

theorem pull_writeFloat (x : Float32) (rest : List UInt8) :
    pull (writeFloat x ++ rest) = some (.float x, rest) := by
  rw [writeFloat]
  cases hhalf : Binary.halfOfSingle? x with
  | some bits =>
      obtain ⟨hbits, hx⟩ := Binary.singleOfHalf_of_halfOfSingle? hhalf
      rw [← hx]
      exact pull_half hbits rest
  | none =>
      have hpull := pull_single x.toBits rest
      rwa [Float32.ofBits_toBits] at hpull

end Cbor

end Terrarium
