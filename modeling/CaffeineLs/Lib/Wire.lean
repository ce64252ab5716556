/-
Module: CaffeineLs.Lib.Wire
Purpose: Numbers as big-endian bytes of a fixed width, and back.
Trusted boundary: none
Main exports: bigEndian, ofBigEndian, ofBigEndian_bigEndian
-/
import Mathlib.Algebra.GroupWithZero.Nat

namespace Wire

/-- The low `width` bytes of `n`, the highest first. -/
def bigEndian : Nat → Nat → List UInt8
  | 0, _ => []
  | width + 1, n => UInt8.ofNat (n / 256 ^ width) :: bigEndian width n

/-- The number that the bytes continue, read after `high`. -/
def continueBigEndian (high : Nat) (bytes : List UInt8) : Nat :=
  bytes.foldl (fun n byte => n * 256 + byte.toNat) high

def ofBigEndian (bytes : List UInt8) : Nat := continueBigEndian 0 bytes

@[simp] theorem length_bigEndian (width n : Nat) : (bigEndian width n).length = width := by
  induction width with
  | zero => rfl
  | succ width ih => simp [bigEndian, ih]

theorem continueBigEndian_bigEndian (width high n : Nat) :
    continueBigEndian high (bigEndian width n) = high * 256 ^ width + n % 256 ^ width := by
  induction width generalizing high with
  | zero => simp [bigEndian, continueBigEndian, Nat.mod_one]
  | succ width ih =>
    have byte : (UInt8.ofNat (n / 256 ^ width)).toNat = n / 256 ^ width % 256 := by
      simp
    calc continueBigEndian high (bigEndian (width + 1) n)
        = continueBigEndian (high * 256 + n / 256 ^ width % 256) (bigEndian width n) := by
          simp only [bigEndian, continueBigEndian, List.foldl_cons, byte]
      _ = (high * 256 + n / 256 ^ width % 256) * 256 ^ width + n % 256 ^ width := ih _
      _ = high * 256 ^ (width + 1) + n % 256 ^ (width + 1) := by
          rw [Nat.pow_succ, Nat.mod_mul, Nat.add_mul, Nat.mul_assoc, Nat.mul_comm 256,
            Nat.mul_comm (n / 256 ^ width % 256)]
          omega

/-- What is written is read back, as far as it fits. -/
@[simp] theorem ofBigEndian_bigEndian (width n : Nat) :
    ofBigEndian (bigEndian width n) = n % 256 ^ width := by
  rw [ofBigEndian, continueBigEndian_bigEndian, Nat.zero_mul, Nat.zero_add]

theorem continueBigEndian_eq (high : Nat) (bytes : List UInt8) :
    continueBigEndian high bytes = high * 256 ^ bytes.length + ofBigEndian bytes := by
  induction bytes generalizing high with
  | nil => simp [continueBigEndian, ofBigEndian]
  | cons byte bytes ih =>
    have whole : ofBigEndian (byte :: bytes) = continueBigEndian (0 * 256 + byte.toNat) bytes := rfl
    have split : continueBigEndian high (byte :: bytes) =
        continueBigEndian (high * 256 + byte.toNat) bytes := rfl
    rw [whole, split, ih, ih, List.length_cons, Nat.pow_succ, Nat.zero_mul, Nat.zero_add,
      Nat.add_mul, Nat.mul_assoc, Nat.mul_comm 256, Nat.add_assoc]

theorem ofBigEndian_cons (byte : UInt8) (bytes : List UInt8) :
    ofBigEndian (byte :: bytes) = byte.toNat * 256 ^ bytes.length + ofBigEndian bytes := by
  have whole : ofBigEndian (byte :: bytes) = continueBigEndian (0 * 256 + byte.toNat) bytes := rfl
  rw [whole, continueBigEndian_eq, Nat.zero_mul, Nat.zero_add]

theorem ofBigEndian_lt (bytes : List UInt8) : ofBigEndian bytes < 256 ^ bytes.length := by
  induction bytes with
  | nil => exact Nat.one_pos
  | cons byte bytes ih =>
    have bounded : byte.toNat + 1 ≤ 256 := byte.toNat_lt
    rw [ofBigEndian_cons, List.length_cons, Nat.pow_succ]
    calc byte.toNat * 256 ^ bytes.length + ofBigEndian bytes
        < byte.toNat * 256 ^ bytes.length + 256 ^ bytes.length := Nat.add_lt_add_left ih _
      _ = (byte.toNat + 1) * 256 ^ bytes.length := by rw [Nat.add_mul, Nat.one_mul]
      _ ≤ 256 * 256 ^ bytes.length := Nat.mul_le_mul_right _ bounded
      _ = 256 ^ bytes.length * 256 := Nat.mul_comm _ _

/-- Only the low bytes of a number are written. -/
theorem bigEndian_mod (width n : Nat) : bigEndian width (n % 256 ^ width) = bigEndian width n := by
  induction width generalizing n with
  | zero => rfl
  | succ width ih =>
    have byte : UInt8.ofNat (n % 256 ^ (width + 1) / 256 ^ width) = UInt8.ofNat (n / 256 ^ width) := by
      rw [Nat.pow_succ, Nat.mod_mul_right_div_self]
      apply UInt8.toNat_inj.mp
      simp
    have low : n % 256 ^ (width + 1) % 256 ^ width = n % 256 ^ width :=
      Nat.mod_mod_of_dvd _ (Nat.pow_dvd_pow 256 (Nat.le_succ width))
    rw [bigEndian, bigEndian, byte, ← ih (n % 256 ^ (width + 1)), low, ih]

/-- What is read is written back. -/
theorem bigEndian_ofBigEndian (bytes : List UInt8) :
    bigEndian bytes.length (ofBigEndian bytes) = bytes := by
  induction bytes with
  | nil => rfl
  | cons byte bytes ih =>
    have positive : 0 < 256 ^ bytes.length := Nat.pow_pos (by decide)
    have high : ofBigEndian (byte :: bytes) / 256 ^ bytes.length = byte.toNat := by
      rw [ofBigEndian_cons, Nat.mul_comm, Nat.mul_add_div positive,
        Nat.div_eq_of_lt (ofBigEndian_lt bytes), Nat.add_zero]
    have low : ofBigEndian (byte :: bytes) % 256 ^ bytes.length = ofBigEndian bytes := by
      rw [ofBigEndian_cons, Nat.mul_comm, Nat.mul_add_mod, Nat.mod_eq_of_lt (ofBigEndian_lt bytes)]
    rw [List.length_cons, bigEndian, high, UInt8.ofNat_toNat, ← bigEndian_mod, low, ih]

end Wire
