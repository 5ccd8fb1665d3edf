/-
# C types

The C types of the server's code, with the widths that they have on its 64-bit
platform.  Arithmetic wraps, as in the code the compiler emits.
-/
import Mathlib.Data.BitVec

/-- `int`. -/
abbrev CInt := BitVec 32

/-- `unsigned long`, and `size_t`. -/
abbrev CULong := BitVec 64

/-- The conversion from `int` to `unsigned long`. -/
def CInt.toULong (x : CInt) : CULong := x.signExtend 64

/-- The conversion from `unsigned long` to `int`. -/
def CULong.toCInt (x : CULong) : CInt := x.truncate 32

/-- The bytes of a string before its terminating `NUL`. -/
abbrev CString := List UInt8

/-- `strlen`. -/
def strlen (s : CString) : CULong := BitVec.ofNat 64 s.length

/-- `INT_MAX`. -/
def intMax : ℕ := 2 ^ 31 - 1

theorem intMax_lt : intMax < 2 ^ 32 := by decide

/-- The counts up to `INT_MAX` are values of an `int`. -/
theorem toInt_ofNat_of_le_intMax {n : ℕ} (hn : n ≤ intMax) :
    (BitVec.ofNat 32 n : CInt).toInt = n := by
  unfold intMax at hn
  rw [BitVec.toInt_ofNat', Int.bmod_eq_of_le] <;> omega

/-- `INT_MAX` is the largest `int`. -/
theorem toInt_le_intMax (x : CInt) : x.toInt ≤ intMax := by
  have hlt : x.toInt < 2 ^ 31 := BitVec.toInt_lt
  unfold intMax
  omega
