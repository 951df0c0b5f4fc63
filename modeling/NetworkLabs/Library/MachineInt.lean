import Mathlib

/-!
# Conversions between machine integers

`unsigned w z` is the value kept by an unsigned integer of `w` bits when `z` is
stored in it: a value inside the range is kept, any other one wraps around.
The signed conversion is `Int32.ofInt`, and two facts on signed addition are
kept here in the form in which loops over a cursor use them.
-/

namespace MachineInt

/-- The value of `z` after it is stored in an unsigned integer of `w` bits. -/
def unsigned (w : ℕ) (z : ℤ) : ℕ := (z % 2 ^ w).toNat

theorem unsigned_lt (w : ℕ) (z : ℤ) : unsigned w z < 2 ^ w := by
  have hpos : (0 : ℤ) < 2 ^ w := by positivity
  have hlt := Int.emod_lt_of_pos z hpos
  have hnonneg := Int.emod_nonneg z hpos.ne'
  rw [unsigned]
  zify
  rw [Int.toNat_of_nonneg hnonneg]
  exact hlt

/-- No value gets larger when it is stored. -/
theorem unsigned_natCast_le (w n : ℕ) : unsigned w n ≤ n := by
  have hcast : (n : ℤ) % 2 ^ w = ((n % 2 ^ w : ℕ) : ℤ) := by push_cast; rfl
  rw [unsigned, hcast, Int.toNat_natCast]
  exact Nat.mod_le n _

/-- A natural number below the bound is kept. -/
theorem unsigned_natCast_eq_mod (w n : ℕ) : unsigned w n = n % 2 ^ w := by
  rw [unsigned, ← Int.toNat_natCast (n % 2 ^ w)]
  push_cast
  rfl

theorem unsigned_natCast (w n : ℕ) (h : n < 2 ^ w) : unsigned w n = n := by
  have hlt : (n : ℤ) < 2 ^ w := by exact_mod_cast h
  rw [unsigned, Int.emod_eq_of_lt (Int.natCast_nonneg n) hlt, Int.toNat_natCast]

/-- A value known to be a natural number below the bound is kept. -/
theorem unsigned_eq_of_natCast_eq (w : ℕ) (z : ℤ) (n : ℕ) (hz : z = n)
    (h : n < 2 ^ w) : unsigned w z = n := by
  rw [hz, unsigned_natCast w n h]

theorem toInt_ofInt_natCast (n : ℕ) (h : n < 2 ^ 31) : (Int32.ofInt n).toInt = n :=
  Int32.toInt_ofInt_of_le (by omega) (by omega)

/-- A signed sum inside the range is the sum of the integers. -/
theorem toInt_add_of_mem (a b : Int32) (hlo : -2 ^ 31 ≤ a.toInt + b.toInt)
    (hhi : a.toInt + b.toInt < 2 ^ 31) : (a + b).toInt = a.toInt + b.toInt := by
  rw [Int32.toInt_add]
  apply Int.bmod_eq_of_le_mul_two
  · push_cast
    omega
  · push_cast
    omega

/-- Adding a value that is not negative never gets further than the sum. -/
theorem toInt_add_sub_le (a b : Int32) (hb : 0 ≤ b.toInt) :
    (a + b).toInt - a.toInt ≤ b.toInt := by
  have ha := a.le_toInt
  by_cases hhi : a.toInt + b.toInt < 2 ^ 31
  · rw [toInt_add_of_mem a b (by omega) hhi]
    omega
  · have hsum := (a + b).toInt_lt
    omega

end MachineInt
