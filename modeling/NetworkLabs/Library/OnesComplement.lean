import Mathlib.Algebra.Order.Ring.Nat

/-!
# One's complement sums of 16 bits

A sum that is too long for 16 bits is folded: what lies above them is added to
them as a carry. Folding keeps the sum modulo `2 ^ 16 - 1`, and it makes zero of
zero only. So the complement of a folded sum fills the sum up to the greatest
16-bit number, which is how a checksum is verified.
-/

namespace NetworkLabs

namespace OnesComplement

/-- The 16-bit number that is left of a sum when no carry remains. -/
def fold (n : ℕ) : ℕ := if n = 0 then 0 else (n - 1) % 65535 + 1

theorem fold_lt (n : ℕ) : fold n < 2 ^ 16 := by
  rw [fold]
  split_ifs
  · exact Nat.two_pow_pos 16
  · omega

theorem fold_of_lt {n : ℕ} (h : n < 2 ^ 16) : fold n = n := by
  rw [fold]
  split_ifs with hn
  · exact hn.symm
  · omega

/-- Adding the carries once does not change what is left in the end. -/
@[simp] theorem fold_addCarry (n : ℕ) : fold (n / 2 ^ 16 + n % 2 ^ 16) = fold n := by
  rw [fold, fold]
  split_ifs <;> omega

/-- A sum that is short enough is folded by adding its carry. -/
theorem addCarry_mod (n : ℕ) (h : n < 2 ^ 17 - 1) : (n + n / 2 ^ 16) % 2 ^ 16 = fold n := by
  by_cases hshort : n < 2 ^ 16
  · rw [Nat.div_eq_of_lt hshort, Nat.add_zero, Nat.mod_eq_of_lt hshort, fold_of_lt hshort]
  · have hcarry : n / 2 ^ 16 = 1 := by omega
    have hrest : (n - 1) % 65535 = n - 1 - 65535 := by omega
    rw [hcarry, fold, if_neg (by omega), hrest]
    omega

/-- The carries of a sum in a register of 32 bits. -/
theorem toNat_addCarry (sum : UInt32) :
    ((sum >>> 16) + (sum &&& 0xffff)).toNat = sum.toNat / 2 ^ 16 + sum.toNat % 2 ^ 16 := by
  have hlt := sum.toNat_lt
  have hhigh : (sum >>> 16).toNat = sum.toNat / 2 ^ 16 := by
    rw [UInt32.toNat_shiftRight]
    exact Nat.shiftRight_eq_div_pow _ _
  have hlow : (sum &&& 0xffff).toNat = sum.toNat % 2 ^ 16 := by
    rw [UInt32.toNat_and]
    exact Nat.and_two_pow_sub_one_eq_mod _ 16
  rw [UInt32.toNat_add, hhigh, hlow]
  omega

theorem fold_mod (n : ℕ) : fold n % 65535 = n % 65535 := by
  rw [fold]
  split_ifs with hn
  · rw [hn]
  · omega

theorem fold_eq_zero_iff (n : ℕ) : fold n = 0 ↔ n = 0 := by
  by_cases hn : n = 0
  · rw [hn]
    exact iff_of_true rfl rfl
  · rw [fold, if_neg hn]
    exact iff_of_false (Nat.succ_ne_zero _) hn

/-- A sum is full if it is a multiple of the greatest 16-bit number, and not zero. -/
theorem fold_eq_max_iff (n : ℕ) : fold n = 65535 ↔ n ≠ 0 ∧ n % 65535 = 0 := by
  rw [fold]
  split_ifs with hn
  · exact iff_of_false (by decide) fun h => h.1 hn
  · omega

/-- The complement of a sum fills it up. -/
theorem fold_add_complement (n : ℕ) : fold (n + (65535 - fold n)) = 65535 := by
  rw [fold, fold]
  split_ifs <;> omega

end OnesComplement

end NetworkLabs
