import Mathlib.Algebra.Order.Ring.Nat
import Mathlib.Tactic.Ring

/-!
# Big-endian bytes

Integers as they travel on a network: the most significant byte comes first. A
reader shifts what it has and adds the next byte; a writer shifts every byte down
and cuts it off.
-/

namespace NetworkLabs

namespace BigEndian

/-- The lowest `n` bytes of an integer. -/
def bytes : ℕ → ℕ → List UInt8
  | 0, _ => []
  | n + 1, x => UInt8.ofNat (x / 256 ^ n) :: bytes n x

/-- The integer that a list of bytes stands for. -/
def value : List UInt8 → ℕ
  | [] => 0
  | b :: l => b.toNat * 256 ^ l.length + value l

@[simp] theorem length_bytes (n x : ℕ) : (bytes n x).length = n := by
  induction n with
  | zero => rfl
  | succ n ih => rw [bytes, List.length_cons, ih]

/-- What lies above the lowest `n` bytes is lost. -/
theorem value_bytes_mod (n x : ℕ) : value (bytes n x) = x % 256 ^ n := by
  induction n with
  | zero => rw [bytes, value, pow_zero, Nat.mod_one]
  | succ n ih =>
      have hbyte : (UInt8.ofNat (x / 256 ^ n)).toNat = x / 256 ^ n % 256 := UInt8.toNat_ofNat'
      rw [bytes, value, length_bytes, ih, hbyte, pow_succ, Nat.mod_mul, add_comm, mul_comm]

theorem value_bytes (n x : ℕ) (h : x < 256 ^ n) : value (bytes n x) = x := by
  rw [value_bytes_mod, Nat.mod_eq_of_lt h]

theorem value_lt (l : List UInt8) : value l < 256 ^ l.length := by
  induction l with
  | nil => exact Nat.one_pos
  | cons b l ih =>
      have hb := b.toNat_lt
      rw [value, List.length_cons, pow_succ']
      have hmul : b.toNat * 256 ^ l.length ≤ 255 * 256 ^ l.length :=
        Nat.mul_le_mul_right _ (by omega)
      omega

/-- The reader of bytes, in a register of `n` bytes. -/
theorem foldl_value (n : ℕ) (l : List UInt8) (x : ℕ) (hx : x < 256 ^ n) :
    l.foldl (fun x b => (x * 256 + b.toNat) % 256 ^ n) x =
      (x * 256 ^ l.length + value l) % 256 ^ n := by
  induction l generalizing x with
  | nil => rw [List.foldl_nil, List.length_nil, pow_zero, mul_one, value, add_zero,
      Nat.mod_eq_of_lt hx]
  | cons b l ih =>
      rw [List.foldl_cons, ih _ (Nat.mod_lt _ (Nat.pow_pos (Nat.succ_pos 255))), Nat.add_mod,
        Nat.mod_mul_mod, ← Nat.add_mod, List.length_cons, value]
      congr 1
      ring

/-- The writer of bytes. -/
theorem bytes_eq_map (n x : ℕ) :
    bytes n x = (List.range n).map fun i => UInt8.ofNat (x / 256 ^ (n - i - 1)) := by
  induction n with
  | zero => rfl
  | succ n ih =>
      rw [bytes, ih, List.range_succ_eq_map, List.map_cons, List.map_map]
      congr 1
      apply List.map_congr_left
      intro i _
      change _ = UInt8.ofNat (x / 256 ^ (n + 1 - (i + 1) - 1))
      rw [Nat.add_sub_add_right]

end BigEndian

end NetworkLabs
