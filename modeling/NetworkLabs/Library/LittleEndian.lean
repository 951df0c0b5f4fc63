import Mathlib.Algebra.Order.Ring.Nat
import Mathlib.Tactic.Ring

/-!
# Little-endian bytes

Integers as they lie in the memory of a little-endian machine: the least
significant byte comes first. Reading back what was stored gives the integer,
and reversing the bytes in between is the conversion between the byte orders of
host and network.
-/

namespace NetworkLabs

namespace LittleEndian

/-- The lowest `n` bytes of an integer. -/
def bytes : ℕ → ℕ → List UInt8
  | 0, _ => []
  | n + 1, x => UInt8.ofNat x :: bytes n (x / 256)

/-- The integer that a list of bytes stands for. -/
def value : List UInt8 → ℕ
  | [] => 0
  | b :: l => b.toNat + 256 * value l

@[simp] theorem length_bytes (n x : ℕ) : (bytes n x).length = n := by
  induction n generalizing x with
  | zero => rfl
  | succ n ih => rw [bytes, List.length_cons, ih]

theorem value_lt (l : List UInt8) : value l < 256 ^ l.length := by
  induction l with
  | nil => exact Nat.one_pos
  | cons b l ih =>
      have hb := b.toNat_lt
      rw [value, List.length_cons, pow_succ]
      omega

theorem value_bytes (n x : ℕ) (h : x < 256 ^ n) : value (bytes n x) = x := by
  induction n generalizing x with
  | zero =>
      rw [pow_zero] at h
      exact (Nat.lt_one_iff.mp h).symm
  | succ n ih =>
      have hdiv : x / 256 < 256 ^ n := by
        rw [pow_succ] at h
        exact Nat.div_lt_of_lt_mul (by rwa [mul_comm])
      rw [bytes, value, ih _ hdiv, UInt8.toNat_ofNat']
      omega

theorem bytes_value (l : List UInt8) : bytes l.length (value l) = l := by
  induction l with
  | nil => rfl
  | cons b l ih =>
      have hb := b.toNat_lt
      have hlow : UInt8.ofNat (value (b :: l)) = b := by
        rw [← UInt8.toNat_inj, UInt8.toNat_ofNat', value]
        omega
      have hrest : value (b :: l) / 256 = value l := by
        rw [value]
        omega
      rw [List.length_cons, bytes, hlow, hrest, ih]

/-- The integer with the lowest `n` bytes in the other order. -/
def swap (n x : ℕ) : ℕ := value (bytes n x).reverse

theorem swap_lt (n x : ℕ) : swap n x < 256 ^ n := by
  have h := value_lt (bytes n x).reverse
  rwa [List.length_reverse, length_bytes] at h

theorem swap_swap (n x : ℕ) (h : x < 256 ^ n) : swap n (swap n x) = x := by
  have hbytes : bytes n (value (bytes n x).reverse) = (bytes n x).reverse := by
    have hround := bytes_value (bytes n x).reverse
    rwa [List.length_reverse, length_bytes] at hround
  rw [swap, swap, hbytes, List.reverse_reverse, value_bytes n x h]

end LittleEndian

end NetworkLabs
