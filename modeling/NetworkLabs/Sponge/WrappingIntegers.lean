import NetworkLabs.Sponge.ByteStream

/-!
# Wrapping integers

Sequence numbers on the wire are 32-bit integers that start at an arbitrary
initial number and wrap around. `wrap` is the number on the wire of an absolute
position, and `unwrap` the position near a checkpoint that has a given number;
both follow `wrapping_integers.cc`, with the `int64_t` sum of `unwrap` written
as a balanced remainder.

A position is recovered from its number when the checkpoint is less than half a
turn away, and in the first turn also from checkpoints far below. A number that
stands for a place in front of the position `0` is moved up by a whole turn.
-/

namespace NetworkLabs

/-- A 32-bit number relative to an initial sequence number. -/
structure WrappingInt32 where
  rawValue : UInt32
  deriving DecidableEq

/-- `operator-` on two numbers: the signed distance from `b` to `a`. -/
def WrappingInt32.sub (a b : WrappingInt32) : Int32 := (a.rawValue - b.rawValue).toInt32

/-- The number on the wire of the position `n`. -/
def wrap (n : ℕ) (isn : WrappingInt32) : WrappingInt32 :=
  ⟨UInt32.ofNat n + isn.rawValue⟩

/-- The position with the number `n` that is reached from the checkpoint by the
shorter way; a negative result is moved up by one turn. -/
def unwrap (n isn : WrappingInt32) (checkpoint : ℕ) : ℕ :=
  let offset := (n.sub (wrap checkpoint isn)).toInt
  let ret := Int.bmod (checkpoint + offset) (2 ^ 64)
  if ret < 0 then sizeT (ret + 2 ^ 32) else sizeT ret

theorem wrap_zero (isn : WrappingInt32) : wrap 0 isn = isn := by
  cases isn
  simp [wrap]

/-- The distance of two numbers is the balanced distance of the positions. -/
theorem toInt_sub_wrap (a b : ℕ) (isn : WrappingInt32) :
    ((wrap a isn).sub (wrap b isn)).toInt = Int.bmod (a - b) (2 ^ 32) := by
  have hvec : ((wrap a isn).sub (wrap b isn)).toBitVec =
      BitVec.ofNat 32 a + isn.rawValue.toBitVec -
        (BitVec.ofNat 32 b + isn.rawValue.toBitVec) := rfl
  rw [Int32.toInt, hvec, BitVec.toInt_sub, BitVec.toInt_add, BitVec.toInt_add,
    BitVec.toInt_ofNat', BitVec.toInt_ofNat', Int.bmod_add_bmod, Int.bmod_add_bmod,
    Int.sub_bmod_bmod, Int.bmod_sub_bmod]
  congr 1
  ring

/-- Every number is the number of a position. -/
theorem exists_eq_wrap (n isn : WrappingInt32) : ∃ a, a < 2 ^ 32 ∧ n = wrap a isn := by
  refine ⟨(n.rawValue - isn.rawValue).toNat, UInt32.toNat_lt _, ?_⟩
  cases n
  cases isn
  simp [wrap]

/-- Positions a number of turns apart have the same number. -/
theorem wrap_congr (a b : ℕ) (isn : WrappingInt32) (h : a % 2 ^ 32 = b % 2 ^ 32) :
    wrap a isn = wrap b isn := by
  have hmod : UInt32.ofNat a = UInt32.ofNat b := by
    rw [← UInt32.toNat_inj, UInt32.toNat_ofNat', UInt32.toNat_ofNat', h]
  rw [wrap, wrap, hmod]

/-- Positions less than a turn apart have different numbers. -/
theorem eq_of_wrap_eq (a b : ℕ) (isn : WrappingInt32) (h : wrap a isn = wrap b isn)
    (hab : a ≤ b) (hlt : b < a + 2 ^ 32) : a = b := by
  have hsub := toInt_sub_wrap b a isn
  have hself := toInt_sub_wrap a a isn
  rw [h] at hself
  rw [h, hself, Int.bmod_def, Int.bmod_def] at hsub
  omega

/-- The distance from one position settles the distance from every other. -/
theorem toInt_sub_eq_bmod (n isn : WrappingInt32) (a b : ℕ) :
    (n.sub (wrap b isn)).toInt =
      Int.bmod (a - ((wrap a isn).sub n).toInt - b) (2 ^ 32) := by
  obtain ⟨c, -, rfl⟩ := exists_eq_wrap n isn
  rw [toInt_sub_wrap, toInt_sub_wrap, sub_right_comm, Int.sub_bmod_bmod]
  congr 1
  ring

/-- The result of `unwrap` once the offset leads from the checkpoint to `z`. -/
theorem unwrap_eq_of_offset (n isn : WrappingInt32) (checkpoint : ℕ) (z : ℤ)
    (hoffset : (n.sub (wrap checkpoint isn)).toInt = z - checkpoint)
    (hlo : -2 ^ 31 ≤ z) (hhi : z < 2 ^ 63) :
    (unwrap n isn checkpoint : ℤ) = if z < 0 then z + 2 ^ 32 else z := by
  have hret : Int.bmod (checkpoint + (z - checkpoint)) (2 ^ 64) = z := by
    rw [add_sub_cancel]
    apply Int.bmod_eq_of_le_mul_two
    · push_cast
      omega
    · push_cast
      omega
  rw [unwrap]
  simp only [hoffset, hret]
  split_ifs with hneg
  · rw [sizeT, MachineInt.unsigned_eq_of_natCast_eq 64 (z + 2 ^ 32) (z + 2 ^ 32).toNat
      (by omega) (by omega)]
    omega
  · rw [sizeT, MachineInt.unsigned_eq_of_natCast_eq 64 z z.toNat (by omega) (by omega)]
    omega

/-- The balanced remainder of a distance of less than half a turn. -/
theorem bmod_eq_self (z : ℤ) (hlo : -2 ^ 31 ≤ z) (hhi : z < 2 ^ 31) :
    Int.bmod z (2 ^ 32) = z := by
  apply Int.bmod_eq_of_le_mul_two
  · push_cast
    omega
  · push_cast
    omega

/-- A position less than half a turn from the checkpoint is recovered. -/
theorem unwrap_wrap_of_near (p checkpoint : ℕ) (isn : WrappingInt32)
    (hlo : checkpoint ≤ p + 2 ^ 31) (hhi : p < checkpoint + 2 ^ 31) (hp : p < 2 ^ 63) :
    unwrap (wrap p isn) isn checkpoint = p := by
  have hoffset : ((wrap p isn).sub (wrap checkpoint isn)).toInt = (p : ℤ) - checkpoint := by
    rw [toInt_sub_wrap, bmod_eq_self _ (by omega) (by omega)]
  have h := unwrap_eq_of_offset (wrap p isn) isn checkpoint p hoffset (by omega) (by omega)
  rw [if_neg (by omega)] at h
  exact_mod_cast h

/-- A position in the first turn is recovered from every checkpoint that is not
more than half a turn above it: where the shorter way leads down, it leads to a
negative result, and the turn added to it leads back to the position. -/
theorem unwrap_wrap_of_lt (p checkpoint : ℕ) (isn : WrappingInt32)
    (hlo : checkpoint ≤ p + 2 ^ 31) (hp : p < 2 ^ 32) :
    unwrap (wrap p isn) isn checkpoint = p := by
  by_cases hhi : p < checkpoint + 2 ^ 31
  · exact unwrap_wrap_of_near p checkpoint isn hlo hhi (by omega)
  · have hoffset : ((wrap p isn).sub (wrap checkpoint isn)).toInt =
        (p - 2 ^ 32 : ℤ) - checkpoint := by
      rw [toInt_sub_wrap, Int.bmod_def]
      push_cast
      omega
    have h := unwrap_eq_of_offset _ isn checkpoint _ hoffset (by omega) (by omega)
    rw [if_pos (by omega)] at h
    omega

end NetworkLabs
