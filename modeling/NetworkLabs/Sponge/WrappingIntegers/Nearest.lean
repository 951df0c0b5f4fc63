import NetworkLabs.Sponge.WrappingIntegers

/-!
# The nearest position with a number

`IsNearest n isn checkpoint r` states the contract of `unwrap`: `r` is a 64-bit
position with the number `n`, and no other such position is closer to the
checkpoint. The sum of `unwrap` is taken as an `int64_t`, so the contract is met
below `2 ^ 63`; in the upper half of the range the sum looks negative and is
moved away by a whole turn, which is the nearest position only when the number
is exactly half a turn away.
-/

namespace NetworkLabs

/-- The contract of `unwrap`. -/
structure IsNearest (n isn : WrappingInt32) (checkpoint r : ℕ) : Prop where
  lt : r < 2 ^ 64
  wrap_eq : wrap r isn = n
  le : ∀ p, p < 2 ^ 64 → wrap p isn = n →
    ((r : ℤ) - checkpoint).natAbs ≤ ((p : ℤ) - checkpoint).natAbs

/-- The positions with a number are those a number of turns away from the place
to which its distance from the checkpoint leads. -/
theorem wrap_eq_iff (n isn : WrappingInt32) (checkpoint p : ℕ) :
    wrap p isn = n ↔
      ((p : ℤ) - (checkpoint + (n.sub (wrap checkpoint isn)).toInt)) % 2 ^ 32 = 0 := by
  obtain ⟨a, -, rfl⟩ := exists_eq_wrap n isn
  rw [toInt_sub_wrap, Int.bmod_def]
  constructor
  · intro h
    have hsub := toInt_sub_wrap p a isn
    have hself := toInt_sub_wrap a a isn
    rw [h, hself, Int.bmod_def, Int.bmod_def] at hsub
    omega
  · intro h
    exact wrap_congr p a isn (by omega)

/-- The offset of `unwrap` is at most half a turn in each direction. -/
theorem toInt_sub_mem (a b : WrappingInt32) :
    -2 ^ 31 ≤ (a.sub b).toInt ∧ (a.sub b).toInt < 2 ^ 31 :=
  ⟨Int32.le_toInt _, Int32.toInt_lt _⟩

/-- The value of `unwrap`, by the place to which the offset leads. -/
theorem unwrap_eq (n isn : WrappingInt32) (checkpoint : ℕ) (z : ℤ)
    (hz : z = checkpoint + (n.sub (wrap checkpoint isn)).toInt) (hlo : -2 ^ 31 ≤ z)
    (hhi : z < 2 ^ 64 + 2 ^ 31) :
    (unwrap n isn checkpoint : ℤ) =
      if z < 0 then z + 2 ^ 32
      else if z < 2 ^ 63 then z
      else if z < 2 ^ 64 then (z + 2 ^ 32) % 2 ^ 64
      else z - 2 ^ 64 := by
  have hret : Int.bmod z (2 ^ 64) = if z < 2 ^ 63 then z else z - 2 ^ 64 := by
    rw [Int.bmod_def]
    push_cast
    omega
  rw [unwrap, ← hz, hret]
  simp only [sizeT, MachineInt.unsigned]
  split_ifs <;> omega

theorem unwrap_lt (n isn : WrappingInt32) (checkpoint : ℕ) :
    unwrap n isn checkpoint < 2 ^ 64 := by
  simp only [unwrap]
  split_ifs
  · exact MachineInt.unsigned_lt 64 _
  · exact MachineInt.unsigned_lt 64 _

/-- The result of `unwrap` has the number, whatever the checkpoint is. -/
theorem wrap_unwrap (n isn : WrappingInt32) (checkpoint : ℕ) (hc : checkpoint < 2 ^ 64) :
    wrap (unwrap n isn checkpoint) isn = n := by
  obtain ⟨hlo, hhi⟩ := toInt_sub_mem n (wrap checkpoint isn)
  have hvalue := unwrap_eq n isn checkpoint _ rfl (by omega) (by omega)
  rw [wrap_eq_iff n isn checkpoint]
  omega

/-- `unwrap` returns the nearest position unless the way to it ends in the upper
half of the range; there a whole turn is added, which does no harm only to a
number half a turn below the checkpoint. -/
theorem unwrap_isNearest_iff (n isn : WrappingInt32) (checkpoint : ℕ)
    (hc : checkpoint < 2 ^ 64) :
    IsNearest n isn checkpoint (unwrap n isn checkpoint) ↔
      checkpoint + (n.sub (wrap checkpoint isn)).toInt < 2 ^ 63 ∨
      ((n.sub (wrap checkpoint isn)).toInt = -2 ^ 31 ∧ checkpoint + 2 ^ 31 < 2 ^ 64) := by
  obtain ⟨hlo, hhi⟩ := toInt_sub_mem n (wrap checkpoint isn)
  have hvalue := unwrap_eq n isn checkpoint _ rfl (by omega) (by omega)
  generalize hoffset : (n.sub (wrap checkpoint isn)).toInt = offset at *
  constructor
  · intro h
    by_contra hout
    -- a position at the end of the shorter way, or a turn below it, is closer
    have hcloser : ∃ p : ℕ, p < 2 ^ 64 ∧ ((p : ℤ) - (checkpoint + offset)) % 2 ^ 32 = 0 ∧
        ((p : ℤ) - checkpoint).natAbs < ((unwrap n isn checkpoint : ℤ) - checkpoint).natAbs := by
      by_cases htop : checkpoint + offset < 2 ^ 64
      · exact ⟨(checkpoint + offset).toNat, by omega, by omega, by omega⟩
      · exact ⟨(checkpoint + offset - 2 ^ 32).toNat, by omega, by omega, by omega⟩
    obtain ⟨p, hp, hmod, hlt⟩ := hcloser
    have hle := h.le p hp ((wrap_eq_iff n isn checkpoint p).mpr (by rw [hoffset]; exact hmod))
    omega
  · intro h
    refine ⟨unwrap_lt n isn checkpoint, wrap_unwrap n isn checkpoint hc, ?_⟩
    intro p hp hwrap
    have hmod := (wrap_eq_iff n isn checkpoint p).mp hwrap
    rw [hoffset] at hmod
    omega

/-- A number behind the end of the first turn, near a checkpoint in the fourth one. -/
theorem unwrap_isNearest_iff_wrapped :
    IsNearest ⟨3⟩ ⟨0xfffffff0⟩ (3 * 2 ^ 32 + 5) (unwrap ⟨3⟩ ⟨0xfffffff0⟩ (3 * 2 ^ 32 + 5)) :=
  (unwrap_isNearest_iff ⟨3⟩ ⟨0xfffffff0⟩ (3 * 2 ^ 32 + 5) (by decide)).mpr (Or.inl (by decide))

/-- From the checkpoint `2 ^ 63` its own number leads a whole turn away. -/
theorem unwrap_not_nearest_at_half :
    ¬ ∀ (n isn : WrappingInt32) (checkpoint : ℕ), checkpoint < 2 ^ 64 →
      wrap (unwrap n isn checkpoint) isn = n ∧
      ∀ p, p < 2 ^ 64 → wrap p isn = n →
        ¬ ((p : ℤ) - checkpoint).natAbs <
          ((unwrap n isn checkpoint : ℤ) - checkpoint).natAbs := by
  intro h
  have hnear := (h ⟨0⟩ ⟨0⟩ (2 ^ 63) (by decide)).2 (2 ^ 63) (by decide) (by decide)
  exact hnear (by decide)

end NetworkLabs
