import NetworkLabs.AddressTranslation.Checksums
import NetworkLabs.Router.Icmp

/-!
# Two programs, one checksum

The router adds the odd byte first and folds its sum twice. The translator adds the odd
byte last and folds until nothing is left above 16 bits. They calculate the same value,
and what either of them stores in a cleared field makes the checksum of the whole buffer
vanish.
-/

namespace NetworkLabs

namespace Router

/-- The calculated checksum in its field, which was cleared before. -/
theorem checksum_store {buf : List UInt8} {i : ℕ} (heven : i % 2 = 0) (hi : i + 2 ≤ buf.length)
    (hlength : buf.length ≤ 65535) :
    checksum (store buf i (LittleEndian.bytes 2 (checksum (store buf i [0, 0]) 0).toNat)) 0 =
      0 := by
  have hstore : ∀ n, store buf i (LittleEndian.bytes 2 n) =
      buf.take i ++ LittleEndian.bytes 2 n ++ buf.drop (i + 2) := by
    intro n
    rw [store, LittleEndian.length_bytes]
  have hfront : (buf.take i).length = i := by
    rw [List.length_take]
    omega
  rw [hstore]
  apply checksum_complement
  · rw [hfront, heven]
  · rw [hfront, List.length_drop]
    omega
  · rw [← hstore]
    rfl

/-- The checksums of the router and of the translator are the same function, and a field
at an even place that is filled with the checksum of the buffer makes both vanish. -/
theorem checksums_agree_and_verify :
    (∀ (buf : List UInt8) (sum : UInt32), checksum buf sum = NetworkLabs.checksum buf sum) ∧
    ∀ (buf : List UInt8) (i : ℕ), i % 2 = 0 → i + 2 ≤ buf.length → buf.length ≤ 65535 →
      checksum (store buf i (LittleEndian.bytes 2 (checksum (store buf i [0, 0]) 0).toNat)) 0 =
        0 ∧
      NetworkLabs.checksum (store buf i
        (LittleEndian.bytes 2 (NetworkLabs.checksum (store buf i [0, 0]) 0).toNat)) 0 = 0 := by
  refine ⟨fun buf sum => (checksum_eq_router buf sum).symm, fun buf i heven hi hlength => ?_⟩
  rw [checksum_eq_router, checksum_eq_router]
  exact ⟨checksum_store heven hi hlength, checksum_store heven hi hlength⟩

/-- Five bytes with the field in the middle. -/
theorem checksums_agree_and_verify_odd :
    checksum (store [1, 2, 3, 4, 5] 2
        (LittleEndian.bytes 2 (checksum (store [1, 2, 3, 4, 5] 2 [0, 0]) 0).toNat)) 0 = 0 ∧
      NetworkLabs.checksum (store [1, 2, 3, 4, 5] 2 (LittleEndian.bytes 2
        (NetworkLabs.checksum (store [1, 2, 3, 4, 5] 2 [0, 0]) 0).toNat)) 0 = 0 :=
  checksums_agree_and_verify.2 [1, 2, 3, 4, 5] 2 rfl (by decide) (by decide)

end Router

end NetworkLabs
