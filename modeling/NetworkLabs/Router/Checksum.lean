import NetworkLabs.Library.OnesComplement
import NetworkLabs.Router.Packet

/-!
# The checksum of the router

The checksum is the complement of the folded sum of the 16-bit words of the
buffer. Stored in the header that it was calculated for, with the field cleared,
it makes the checksum of that header vanish.
-/

namespace NetworkLabs

namespace Router

/-- The sum of the 16-bit words of a buffer; an odd byte is a word of its own. -/
def wordSum : List UInt8 → ℕ
  | lo :: hi :: buf => LittleEndian.value [lo, hi] + wordSum buf
  | [last] => last.toNat
  | [] => 0

theorem toNat_addWords (buf : List UInt8) (sum : UInt32) :
    (addWords buf sum).toNat = (sum.toNat + wordSum buf) % 2 ^ 32 := by
  induction buf, sum using addWords.induct with
  | case1 lo hi buf sum ih =>
      have hword : LittleEndian.value [lo, hi] < 256 ^ 2 := LittleEndian.value_lt [lo, hi]
      rw [addWords, ih, wordSum, UInt32.toNat_add, UInt32.toNat_ofNat']
      omega
  | case2 last sum =>
      rw [addWords, wordSum, UInt32.toNat_add, UInt8.toNat_toUInt32]
  | case3 sum =>
      rw [addWords, wordSum, Nat.add_zero, Nat.mod_eq_of_lt sum.toNat_lt]

/-- The words in front and the odd byte at the end. -/
theorem wordSum_take_add (buf : List UInt8) :
    wordSum (buf.take (buf.length / 2 * 2)) +
      (if buf.length % 2 = 1 then (buf.getLastD 0).toNat else 0) = wordSum buf := by
  induction buf using wordSum.induct with
  | case1 lo hi buf ih =>
      have hlength : (lo :: hi :: buf).length / 2 * 2 = buf.length / 2 * 2 + 2 := by
        rw [List.length_cons, List.length_cons]
        omega
      have hodd : (lo :: hi :: buf).length % 2 = buf.length % 2 := by
        rw [List.length_cons, List.length_cons]
        omega
      rw [hlength, hodd, List.take_succ_cons, List.take_succ_cons, wordSum, wordSum, ← ih,
        Nat.add_assoc]
      congr 2
      split_ifs with h
      · cases buf with
        | nil => exact absurd h (by decide)
        | cons b buf => rfl
      · rfl
  | case2 last => simp [wordSum]
  | case3 => rfl

theorem wordSum_append (a b : List UInt8) (h : a.length % 2 = 0) :
    wordSum (a ++ b) = wordSum a + wordSum b := by
  induction a using wordSum.induct with
  | case1 lo hi a ih =>
      have heven : a.length % 2 = 0 := by
        rw [List.length_cons, List.length_cons] at h
        omega
      rw [List.cons_append, List.cons_append, wordSum, wordSum, ih heven, Nat.add_assoc]
  | case2 last => exact absurd h (by simp)
  | case3 => rw [List.nil_append, wordSum, Nat.zero_add]

theorem wordSum_bytes_two {x : ℕ} (h : x < 2 ^ 16) : wordSum (LittleEndian.bytes 2 x) = x := by
  have hvalue := LittleEndian.value_bytes 2 x h
  rw [LittleEndian.bytes, LittleEndian.bytes, LittleEndian.bytes] at hvalue ⊢
  rw [wordSum, wordSum, hvalue, Nat.add_zero]

theorem wordSum_le (buf : List UInt8) : wordSum buf ≤ 65535 * buf.length := by
  induction buf using wordSum.induct with
  | case1 lo hi buf ih =>
      have hword : LittleEndian.value [lo, hi] < 256 ^ 2 := LittleEndian.value_lt [lo, hi]
      rw [wordSum, List.length_cons, List.length_cons]
      omega
  | case2 last =>
      have hlast := last.toNat_lt
      rw [wordSum, List.length_singleton]
      omega
  | case3 => exact Nat.zero_le _

/-- Two folds are enough for every sum. -/
theorem toNat_foldTwice (sum once : UInt32) (h : once = (sum >>> 16) + (sum &&& 0xffff)) :
    (~~~(once + (once >>> 16))).toUInt16.toNat = 65535 - OnesComplement.fold sum.toNat := by
  have hlt := sum.toNat_lt
  have honce : once.toNat = sum.toNat / 2 ^ 16 + sum.toNat % 2 ^ 16 := by
    rw [h, OnesComplement.toNat_addCarry]
  have hcarry : (once >>> 16).toNat = once.toNat / 2 ^ 16 := by
    rw [UInt32.toNat_shiftRight]
    exact Nat.shiftRight_eq_div_pow _ _
  have htwice : (once.toNat + once.toNat / 2 ^ 16) % 2 ^ 16 = OnesComplement.fold sum.toNat := by
    rw [OnesComplement.addCarry_mod _ (by omega), honce, OnesComplement.fold_addCarry]
  rw [UInt32.toNat_toUInt16, UInt32.toNat_not, UInt32.toNat_add, hcarry, ← htwice]
  change (2 ^ 32 - 1 - (once.toNat + once.toNat / 2 ^ 16) % 2 ^ 32) % 2 ^ 16 = _
  omega

theorem toNat_checksum (buf : List UInt8) (sum : UInt32) :
    (checksum buf sum).toNat =
      65535 - OnesComplement.fold ((sum.toNat + wordSum buf) % 2 ^ 32) := by
  have htotal : (addWords (buf.take (buf.length / 2 * 2))
      (if buf.length % 2 = 1 then sum + (buf.getLastD 0).toUInt32 else sum)).toNat =
      (sum.toNat + wordSum buf) % 2 ^ 32 := by
    rw [toNat_addWords, ← wordSum_take_add buf]
    split_ifs
    · rw [UInt32.toNat_add, UInt8.toNat_toUInt32]
      omega
    · rw [Nat.add_zero]
  rw [← htotal]
  exact toNat_foldTwice _ _ rfl

/-- A buffer that is not long is summed without overflow. -/
theorem toNat_checksum_of_le (buf : List UInt8) (h : buf.length ≤ 2 ^ 16) :
    (checksum buf 0).toNat = 65535 - OnesComplement.fold (wordSum buf) := by
  have hle := wordSum_le buf
  have hlt : wordSum buf < 2 ^ 32 := by omega
  rw [toNat_checksum, UInt32.toNat_zero, Nat.zero_add, Nat.mod_eq_of_lt hlt]

/-- A word that is the complement of the rest makes the checksum vanish. -/
theorem checksum_complement (front back : List UInt8) (c : UInt16) (heven : front.length % 2 = 0)
    (hlength : front.length + 2 + back.length ≤ 2 ^ 16)
    (hc : c = checksum (front ++ LittleEndian.bytes 2 0 ++ back) 0) :
    checksum (front ++ LittleEndian.bytes 2 c.toNat ++ back) 0 = 0 := by
  have hsum : ∀ x, x < 2 ^ 16 → wordSum (front ++ LittleEndian.bytes 2 x ++ back) =
      wordSum front + wordSum back + x := by
    intro x hx
    rw [wordSum_append, wordSum_append _ _ heven, wordSum_bytes_two hx]
    · omega
    · rw [List.length_append, LittleEndian.length_bytes]
      omega
  have hle : ∀ x, (front ++ LittleEndian.bytes 2 x ++ back).length ≤ 2 ^ 16 := by
    intro x
    rw [List.length_append, List.length_append, LittleEndian.length_bytes]
    exact hlength
  have hfield : c.toNat = 65535 - OnesComplement.fold (wordSum front + wordSum back) := by
    rw [hc, toNat_checksum_of_le _ (hle 0), hsum 0 (Nat.two_pow_pos 16), Nat.add_zero]
  have hzero := toNat_checksum_of_le _ (hle c.toNat)
  rw [hsum _ c.toNat_lt, hfield, OnesComplement.fold_add_complement, ← hfield] at hzero
  rw [← UInt16.toNat_inj, hzero]
  rfl

namespace Frame

/-- The bytes of the header before and behind the checksum. -/
theorem exists_ipHeader_eq (ip : Iphdr) (options : List UInt8) :
    ∃ front back : List UInt8, front.length = 10 ∧ back.length = 8 + options.length ∧
      ∀ c : UInt16, ({ ip with checksum := c } : Iphdr).bytes ++ options =
        front ++ LittleEndian.bytes 2 c.toNat ++ back := by
  refine ⟨UInt8.ofNat (ip.ihl.toNat + 16 * ip.version.toNat) :: ip.tos ::
      (LittleEndian.bytes 2 ip.totLen.toNat ++ LittleEndian.bytes 2 ip.id.toNat ++
        LittleEndian.bytes 2 ip.fragOff.toNat ++ [ip.ttl, ip.protocol]),
    LittleEndian.bytes 4 ip.saddr.toNat ++ LittleEndian.bytes 4 ip.daddr.toNat ++ options,
    ?_, ?_, ?_⟩
  · simp
  · rw [List.length_append, List.length_append, LittleEndian.length_bytes,
      LittleEndian.length_bytes]
  · intro c
    rw [Iphdr.bytes]
    simp only [List.append_assoc, List.cons_append]

/-- The header of a forwarded packet verifies. -/
theorem checksum_decrementTtl (frame : Frame) : checksum frame.decrementTtl.ipHeader 0 = 0 := by
  obtain ⟨front, back, hfront, hback, hbytes⟩ :=
    exists_ipHeader_eq { frame.ip with ttl := frame.ip.ttl - 1 } frame.options
  have hoptions := frame.options_length
  have hihl := frame.ip.ihl.isLt
  rw [ipHeader, decrementTtl, hbytes]
  apply checksum_complement
  · rw [hfront]
  · omega
  · rw [ipChecksum, hbytes]
    rfl

end Frame

end Router

end NetworkLabs
