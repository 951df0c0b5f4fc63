import Mathlib.Data.List.Induction
import NetworkLabs.Library.OnesComplement
import NetworkLabs.Sponge.Wire.Parser

/-!
# The checksum of the Internet protocols

The bytes are added one by one, every other one in the upper half of a word, and
the parity is kept from one piece of data to the next. The value is the complement
of the sum without its carries. What fills a cleared field of the data with that
value has the value zero.
-/

namespace NetworkLabs

structure InternetChecksum where
  sum : UInt32 := 0
  parity : Bool := false
  deriving DecidableEq

namespace InternetChecksum

/-- One round of the loop in `add`. -/
def addByte (check : InternetChecksum) (byte : UInt8) : InternetChecksum where
  sum :=
    let val := byte.toUInt16
    let val := if !check.parity then val <<< 8 else val
    check.sum + val.toUInt32
  parity := !check.parity

def add (check : InternetChecksum) (data : List UInt8) : InternetChecksum :=
  data.foldl addByte check

/-- The loop that adds the carries. -/
def addCarries (ret : UInt32) : UInt32 :=
  if ret > 0xffff then addCarries ((ret >>> 16) + (ret &&& 0xffff)) else ret
termination_by ret.toNat
decreasing_by
  rename_i hlong
  have hlt : 0xffff < ret.toNat := hlong
  rw [OnesComplement.toNat_addCarry]
  omega

def value (check : InternetChecksum) : UInt16 := (~~~(addCarries check.sum)).toUInt16

/-! ## Sums of words -/

/-- The sum of the words of the data; `parity` says that a word is begun. -/
def wordSum : Bool → List UInt8 → ℕ
  | _, [] => 0
  | parity, b :: data => (if parity then b.toNat else b.toNat * 256) + wordSum (!parity) data

theorem wordSum_append (parity : Bool) (l m : List UInt8) (h : l.length % 2 = 0) :
    wordSum parity (l ++ m) = wordSum parity l + wordSum parity m := by
  induction l using List.twoStepInduction generalizing parity with
  | nil => exact (Nat.zero_add _).symm
  | singleton b => exact absurd h (by simp)
  | cons_cons b b' l ih _ =>
      have heven : l.length % 2 = 0 := by
        rw [List.length_cons, List.length_cons] at h
        omega
      rw [List.cons_append, List.cons_append, wordSum, wordSum, wordSum, wordSum, Bool.not_not,
        ih parity heven]
      omega

theorem wordSum_le (parity : Bool) (l : List UInt8) : wordSum parity l ≤ 65280 * l.length := by
  induction l generalizing parity with
  | nil => exact Nat.zero_le _
  | cons b l ih =>
      have hb := b.toNat_lt
      have hrest := ih (!parity)
      rw [wordSum, List.length_cons]
      split_ifs
      · omega
      · omega

/-- A field of 16 bits is one word. -/
theorem wordSum_bytes (x : UInt16) : wordSum false (BigEndian.bytes 2 x.toNat) = x.toNat := by
  have hvalue := BigEndian.value_bytes 2 x.toNat x.toNat_lt
  rw [BigEndian.bytes, BigEndian.bytes, BigEndian.bytes] at hvalue ⊢
  rw [BigEndian.value, BigEndian.value, BigEndian.value] at hvalue
  rw [wordSum, wordSum, wordSum]
  simpa using hvalue

theorem toNat_sum_addByte (check : InternetChecksum) (byte : UInt8) :
    (check.addByte byte).sum.toNat =
      (check.sum.toNat + if check.parity then byte.toNat else byte.toNat * 256) % 2 ^ 32 := by
  have hlt := byte.toNat_lt
  have hval : (byte.toUInt16 <<< 8).toUInt32.toNat = byte.toNat * 256 := by
    rw [UInt16.toNat_toUInt32, UInt16.toNat_shiftLeft, UInt8.toNat_toUInt16]
    change byte.toNat <<< 8 % 2 ^ 16 = _
    rw [Nat.shiftLeft_eq]
    omega
  rw [addByte, UInt32.toNat_add]
  cases check.parity with
  | true => rfl
  | false => exact congrArg (fun val => (check.sum.toNat + val) % 2 ^ 32) hval

theorem toNat_sum_add (check : InternetChecksum) (data : List UInt8) :
    (check.add data).sum.toNat =
      (check.sum.toNat + wordSum check.parity data) % 2 ^ 32 := by
  induction data generalizing check with
  | nil => exact (Nat.mod_eq_of_lt check.sum.toNat_lt).symm
  | cons b data ih =>
      change ((check.addByte b).add data).sum.toNat = _
      rw [ih, toNat_sum_addByte, wordSum]
      change (_ % 2 ^ 32 + wordSum (!check.parity) data) % 2 ^ 32 = _
      omega

theorem add_append (check : InternetChecksum) (l m : List UInt8) :
    (check.add l).add m = check.add (l ++ m) :=
  (List.foldl_append ..).symm

/-! ## The value -/

theorem toNat_addCarries (ret : UInt32) :
    (addCarries ret).toNat = OnesComplement.fold ret.toNat := by
  induction ret using addCarries.induct with
  | case1 ret hlong ih =>
      rw [addCarries, if_pos hlong, ih, OnesComplement.toNat_addCarry,
        OnesComplement.fold_addCarry]
  | case2 ret hshort =>
      have hle : ret.toNat ≤ 0xffff := Nat.not_lt.mp hshort
      rw [addCarries, if_neg hshort, OnesComplement.fold_of_lt (Nat.lt_succ_of_le hle)]

theorem toNat_value (check : InternetChecksum) :
    check.value.toNat = 65535 - OnesComplement.fold check.sum.toNat := by
  have hlt := OnesComplement.fold_lt check.sum.toNat
  rw [value, UInt32.toNat_toUInt16, UInt32.toNat_not, toNat_addCarries]
  change (2 ^ 32 - 1 - _) % 2 ^ 16 = _
  omega

/-- Data that is not long is summed without overflow. -/
theorem toNat_value_add (initialSum : UInt32) (data : List UInt8)
    (h : initialSum.toNat + 65280 * data.length < 2 ^ 32) :
    (add { sum := initialSum } data).value.toNat =
      65535 - OnesComplement.fold (initialSum.toNat + wordSum false data) := by
  have hle := wordSum_le false data
  have hlt : initialSum.toNat + wordSum false data < 2 ^ 32 := by omega
  rw [toNat_value, toNat_sum_add]
  simp only
  rw [Nat.mod_eq_of_lt hlt]

/-- The value vanishes when the sum is filled up. -/
theorem value_add_eq_zero_iff (initialSum : UInt32) (data : List UInt8)
    (h : initialSum.toNat + 65280 * data.length < 2 ^ 32) :
    (add { sum := initialSum } data).value = 0 ↔
      OnesComplement.fold (initialSum.toNat + wordSum false data) = 65535 := by
  have hlt := OnesComplement.fold_lt (initialSum.toNat + wordSum false data)
  have hvalue := toNat_value_add initialSum data h
  have hzero : (0 : UInt16).toNat = 0 := rfl
  rw [← UInt16.toNat_inj, hvalue, hzero]
  omega

/-- The value fills a cleared field of the data up. -/
theorem value_complement (initialSum : UInt32) (front back : List UInt8) (cksum : UInt16)
    (heven : front.length % 2 = 0)
    (hlength : initialSum.toNat + 65280 * (front.length + 2 + back.length) < 2 ^ 32)
    (hcksum : cksum =
      (add { sum := initialSum } (front ++ BigEndian.bytes 2 0 ++ back)).value) :
    (add { sum := initialSum } (front ++ BigEndian.bytes 2 cksum.toNat ++ back)).value = 0 := by
  have hsum : ∀ x : UInt16, wordSum false (front ++ BigEndian.bytes 2 x.toNat ++ back) =
      wordSum false front + wordSum false back + x.toNat := by
    intro x
    rw [wordSum_append, wordSum_append _ _ _ heven, wordSum_bytes]
    · omega
    · rw [List.length_append, BigEndian.length_bytes]
      omega
  have hle : ∀ x, initialSum.toNat +
      65280 * (front ++ BigEndian.bytes 2 x ++ back).length < 2 ^ 32 := by
    intro x
    rw [List.length_append, List.length_append, BigEndian.length_bytes]
    exact hlength
  have hfield : cksum.toNat = 65535 - OnesComplement.fold
      (initialSum.toNat + (wordSum false front + wordSum false back)) := by
    have hempty := hsum 0
    rw [UInt16.toNat_zero, Nat.add_zero] at hempty
    rw [hcksum, toNat_value_add _ _ (hle 0), hempty]
  have hvalue := toNat_value_add initialSum _ (hle cksum.toNat)
  rw [hsum, ← Nat.add_assoc, hfield, OnesComplement.fold_add_complement, ← hfield] at hvalue
  rw [← UInt16.toNat_inj, hvalue]
  rfl

end InternetChecksum

end NetworkLabs
