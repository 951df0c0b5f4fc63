import NetworkLabs.Library.BigEndian

/-!
# Reading and writing headers

A `NetParser` reads integers from the front of a buffer. Once the buffer was too
short it reads zeros and leaves the buffer alone. A `NetUnparser` appends integers
to a string. A `BufferList` is what is sent: its pieces are put together by
`concatenate`, and only a list of at most one piece is a buffer.
-/

namespace NetworkLabs

inductive ParseResult where
  | noError
  | badChecksum
  | packetTooShort
  | wrongIPVersion
  | headerTooShort
  | truncatedPacket
  | unsupported
  deriving DecidableEq

/-- A buffer is read from the front, so it is the list of what is left. -/
abbrev Buffer := List UInt8

abbrev BufferList := List Buffer

namespace BufferList

def size (l : BufferList) : ℕ := (l.map List.length).sum

def concatenate (l : BufferList) : Buffer := l.flatten

@[simp] theorem concatenate_cons (buf : Buffer) (l : BufferList) :
    concatenate (buf :: l) = buf ++ concatenate l := List.flatten_cons

@[simp] theorem length_concatenate (l : BufferList) : l.concatenate.length = l.size :=
  List.length_flatten

/-- The conversion to a buffer. -/
def toBuffer : BufferList → Except String Buffer
  | [] => .ok []
  | [buf] => .ok buf
  | _ => .error ("BufferList: please use concatenate() to combine a multi-Buffer " ++
      "BufferList into one Buffer")

end BufferList

structure NetParser where
  buffer : Buffer
  getError : ParseResult := .noError
  deriving DecidableEq

namespace NetParser

def error (p : NetParser) : Bool := p.getError ≠ .noError

def checkSize (p : NetParser) (size : ℕ) : NetParser :=
  if size > p.buffer.length then { p with getError := .packetTooShort } else p

/-- An integer of `len` bytes, in a register of that size. -/
def parseInt (p : NetParser) (len : ℕ) : ℕ × NetParser :=
  let p := p.checkSize len
  if p.error then (0, p)
  else
    let ret := (p.buffer.take len).foldl (fun ret b => (ret * 256 + b.toNat) % 256 ^ len) 0
    (ret, { p with buffer := p.buffer.drop len })

def removePrefix (p : NetParser) (n : ℕ) : NetParser :=
  let p := p.checkSize n
  if p.error then p else { p with buffer := p.buffer.drop n }

def u32 (p : NetParser) : UInt32 × NetParser :=
  let (val, p) := p.parseInt 4
  (UInt32.ofNat val, p)

def u16 (p : NetParser) : UInt16 × NetParser :=
  let (val, p) := p.parseInt 2
  (UInt16.ofNat val, p)

def u8 (p : NetParser) : UInt8 × NetParser :=
  let (val, p) := p.parseInt 1
  (UInt8.ofNat val, p)

end NetParser

namespace NetUnparser

/-- The loop that appends the bytes of an integer, the highest first. -/
def unparseInt (s : List UInt8) (len val : ℕ) : List UInt8 :=
  (List.range len).foldl
    (fun s i => s ++ [UInt8.ofNat ((val >>> ((len - i - 1) * 8)) &&& 0xff)]) s

def u32 (s : List UInt8) (val : UInt32) : List UInt8 := unparseInt s 4 val.toNat

def u16 (s : List UInt8) (val : UInt16) : List UInt8 := unparseInt s 2 val.toNat

def u8 (s : List UInt8) (val : UInt8) : List UInt8 := unparseInt s 1 val.toNat

/-- `std::string::resize`, with zeros at the end. -/
def resize (s : List UInt8) (n : ℕ) : List UInt8 :=
  s.take n ++ List.replicate (n - s.length) 0

theorem resize_of_le {s : List UInt8} {n : ℕ} (h : s.length ≤ n) :
    resize s n = s ++ List.replicate (n - s.length) 0 := by
  rw [resize, List.take_of_length_le h]

end NetUnparser

/-! ## What was written is read -/

namespace NetUnparser

theorem unparseInt_eq (s : List UInt8) (len val : ℕ) :
    unparseInt s len val = s ++ BigEndian.bytes len val := by
  have hbyte : ∀ i, UInt8.ofNat ((val >>> ((len - i - 1) * 8)) &&& 0xff) =
      UInt8.ofNat (val / 256 ^ (len - i - 1)) := by
    intro i
    have hmask : (val >>> ((len - i - 1) * 8)) &&& 0xff = val / 256 ^ (len - i - 1) % 256 := by
      rw [Nat.shiftRight_eq_div_pow, mul_comm, pow_mul]
      exact Nat.and_two_pow_sub_one_eq_mod _ 8
    rw [hmask, ← UInt8.toNat_inj, UInt8.toNat_ofNat', UInt8.toNat_ofNat']
    exact Nat.mod_mod _ 256
  have hfold : ∀ (l : List ℕ) (s : List UInt8), l.foldl
      (fun s i => s ++ [UInt8.ofNat ((val >>> ((len - i - 1) * 8)) &&& 0xff)]) s =
      s ++ l.map fun i => UInt8.ofNat (val / 256 ^ (len - i - 1)) := by
    intro l
    induction l with
    | nil => exact fun s => (List.append_nil s).symm
    | cons i l ih =>
        intro s
        rw [List.foldl_cons, ih, hbyte, List.append_assoc]
        rfl
  rw [unparseInt, hfold, BigEndian.bytes_eq_map]

@[simp] theorem u32_eq (s : List UInt8) (val : UInt32) :
    u32 s val = s ++ BigEndian.bytes 4 val.toNat := unparseInt_eq s 4 _

@[simp] theorem u16_eq (s : List UInt8) (val : UInt16) :
    u16 s val = s ++ BigEndian.bytes 2 val.toNat := unparseInt_eq s 2 _

@[simp] theorem u8_eq (s : List UInt8) (val : UInt8) :
    u8 s val = s ++ BigEndian.bytes 1 val.toNat := unparseInt_eq s 1 _

end NetUnparser

namespace NetParser

@[simp] theorem error_mk (buffer : Buffer) : error ⟨buffer, .noError⟩ = false := rfl

theorem checkSize_of_le {p : NetParser} {size : ℕ} (h : size ≤ p.buffer.length) :
    p.checkSize size = p := if_neg (Nat.not_lt.mpr h)

theorem parseInt_append {len val : ℕ} (h : val < 256 ^ len) (rest : Buffer) :
    parseInt ⟨BigEndian.bytes len val ++ rest, .noError⟩ len = (val, ⟨rest, .noError⟩) := by
  have hlength := BigEndian.length_bytes len val
  have hle : len ≤ (BigEndian.bytes len val ++ rest).length := by
    rw [List.length_append, hlength]
    exact Nat.le_add_right _ _
  have hread : (BigEndian.bytes len val).foldl
      (fun ret b => (ret * 256 + b.toNat) % 256 ^ len) 0 = val := by
    rw [BigEndian.foldl_value _ _ _ (Nat.pow_pos (Nat.succ_pos 255)), zero_mul, zero_add,
      BigEndian.value_bytes _ _ h, Nat.mod_eq_of_lt h]
  rw [parseInt, checkSize_of_le hle]
  simp only [error_mk, Bool.false_eq_true, if_false]
  rw [List.take_left' hlength, List.drop_left' hlength, hread]

@[simp] theorem u32_append (val : UInt32) (rest : Buffer) :
    u32 ⟨BigEndian.bytes 4 val.toNat ++ rest, .noError⟩ = (val, ⟨rest, .noError⟩) := by
  rw [u32, parseInt_append val.toNat_lt]
  simp only [UInt32.ofNat_toNat]

@[simp] theorem u16_append (val : UInt16) (rest : Buffer) :
    u16 ⟨BigEndian.bytes 2 val.toNat ++ rest, .noError⟩ = (val, ⟨rest, .noError⟩) := by
  rw [u16, parseInt_append val.toNat_lt]
  simp only [UInt16.ofNat_toNat]

@[simp] theorem u8_append (val : UInt8) (rest : Buffer) :
    u8 ⟨BigEndian.bytes 1 val.toNat ++ rest, .noError⟩ = (val, ⟨rest, .noError⟩) := by
  rw [u8, parseInt_append val.toNat_lt]
  simp only [UInt8.ofNat_toNat]

theorem removePrefix_append {n : ℕ} {front : Buffer} (h : front.length = n) (rest : Buffer) :
    removePrefix ⟨front ++ rest, .noError⟩ n = ⟨rest, .noError⟩ := by
  have hle : n ≤ (front ++ rest).length := by
    rw [List.length_append, h]
    exact Nat.le_add_right _ _
  rw [removePrefix, checkSize_of_le hle]
  simp only [error_mk, Bool.false_eq_true, if_false]
  rw [List.drop_left' h]

/-! ## Any buffer is read -/

/-- The parser has taken `n` bytes from the front, or has run out of them. -/
structure Reads (p : NetParser) (n : ℕ) (p' : NetParser) : Prop where
  getError_iff : p'.getError = .noError ↔ p.getError = .noError ∧ n ≤ p.buffer.length
  buffer_eq : p'.getError = .noError → p'.buffer = p.buffer.drop n

theorem Reads.trans {p p' p'' : NetParser} {n m : ℕ} (h : Reads p n p') (h' : Reads p' m p'') :
    Reads p (n + m) p'' where
  getError_iff := by
    rw [h'.getError_iff]
    constructor
    · rintro ⟨herror, hle⟩
      obtain ⟨hbefore, hle'⟩ := h.getError_iff.mp herror
      rw [h.buffer_eq herror, List.length_drop] at hle
      exact ⟨hbefore, by omega⟩
    · rintro ⟨hbefore, hle⟩
      have herror := h.getError_iff.mpr ⟨hbefore, by omega⟩
      rw [h.buffer_eq herror, List.length_drop]
      exact ⟨herror, by omega⟩
  buffer_eq := by
    intro herror
    rw [h'.buffer_eq herror, h.buffer_eq (h'.getError_iff.mp herror).1, List.drop_drop]

/-- What was read of a buffer that is long enough. -/
theorem Reads.eq_drop {b : Buffer} {n : ℕ} {p : NetParser} (h : Reads ⟨b, .noError⟩ n p)
    (hn : n ≤ b.length) : p = ⟨b.drop n, .noError⟩ := by
  have herror := h.getError_iff.mpr ⟨rfl, hn⟩
  have hbuffer := h.buffer_eq herror
  cases p
  simp only at herror hbuffer
  rw [herror, hbuffer]

theorem error_eq_false_iff (p : NetParser) : p.error = false ↔ p.getError = .noError := by
  rw [error, decide_eq_false_iff_not, not_not]

/-- The test in front of everything that is read. -/
theorem error_checkSize_iff (p : NetParser) (n : ℕ) : (p.checkSize n).error = false ↔
    p.getError = .noError ∧ n ≤ p.buffer.length := by
  rw [error_eq_false_iff, checkSize]
  split_ifs with hshort
  · exact iff_of_false (by decide) fun h => absurd h.2 (not_le.mpr hshort)
  · exact (and_iff_left (not_lt.mp hshort)).symm

/-- A parser that has failed stays as it is. -/
theorem reads_of_error {p : NetParser} {n : ℕ} (h : ¬ (p.checkSize n).error = false) :
    Reads p n (p.checkSize n) := by
  have herror : (p.checkSize n).getError ≠ .noError := by
    rwa [error_eq_false_iff] at h
  exact ⟨iff_of_false herror (by rwa [error_checkSize_iff] at h), fun h' => absurd h' herror⟩

theorem parseInt_eq {p : NetParser} {len : ℕ} (h : p.getError = .noError)
    (hle : len ≤ p.buffer.length) :
    p.parseInt len = (BigEndian.value (p.buffer.take len), ⟨p.buffer.drop len, .noError⟩) := by
  have hvalue := BigEndian.value_lt (p.buffer.take len)
  rw [List.length_take_of_le hle] at hvalue
  have hfold := BigEndian.foldl_value len (p.buffer.take len) 0
    (Nat.pow_pos (Nat.succ_pos 255))
  rw [zero_mul, zero_add, Nat.mod_eq_of_lt hvalue] at hfold
  have hnone : p.error = false := p.error_eq_false_iff.mpr h
  rw [parseInt, checkSize_of_le hle]
  simp only [hnone, Bool.false_eq_true, if_false, hfold, h]

theorem reads_parseInt (p : NetParser) (len : ℕ) : Reads p len (p.parseInt len).2 := by
  by_cases hread : (p.checkSize len).error = false
  · obtain ⟨h, hle⟩ := (p.error_checkSize_iff len).mp hread
    rw [parseInt_eq h hle]
    exact ⟨iff_of_true rfl ⟨h, hle⟩, fun _ => rfl⟩
  · have hfail := reads_of_error hread
    rw [parseInt]
    simp only [Bool.eq_true_of_not_eq_false hread, if_true]
    exact hfail

theorem reads_u32 (p : NetParser) : Reads p 4 p.u32.2 := reads_parseInt p 4

theorem reads_u16 (p : NetParser) : Reads p 2 p.u16.2 := reads_parseInt p 2

theorem reads_u8 (p : NetParser) : Reads p 1 p.u8.2 := reads_parseInt p 1

theorem reads_removePrefix (p : NetParser) (n : ℕ) : Reads p n (p.removePrefix n) := by
  by_cases hread : (p.checkSize n).error = false
  · obtain ⟨h, hle⟩ := (p.error_checkSize_iff n).mp hread
    rw [removePrefix, checkSize_of_le hle, p.error_eq_false_iff.mpr h]
    exact ⟨iff_of_true h ⟨h, hle⟩, fun _ => rfl⟩
  · have hfail := reads_of_error hread
    rw [removePrefix]
    simp only [Bool.eq_true_of_not_eq_false hread, if_true]
    exact hfail

theorem drop_take_eq (b : Buffer) {n : ℕ} (h : n < b.length) (m : ℕ) :
    (b.drop n).take (m + 1) = b.getD n 0 :: (b.drop (n + 1)).take m := by
  rw [List.drop_eq_getElem_cons h, List.take_succ_cons, List.getD_eq_getElem?_getD,
    List.getElem?_eq_getElem h, Option.getD_some]

/-- The two bytes at a position. -/
theorem toNat_u16 {b : Buffer} {n : ℕ} (h : n + 2 ≤ b.length) :
    (u16 ⟨b.drop n, .noError⟩).1.toNat = (b.getD n 0).toNat * 256 + (b.getD (n + 1) 0).toNat := by
  have hfirst := (b.getD n 0).toNat_lt
  have hsecond := (b.getD (n + 1) 0).toNat_lt
  have hlt : (b.getD n 0).toNat * 256 + (b.getD (n + 1) 0).toNat < 2 ^ 16 := by omega
  rw [u16, parseInt_eq rfl (by rw [List.length_drop]; omega)]
  simp only
  rw [drop_take_eq b (by omega), drop_take_eq b (by omega), List.take_zero, BigEndian.value,
    BigEndian.value, BigEndian.value, List.length_singleton, List.length_nil, pow_one, pow_zero,
    Nat.mul_one, Nat.add_zero]
  exact UInt16.toNat_ofNat_of_lt hlt

/-- The byte at a position. -/
theorem u8_eq {b : Buffer} {n : ℕ} (h : n + 1 ≤ b.length) :
    (u8 ⟨b.drop n, .noError⟩).1 = b.getD n 0 := by
  rw [u8, parseInt_eq rfl (by rw [List.length_drop]; omega)]
  simp only
  rw [drop_take_eq b (by omega), List.take_zero, BigEndian.value, BigEndian.value,
    List.length_nil, pow_zero, Nat.mul_one, Nat.add_zero]
  exact UInt8.ofNat_toNat

end NetParser

end NetworkLabs
