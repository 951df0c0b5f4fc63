import NetworkLabs.Library.MachineInt
import NetworkLabs.Library.BoundedFifo

/-!
# The byte stream

`ByteStream` is the ring buffer of `byte_stream.cc`. Its two cursors are `int`s
that only ever grow, the buffer size is a difference of the cursors taken in
`size_t`, and a position of the buffer is a cursor reduced modulo the capacity.
The conversions of the C++ code are written out, so a cursor that leaves the
range of `int` wraps around here.

`Refines s q` relates a stream to the bounded queue it implements. As long as
the bytes ever written and the capacity stay below `2 ^ 31` together, every
operation of the stream is the operation of the queue.
-/

namespace NetworkLabs

/-- Storing a value in a `size_t` or a `uint64_t`. -/
abbrev sizeT : ℤ → ℕ := MachineInt.unsigned 64

theorem sizeT_add (a b : ℕ) (h : a + b < 2 ^ 64) : sizeT (a + b) = a + b :=
  MachineInt.unsigned_eq_of_natCast_eq 64 _ _ (Nat.cast_add a b).symm h

theorem sizeT_add_eq_mod (a b : ℕ) : sizeT (a + b) = (a + b) % 2 ^ 64 := by
  rw [← Nat.cast_add]
  exact MachineInt.unsigned_natCast_eq_mod 64 (a + b)

/-- The members of the class `ByteStream`. -/
structure ByteStream where
  data : List UInt8
  isEnd : Bool
  beginCursor : Int32
  endCursor : Int32
  writeCnt : ℕ
  readCnt : ℕ
  capacity : ℕ
  error : Bool
  deriving DecidableEq

namespace ByteStream

/-- The constructor. The reserved storage is written before it is read, so its
first contents do not matter. -/
def new (capacity : ℕ) : ByteStream where
  data := List.replicate capacity 0
  isEnd := false
  beginCursor := 0
  endCursor := Int32.ofInt capacity
  writeCnt := 0
  readCnt := 0
  capacity := capacity
  error := false

def bufferSize (s : ByteStream) : ℕ :=
  sizeT (s.beginCursor.toInt - (s.endCursor.toInt - s.capacity))

def bufferEmpty (s : ByteStream) : Bool := s.bufferSize == 0

def remainingCapacity (s : ByteStream) : ℕ := sizeT (s.capacity - s.bufferSize)

def inputEnded (s : ByteStream) : Bool := s.isEnd

def eof (s : ByteStream) : Bool := s.isEnd && s.bufferEmpty

def bytesWritten (s : ByteStream) : ℕ := s.writeCnt

def bytesRead (s : ByteStream) : ℕ := s.readCnt

/-- The number of rounds of `for (i = first; i < first + size; i++)`. -/
def rounds (first size : Int32) : ℕ := ((first + size).toInt - first.toInt).toNat

/-- The loop of `write`, with the cursor in `i`. -/
def writeLoop (capacity : ℕ) : ℤ → List UInt8 → List UInt8 → List UInt8
  | _, [], data => data
  | i, b :: bytes, data =>
      writeLoop capacity (i + 1) bytes (data.set (sizeT i % capacity) b)

def write (s : ByteStream) (data : List UInt8) : ByteStream × ℕ :=
  let writeSize := Int32.ofInt (min data.length s.remainingCapacity : ℕ)
  ({ s with
      data := writeLoop s.capacity s.beginCursor.toInt
        (data.take (rounds s.beginCursor writeSize)) s.data
      beginCursor := s.beginCursor + writeSize
      writeCnt := sizeT (s.writeCnt + writeSize.toInt) }, sizeT writeSize.toInt)

/-- The loop of `peek_output` and `read`, with the cursor in `i`. -/
def readLoop (data : List UInt8) (capacity : ℕ) : ℤ → ℕ → List UInt8
  | _, 0 => []
  | i, n + 1 => data.getD (sizeT i % capacity) 0 :: readLoop data capacity (i + 1) n

def peekOutput (s : ByteStream) (len : ℕ) : List UInt8 :=
  let peekSize := Int32.ofInt (min s.bufferSize len : ℕ)
  readLoop s.data s.capacity s.endCursor.toInt (rounds s.endCursor peekSize)

def popOutput (s : ByteStream) (len : ℕ) : ByteStream :=
  let popSize := Int32.ofInt (min s.bufferSize len : ℕ)
  { s with
    endCursor := s.endCursor + popSize
    readCnt := sizeT (s.readCnt + popSize.toInt) }

/-- `read` has the loop of `peek_output` and the cursor update of
`pop_output`. -/
def read (s : ByteStream) (len : ℕ) : ByteStream × List UInt8 :=
  (s.popOutput len, s.peekOutput len)

def endInput (s : ByteStream) : ByteStream := { s with isEnd := true }

def setError (s : ByteStream) : ByteStream := { s with error := true }

@[simp] theorem isEnd_write (s : ByteStream) (d : List UInt8) :
    (s.write d).1.isEnd = s.isEnd := rfl

@[simp] theorem length_readLoop (data : List UInt8) (capacity : ℕ) (i : ℤ) (n : ℕ) :
    (readLoop data capacity i n).length = n := by
  induction n generalizing i with
  | zero => rfl
  | succ n ih => simp [readLoop, ih]

/-- A reader is never handed more than it asked for, wherever the cursors
are. -/
theorem length_peekOutput_le (s : ByteStream) (n : ℕ) (hn : n < 2 ^ 31) :
    (s.peekOutput n).length ≤ n := by
  have hsize : (Int32.ofInt (min s.bufferSize n : ℕ)).toInt = (min s.bufferSize n : ℕ) :=
    MachineInt.toInt_ofInt_natCast _ (by omega)
  have hle := MachineInt.toInt_add_sub_le s.endCursor
    (Int32.ofInt (min s.bufferSize n : ℕ)) (by omega)
  rw [peekOutput, length_readLoop, rounds]
  omega

/-- A loop whose cursor stays inside the range makes `size` rounds. -/
theorem rounds_of_mem (first size : Int32) (n : ℕ) (hsize : size.toInt = n)
    (hlo : 0 ≤ first.toInt) (hhi : first.toInt + n < 2 ^ 31) : rounds first size = n := by
  rw [rounds, MachineInt.toInt_add_of_mem first size (by omega) (by omega), hsize]
  omega

/-! ## The queue behind the ring -/

/-- The `int` by which `write` moves its cursor. -/
def writeSize (s : ByteStream) (data : List UInt8) : Int32 :=
  Int32.ofInt (min data.length s.remainingCapacity : ℕ)

/-- The `int` by which `pop_output` and `read` move theirs. -/
def popSize (s : ByteStream) (len : ℕ) : Int32 :=
  Int32.ofInt (min s.bufferSize len : ℕ)

/-- The cursors of the stream count what was written to the queue `q` and read
from it. The second cursor starts at the capacity, so it is the one that leaves
the range of `int` first. -/
structure Counts (s : ByteStream) (q : BoundedFifo UInt8) : Prop where
  capacity_eq : s.capacity = q.capacity
  writeCnt_eq : s.writeCnt = q.written.length
  readCnt_eq : s.readCnt = q.readCount
  begin_eq : s.beginCursor.toInt = q.written.length
  end_eq : s.endCursor.toInt = q.capacity + q.readCount
  end_lt : q.capacity + q.readCount < 2 ^ 31

namespace Counts

variable {s : ByteStream} {q : BoundedFifo UInt8}

theorem bufferSize_eq (h : Counts s q) : s.bufferSize = q.size := by
  have hsize := q.size_add_readCount
  have hle := q.size_le
  have hlt := h.end_lt
  apply MachineInt.unsigned_eq_of_natCast_eq
  · rw [h.begin_eq, h.end_eq, h.capacity_eq]
    omega
  · omega

theorem remainingCapacity_eq (h : Counts s q) : s.remainingCapacity = q.room := by
  have hroom := q.room_add_size
  have hlt := h.end_lt
  apply MachineInt.unsigned_eq_of_natCast_eq
  · rw [h.capacity_eq, h.bufferSize_eq]
    omega
  · omega

theorem writeSize_eq (h : Counts s q) (d : List UInt8) :
    (Int32.ofInt (min d.length s.remainingCapacity : ℕ)).toInt = (min d.length q.room : ℕ) := by
  have hroom := q.room_add_size
  have hlt := h.end_lt
  rw [h.remainingCapacity_eq]
  exact MachineInt.toInt_ofInt_natCast _ (by omega)

theorem readSize_eq (h : Counts s q) (n : ℕ) :
    (Int32.ofInt (min s.bufferSize n : ℕ)).toInt = (min q.size n : ℕ) := by
  have hle := q.size_le
  have hlt := h.end_lt
  rw [h.bufferSize_eq]
  exact MachineInt.toInt_ofInt_natCast _ (by omega)

/-- A writer never overtakes the cursor of the reader, so its own cursor stays in
the range. -/
theorem toInt_begin_add (h : Counts s q) (data : List UInt8) :
    (s.beginCursor + s.writeSize data).toInt =
      s.beginCursor.toInt + (s.writeSize data).toInt := by
  have hsize : (s.writeSize data).toInt = (min data.length q.room : ℕ) := h.writeSize_eq data
  have hroom := q.room_add_size
  have hread := q.size_add_readCount
  have hlt := h.end_lt
  have hbegin := h.begin_eq
  exact MachineInt.toInt_add_of_mem _ _ (by omega) (by omega)

theorem write (h : Counts s q) (data : List UInt8) : Counts (s.write data).1 (q.push data) := by
  have hsize : (s.writeSize data).toInt = (min data.length q.room : ℕ) := h.writeSize_eq data
  have hroom := q.room_add_size
  have hread := q.size_add_readCount
  have hlt := h.end_lt
  exact {
    capacity_eq := h.capacity_eq
    writeCnt_eq := by
      rw [BoundedFifo.length_written_push]
      apply MachineInt.unsigned_eq_of_natCast_eq
      · rw [h.writeSize_eq, h.writeCnt_eq]
        push_cast
        rfl
      · omega
    readCnt_eq := h.readCnt_eq
    begin_eq := by
      rw [BoundedFifo.length_written_push]
      change (s.beginCursor + s.writeSize data).toInt = _
      rw [h.toInt_begin_add data, hsize, h.begin_eq]
      push_cast
      rfl
    end_eq := h.end_eq
    end_lt := h.end_lt }

theorem write_snd (h : Counts s q) (data : List UInt8) :
    (s.write data).2 = min data.length q.room := by
  have hroom := q.room_add_size
  have hlt := h.end_lt
  exact MachineInt.unsigned_eq_of_natCast_eq 64 _ _ (h.writeSize_eq data) (by omega)

/-- The cursor of a reader overflows when the bytes it has taken reach the end of
the range. -/
theorem noOverflow_pop_iff (h : Counts s q) (len : ℕ) :
    (s.endCursor + s.popSize len).toInt = s.endCursor.toInt + (s.popSize len).toInt ↔
      q.capacity + (q.pop len).readCount < 2 ^ 31 := by
  have hsize : (s.popSize len).toInt = (min q.size len : ℕ) := h.readSize_eq len
  have hend := h.end_eq
  have hmax := (s.endCursor + s.popSize len).toInt_lt
  rw [BoundedFifo.readCount_pop]
  constructor
  · intro heq
    omega
  · intro hlt
    exact MachineInt.toInt_add_of_mem _ _ (by omega) (by omega)

/-- What was read is counted, whether the cursor overflows or not. -/
theorem readCnt_popOutput (h : Counts s q) (len : ℕ) :
    (s.popOutput len).readCnt = (q.pop len).readCount := by
  have hle := q.size_le
  have hlt := h.end_lt
  rw [BoundedFifo.readCount_pop]
  apply MachineInt.unsigned_eq_of_natCast_eq
  · rw [h.readSize_eq, h.readCnt_eq]
    push_cast
    rfl
  · omega

theorem popOutput (h : Counts s q) (len : ℕ)
    (hlt : q.capacity + (q.pop len).readCount < 2 ^ 31) :
    Counts (s.popOutput len) (q.pop len) := by
  have hsize : (s.popSize len).toInt = (min q.size len : ℕ) := h.readSize_eq len
  have hadd := (h.noOverflow_pop_iff len).mpr hlt
  exact {
    capacity_eq := h.capacity_eq
    writeCnt_eq := h.writeCnt_eq
    readCnt_eq := h.readCnt_popOutput len
    begin_eq := h.begin_eq
    end_eq := by
      change (s.endCursor + s.popSize len).toInt = _
      rw [hadd, hsize, h.end_eq, BoundedFifo.readCount_pop, BoundedFifo.capacity_pop]
      push_cast
      ring
    end_lt := hlt }

end Counts

theorem counts_new (capacity : ℕ) (h : capacity < 2 ^ 31) :
    Counts (new capacity) (BoundedFifo.empty capacity) where
  capacity_eq := rfl
  writeCnt_eq := rfl
  readCnt_eq := rfl
  begin_eq := rfl
  end_eq := by
    rw [new, MachineInt.toInt_ofInt_natCast capacity h]
    simp
  end_lt := h

/-- The stream `s` stores the queue `q`: the cursors count the bytes written
and read, and the byte number `j` that is still queued stands at `j` modulo the
capacity. -/
structure Refines (s : ByteStream) (q : BoundedFifo UInt8) : Prop where
  capacity_eq : s.capacity = q.capacity
  writeCnt_eq : s.writeCnt = q.written.length
  readCnt_eq : s.readCnt = q.readCount
  begin_eq : s.beginCursor.toInt = q.written.length
  end_eq : s.endCursor.toInt = q.capacity + q.readCount
  bound : q.written.length + q.capacity < 2 ^ 31
  length_eq : s.data.length = q.capacity
  cells : ∀ j, q.readCount ≤ j → j < q.written.length →
    s.data[j % q.capacity]? = q.written[j]?

namespace Refines

variable {s : ByteStream} {q : BoundedFifo UInt8}

theorem counts (h : Refines s q) : Counts s q where
  capacity_eq := h.capacity_eq
  writeCnt_eq := h.writeCnt_eq
  readCnt_eq := h.readCnt_eq
  begin_eq := h.begin_eq
  end_eq := h.end_eq
  end_lt := by
    have hbound := h.bound
    have hread := q.readCount_le
    omega

/-- The cursors of a stream that stores a queue, and the rest. -/
theorem of_counts (h : Counts s q) (hbound : q.written.length + q.capacity < 2 ^ 31)
    (hlength : s.data.length = q.capacity)
    (hcells : ∀ j, q.readCount ≤ j → j < q.written.length →
      s.data[j % q.capacity]? = q.written[j]?) : Refines s q where
  capacity_eq := h.capacity_eq
  writeCnt_eq := h.writeCnt_eq
  readCnt_eq := h.readCnt_eq
  begin_eq := h.begin_eq
  end_eq := h.end_eq
  bound := hbound
  length_eq := hlength
  cells := hcells

theorem bufferSize_eq (h : Refines s q) : s.bufferSize = q.size :=
  h.counts.bufferSize_eq

theorem remainingCapacity_eq (h : Refines s q) : s.remainingCapacity = q.room :=
  h.counts.remainingCapacity_eq

theorem bytesWritten_eq (h : Refines s q) : s.bytesWritten = q.written.length :=
  h.writeCnt_eq

theorem bytesRead_eq (h : Refines s q) : s.bytesRead = q.readCount :=
  h.readCnt_eq

theorem eof_iff (h : Refines s q) :
    s.eof = true ↔ s.isEnd = true ∧ q.readCount = q.written.length := by
  have hsize := q.size_add_readCount
  simp only [eof, bufferEmpty, h.bufferSize_eq, Bool.and_eq_true, beq_iff_eq]
  constructor
  · rintro ⟨hend, h0⟩
    exact ⟨hend, by omega⟩
  · rintro ⟨hend, h0⟩
    exact ⟨hend, by omega⟩

theorem endInput (h : Refines s q) : Refines s.endInput q := { h with }

theorem setError (h : Refines s q) : Refines s.setError q := { h with }

end Refines

theorem new_refines (capacity : ℕ) (h : capacity < 2 ^ 31) :
    Refines (new capacity) (BoundedFifo.empty capacity) := by
  apply Refines.of_counts (counts_new capacity h)
  · simpa using h
  · simp [new]
  · simp

/-! ## Writing -/

@[simp] theorem length_writeLoop (capacity : ℕ) (i : ℤ) (bytes data : List UInt8) :
    (writeLoop capacity i bytes data).length = data.length := by
  induction bytes generalizing i data with
  | nil => rfl
  | cons b bytes ih => simp [writeLoop, ih]

/-- A cell that the cursor does not visit keeps its byte. -/
theorem getElem?_writeLoop_of_ne (capacity w p : ℕ) (bytes data : List UInt8)
    (hw : w + bytes.length < 2 ^ 31)
    (hp : ∀ t, t < bytes.length → (w + t) % capacity ≠ p) :
    (writeLoop capacity w bytes data)[p]? = data[p]? := by
  induction bytes generalizing w data with
  | nil => rfl
  | cons b bytes ih =>
      rw [List.length_cons] at hw
      have hhead : w % capacity ≠ p := hp 0 (by simp)
      have htail : ∀ t, t < bytes.length → (w + 1 + t) % capacity ≠ p := by
        intro t ht
        have hnext := hp (t + 1) (by simpa using ht)
        rwa [show w + (t + 1) = w + 1 + t by omega] at hnext
      have hcursor : ((w : ℤ) + 1) = (w + 1 : ℕ) := by omega
      rw [writeLoop, hcursor, ih (w + 1) _ (by omega) htail,
        sizeT, MachineInt.unsigned_natCast 64 w (by omega), List.getElem?_set_ne hhead]

/-- Two positions less than one turn apart are different cells. -/
theorem mod_ne_of_lt (capacity i j : ℕ) (hij : i < j) (hj : j < i + capacity) :
    i % capacity ≠ j % capacity := by
  intro heq
  have hmod : (j - i) % capacity = 0 := Nat.sub_mod_eq_zero_of_mod_eq heq.symm
  rw [Nat.mod_eq_of_lt (by omega)] at hmod
  omega

/-- The byte number `t` of the written ones is found where the cursor was when
it was written. -/
theorem getElem?_writeLoop_of_lt (capacity w t : ℕ) (bytes data : List UInt8)
    (hw : w + bytes.length < 2 ^ 31) (hlen : bytes.length ≤ capacity)
    (hdata : data.length = capacity) (ht : t < bytes.length) :
    (writeLoop capacity w bytes data)[(w + t) % capacity]? = bytes[t]? := by
  induction bytes generalizing w data t with
  | nil => simp at ht
  | cons b bytes ih =>
      rw [List.length_cons] at hw hlen ht
      have hcursor : ((w : ℤ) + 1) = (w + 1 : ℕ) := by omega
      rw [writeLoop, hcursor, sizeT, MachineInt.unsigned_natCast 64 w (by omega)]
      cases t with
      | zero =>
          have hcell : w % capacity < capacity := Nat.mod_lt _ (by omega)
          simp only [Nat.add_zero, List.getElem?_cons_zero]
          rw [getElem?_writeLoop_of_ne capacity (w + 1) _ bytes _ (by omega)]
          · exact List.getElem?_set_self (by omega)
          · intro u hu
            exact (mod_ne_of_lt capacity w (w + 1 + u) (by omega) (by omega)).symm
      | succ t =>
          rw [show w + (t + 1) = w + 1 + t by omega, List.getElem?_cons_succ]
          exact ih (w + 1) t _ (by omega) (by omega) (by simpa using hdata) (by omega)

namespace Refines

variable {s : ByteStream} {q : BoundedFifo UInt8}

theorem write_snd (h : Refines s q) (d : List UInt8) :
    (s.write d).2 = min d.length q.room := h.counts.write_snd d

/-- What `write` accepts is what finds room. -/
theorem take_write_snd (h : Refines s q) (d : List UInt8) :
    d.take (s.write d).2 = d.take q.room := by
  rw [h.write_snd, Nat.min_comm, ← List.take_eq_take_min]

/-- `write` queues what finds room, unless the bytes ever written reach the
range of the cursors. -/
theorem write (h : Refines s q) (d : List UInt8)
    (hbound : (q.push d).written.length + q.capacity < 2 ^ 31) :
    Refines (s.write d).1 (q.push d) := by
  have hlength := hbound
  rw [BoundedFifo.length_written_push] at hlength
  have hbegin := h.begin_eq
  have hroom := q.room_add_size
  have hread := q.size_add_readCount
  have hrounds := rounds_of_mem s.beginCursor
    (Int32.ofInt (min d.length s.remainingCapacity : ℕ)) (min d.length q.room)
    (h.counts.writeSize_eq d) (by omega) (by omega)
  have htake : d.take (min d.length q.room) = d.take q.room := by
    rw [← h.write_snd, h.take_write_snd]
  have hdata : (s.write d).1.data =
      writeLoop q.capacity q.written.length (d.take q.room) s.data := by
    show writeLoop s.capacity s.beginCursor.toInt (d.take _) s.data = _
    rw [hrounds, htake, h.begin_eq, h.capacity_eq]
  refine of_counts (h.counts.write d) hbound ?_ ?_
  · rw [hdata, length_writeLoop]
    exact h.length_eq
  · intro j hj hlt
    rw [BoundedFifo.length_written_push] at hlt
    rw [BoundedFifo.readCount_push] at hj
    have hlen : (d.take q.room).length = min d.length q.room := by
      rw [List.length_take, Nat.min_comm]
    rw [hdata, BoundedFifo.written_push, BoundedFifo.capacity_push]
    by_cases hold : j < q.written.length
    · rw [List.getElem?_append_left hold, ← h.cells j hj hold]
      apply getElem?_writeLoop_of_ne
      · omega
      · intro t ht
        exact (mod_ne_of_lt q.capacity j (q.written.length + t) (by omega) (by omega)).symm
    · have hcell := getElem?_writeLoop_of_lt q.capacity q.written.length
        (j - q.written.length) (d.take q.room) s.data (by omega) (by omega) h.length_eq
        (by omega)
      rw [show q.written.length + (j - q.written.length) = j by omega] at hcell
      rw [hcell, List.getElem?_append_right (by omega)]

end Refines

/-! ## Reading -/

/-- The read loop lists the queued bytes in their order. -/
theorem readLoop_eq (data written : List UInt8) (capacity r n : ℕ)
    (hbound : r + n + capacity < 2 ^ 64) (hn : r + n ≤ written.length)
    (hcells : ∀ j, r ≤ j → j < r + n → data[j % capacity]? = written[j]?) :
    readLoop data capacity (capacity + r : ℕ) n = (written.drop r).take n := by
  induction n generalizing r with
  | zero => simp [readLoop]
  | succ n ih =>
      have hcursor : ((capacity + r : ℕ) : ℤ) + 1 = (capacity + (r + 1) : ℕ) := by omega
      have hhead : data.getD (r % capacity) 0 = written[r] := by
        rw [List.getD_eq_getElem?_getD, hcells r le_rfl (by omega),
          List.getElem?_eq_getElem (by omega), Option.getD_some]
      rw [readLoop, sizeT, MachineInt.unsigned_natCast 64 _ (by omega), Nat.add_mod_left, hhead,
        hcursor, ih (r + 1) (by omega) (by omega) fun j hj hlt => hcells j (by omega) (by omega),
        List.drop_eq_getElem_cons (show r < written.length by omega), List.take_succ_cons]

namespace Refines

variable {s : ByteStream} {q : BoundedFifo UInt8}

theorem peekOutput_eq (h : Refines s q) (n : ℕ) : s.peekOutput n = q.content.take n := by
  have hbound := h.bound
  have hend := h.end_eq
  have hread := q.size_add_readCount
  have hrounds := rounds_of_mem s.endCursor (Int32.ofInt (min s.bufferSize n : ℕ))
    (min q.size n) (h.counts.readSize_eq n) (by omega) (by omega)
  have hcells : ∀ j, q.readCount ≤ j → j < q.readCount + min q.size n →
      s.data[j % q.capacity]? = q.written[j]? :=
    fun j hj hlt => h.cells j hj (by omega)
  have hloop := readLoop_eq s.data q.written q.capacity q.readCount (min q.size n)
    (by omega) (by omega) hcells
  have htake : q.content.take (min q.size n) = q.content.take n := by
    rw [← BoundedFifo.length_content, Nat.min_comm, ← List.take_eq_take_min]
  rw [peekOutput, hrounds, h.end_eq, h.capacity_eq, ← htake, BoundedFifo.content, ← hloop]
  push_cast
  rfl

/-- `pop_output`, and with it `read`, takes from the front of the queue. -/
theorem popOutput (h : Refines s q) (n : ℕ) : Refines (s.popOutput n) (q.pop n) := by
  have hbound := h.bound
  have hread := (q.pop n).readCount_le
  have hlt : q.capacity + (q.pop n).readCount < 2 ^ 31 := by
    rw [BoundedFifo.written_pop] at hread
    omega
  refine of_counts (h.counts.popOutput n hlt) h.bound h.length_eq ?_
  intro j hj hlt
  rw [BoundedFifo.readCount_pop] at hj
  exact h.cells j (by omega) hlt

end Refines

end ByteStream

end NetworkLabs
