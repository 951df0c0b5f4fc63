import NetworkLabs.Library.Transition
import NetworkLabs.Sponge.ByteStream

/-!
# Runs of a byte stream

A `History` is a stream together with the bytes that its writers got accepted
and the bytes that have left it, and `queueRun` is the bounded queue after the
same calls. As long as the bytes written and the capacity stay below `2 ^ 31`
together, the history is that of the queue.

The accounting of the stream does not look at the bytes. It is right exactly as
long as the cursor of the reader, which starts at the capacity, has not left
the range of `int`.
-/

namespace NetworkLabs

namespace ByteStream

/-- A call to a stream. -/
inductive Call where
  | write (data : List UInt8)
  | read (len : ℕ)
  | peekOutput (len : ℕ)
  | popOutput (len : ℕ)
  | endInput
  | setError
  deriving DecidableEq

def step (s : ByteStream) : Call → ByteStream
  | .write data => (s.write data).1
  | .read len => (s.read len).1
  | .peekOutput _ => s
  | .popOutput len => s.popOutput len
  | .endInput => s.endInput
  | .setError => s.setError

/-- The bytes that a call gets accepted. -/
def accepts (s : ByteStream) : Call → List UInt8
  | .write data => data.take (s.write data).2
  | _ => []

/-- The bytes that a call returns and removes, or removes unseen. -/
def removes (s : ByteStream) : Call → List UInt8
  | .read len => (s.read len).2
  | .popOutput len => s.peekOutput len
  | _ => []

/-- A stream with the bytes that went into it and those that came out. -/
structure History where
  stream : ByteStream
  accepted : List UInt8
  removed : List UInt8

namespace History

def start (capacity : ℕ) : History := ⟨new capacity, [], []⟩

def step (h : History) (c : Call) : History where
  stream := h.stream.step c
  accepted := h.accepted ++ h.stream.accepts c
  removed := h.removed ++ h.stream.removes c

def run (capacity : ℕ) (calls : List Call) : History := calls.foldl step (start capacity)

end History

/-- The effect of a call on the queue. -/
def queueStep (q : BoundedFifo UInt8) : Call → BoundedFifo UInt8
  | .write data => q.push data
  | .read len => q.pop len
  | .popOutput len => q.pop len
  | _ => q

/-- The queue after a list of calls. -/
def queueRun (capacity : ℕ) (calls : List Call) : BoundedFifo UInt8 :=
  calls.foldl queueStep (BoundedFifo.empty capacity)

@[simp] theorem capacity_queueStep (q : BoundedFifo UInt8) (c : Call) :
    (queueStep q c).capacity = q.capacity := by
  cases c
  all_goals rfl

theorem readCount_le_queueStep (q : BoundedFifo UInt8) (c : Call) :
    q.readCount ≤ (queueStep q c).readCount := by
  cases c with
  | read len => exact Nat.le_add_right _ _
  | popOutput len => exact Nat.le_add_right _ _
  | _ => exact le_rfl

theorem readCount_le_foldl (q : BoundedFifo UInt8) (calls : List Call) :
    q.readCount ≤ (calls.foldl queueStep q).readCount := by
  induction calls generalizing q with
  | nil => exact le_rfl
  | cons c calls ih => exact (readCount_le_queueStep q c).trans (ih _)

@[simp] theorem capacity_foldl (q : BoundedFifo UInt8) (calls : List Call) :
    (calls.foldl queueStep q).capacity = q.capacity := by
  induction calls generalizing q with
  | nil => rfl
  | cons c calls ih => rw [List.foldl_cons, ih, capacity_queueStep]

/-! ## Peeking at a part -/

theorem take_readLoop (data : List UInt8) (capacity : ℕ) (i : ℤ) {n m : ℕ} (h : n ≤ m) :
    (readLoop data capacity i m).take n = readLoop data capacity i n := by
  induction m generalizing i n with
  | zero =>
      obtain rfl := Nat.le_zero.mp h
      rfl
  | succ m ih =>
      cases n with
      | zero => rfl
      | succ n =>
          rw [readLoop, readLoop, List.take_succ_cons, ih _ (Nat.le_of_succ_le_succ h)]

/-- A loop that makes a round at all has not wrapped around. -/
theorem rounds_of_pos {first size : Int32} (hsize : 0 ≤ size.toInt)
    (h : 0 < rounds first size) : first.toInt + size.toInt < 2 ^ 31 := by
  by_contra hwrap
  have hfirst := first.toInt_lt
  have hlt := size.toInt_lt
  rw [rounds, Int32.toInt_add, Int.bmod_def] at h
  omega

/-- A part of what is seen from the front is seen when only that much is asked for. -/
theorem take_peekOutput (s : ByteStream) {amount n : ℕ} (hamount : amount < 2 ^ 31)
    (hn : n ≤ (s.peekOutput amount).length) : (s.peekOutput amount).take n = s.peekOutput n := by
  have hsize : (Int32.ofInt (min s.bufferSize amount : ℕ)).toInt = (min s.bufferSize amount : ℕ) :=
    MachineInt.toInt_ofInt_natCast _ (by omega)
  have hrounds : n ≤ rounds s.endCursor (Int32.ofInt (min s.bufferSize amount : ℕ)) := by
    rwa [peekOutput, length_readLoop] at hn
  have hcap : n ≤ min s.bufferSize amount := by
    have hround := MachineInt.toInt_add_sub_le s.endCursor
      (Int32.ofInt (min s.bufferSize amount : ℕ)) (by omega)
    rw [rounds] at hrounds
    omega
  have hsmall : min s.bufferSize n = n := by omega
  have hsame : rounds s.endCursor (Int32.ofInt (min s.bufferSize n : ℕ)) = n := by
    rw [hsmall]
    rcases Nat.eq_zero_or_pos n with rfl | hpos
    · have hzero : s.endCursor + Int32.ofInt ((0 : ℕ) : ℤ) = s.endCursor := Int32.add_zero _
      rw [rounds, hzero, Int.sub_self]
      rfl
    · have hwrap := rounds_of_pos (by omega) (hpos.trans_le hrounds)
      have hn' : (Int32.ofInt (n : ℕ)).toInt = n := MachineInt.toInt_ofInt_natCast _ (by omega)
      have hlo := s.endCursor.le_toInt
      rw [rounds, MachineInt.toInt_add_of_mem _ _ (by omega) (by omega), hn']
      omega
  rw [peekOutput, peekOutput, take_readLoop _ _ _ hrounds, hsame]

/-! ## First in, first out -/

/-- The history is that of the queue. -/
structure Keeps (capacity : ℕ) (h : History) (q : BoundedFifo UInt8) : Prop where
  refines : Refines h.stream q
  capacity_eq : q.capacity = capacity
  accepted_eq : h.accepted = q.written
  removed_eq : h.removed = q.written.take q.readCount

section

variable {capacity : ℕ} {h : History} {q : BoundedFifo UInt8}

theorem keeps_start (hcap : capacity < 2 ^ 31) :
    Keeps capacity (History.start capacity) (BoundedFifo.empty capacity) where
  refines := new_refines capacity hcap
  capacity_eq := rfl
  accepted_eq := rfl
  removed_eq := rfl

/-- What a writer is told to have written is what the queue takes, also when the
cursors have no room for it. -/
theorem Refines.bytesWritten_write {s : ByteStream} (hs : Refines s q) (data : List UInt8) :
    (s.write data).1.bytesWritten = (q.push data).written.length :=
  (hs.counts.write data).writeCnt_eq

theorem Keeps.step (hk : Keeps capacity h q) (c : Call)
    (hbound : (h.step c).stream.bytesWritten + capacity < 2 ^ 31) :
    Keeps capacity (h.step c) (queueStep q c) := by
  have hremoved (n : ℕ) : h.removed ++ h.stream.peekOutput n =
      (q.pop n).written.take (q.pop n).readCount := by
    rw [BoundedFifo.take_readCount_pop, ← hk.removed_eq, hk.refines.peekOutput_eq]
  have haccepted : h.accepted ++ [] = q.written := by rw [List.append_nil, hk.accepted_eq]
  have hquiet : h.removed ++ [] = q.written.take q.readCount := by
    rw [List.append_nil, hk.removed_eq]
  cases c with
  | write data =>
      change (h.stream.write data).1.bytesWritten + capacity < 2 ^ 31 at hbound
      rw [hk.refines.bytesWritten_write, ← hk.capacity_eq] at hbound
      refine ⟨hk.refines.write data hbound, hk.capacity_eq, ?_, ?_⟩
      · change h.accepted ++ data.take (h.stream.write data).2 = q.written ++ data.take q.room
        rw [hk.refines.take_write_snd, hk.accepted_eq]
      · change h.removed ++ [] = (q.written ++ data.take q.room).take q.readCount
        rw [List.append_nil, hk.removed_eq, List.take_append_of_le_length q.readCount_le]
  | read len =>
      exact ⟨hk.refines.popOutput len, hk.capacity_eq, haccepted, hremoved len⟩
  | popOutput len =>
      exact ⟨hk.refines.popOutput len, hk.capacity_eq, haccepted, hremoved len⟩
  | peekOutput len => exact ⟨hk.refines, hk.capacity_eq, haccepted, hquiet⟩
  | endInput => exact ⟨hk.refines.endInput, hk.capacity_eq, haccepted, hquiet⟩
  | setError => exact ⟨hk.refines.setError, hk.capacity_eq, haccepted, hquiet⟩

theorem keeps_run (capacity : ℕ) (calls : List Call)
    (hbound : ∀ k, (History.run capacity (calls.take k)).stream.bytesWritten + capacity
      < 2 ^ 31) :
    Keeps capacity (History.run capacity calls) (queueRun capacity calls) := by
  have hcap : 0 + capacity < 2 ^ 31 := hbound 0
  have halong : Transition.Along History.step
      (fun h c => (h.step c).stream.bytesWritten + capacity < 2 ^ 31)
      (History.start capacity) calls :=
    (Transition.forall_take_iff_along (fun h : History => h.stream.bytesWritten + capacity < 2 ^ 31)
      (fun _ _ _ => Iff.rfl) _ calls hcap).mp hbound
  exact Transition.Along.simulation (Keeps capacity) (fun _ _ c hk hc => hk.step c hc) _ _
    calls (keeps_start (by omega)) halong

end

/-- A stream is a bounded first-in first-out queue. What left it, followed by
what it still buffers, is what it accepted; a writer is told how much of the
front found room, and a reader gets the oldest bytes, which a peek shows. -/
theorem run_isFifo (capacity : ℕ) (calls : List Call)
    (hbound : ∀ k, (History.run capacity (calls.take k)).stream.bytesWritten + capacity
      < 2 ^ 31) :
    let h := History.run capacity calls
    (∀ data, (h.stream.write data).2 = min data.length h.stream.remainingCapacity ∧
      h.stream.accepts (.write data) =
        data.take (min data.length h.stream.remainingCapacity)) ∧
    h.removed ++ h.stream.peekOutput h.stream.bufferSize = h.accepted ∧
    (∀ n, h.stream.peekOutput n = (h.stream.read n).2 ∧
      h.stream.peekOutput n = (h.stream.peekOutput h.stream.bufferSize).take n ∧
      h.step (.peekOutput n) = h) ∧
    h.stream.bufferSize + h.stream.bytesRead = h.stream.bytesWritten ∧
    h.stream.bufferSize ≤ capacity ∧
    h.stream.remainingCapacity = capacity - h.stream.bufferSize := by
  intro h
  have hk : Keeps capacity h (queueRun capacity calls) := keeps_run capacity calls hbound
  have hpeek : h.stream.peekOutput h.stream.bufferSize = (queueRun capacity calls).content := by
    rw [hk.refines.peekOutput_eq, hk.refines.bufferSize_eq, ← BoundedFifo.length_content,
      List.take_length]
  have hwrite (data : List UInt8) :
      (h.stream.write data).2 = min data.length h.stream.remainingCapacity := by
    rw [hk.refines.write_snd, hk.refines.remainingCapacity_eq]
  refine ⟨?_, ?_, ?_, ?_, ?_, ?_⟩
  · intro data
    refine ⟨hwrite data, ?_⟩
    rw [accepts, hwrite]
  · rw [hpeek, hk.removed_eq, hk.accepted_eq, BoundedFifo.take_append_content]
  · intro n
    refine ⟨rfl, ?_, ?_⟩
    · rw [hpeek, hk.refines.peekOutput_eq]
    · simp [History.step, ByteStream.step, accepts, removes]
  · rw [hk.refines.bufferSize_eq, hk.refines.bytesRead_eq, hk.refines.bytesWritten_eq]
    exact (queueRun capacity calls).size_add_readCount
  · have hle := (queueRun capacity calls).size_le
    rw [hk.refines.bufferSize_eq]
    exact hle.trans_eq hk.capacity_eq
  · rw [hk.refines.remainingCapacity_eq, hk.refines.bufferSize_eq, BoundedFifo.room,
      hk.capacity_eq]

/-- A buffer of two bytes, around which the cursors have gone. -/
theorem run_isFifo_around :
    (History.run 2 [.write [1, 2, 3], .popOutput 1, .write [4, 5]]).removed ++
        (History.run 2 [.write [1, 2, 3], .popOutput 1, .write [4, 5]]).stream.peekOutput
          (History.run 2 [.write [1, 2, 3], .popOutput 1, .write [4, 5]]).stream.bufferSize =
      (History.run 2 [.write [1, 2, 3], .popOutput 1, .write [4, 5]]).accepted := by
  have hbound (k : ℕ) : (History.run 2 (([.write [1, 2, 3], .popOutput 1,
      .write [4, 5]] : List Call).take k)).stream.bytesWritten + 2 < 2 ^ 31 := by
    match k with
    | 0 => decide
    | 1 => decide
    | 2 => decide
    | k + 3 =>
        rw [List.take_of_length_le (by simp)]
        decide
  exact (run_isFifo 2 _ hbound).2.1

end ByteStream

end NetworkLabs
