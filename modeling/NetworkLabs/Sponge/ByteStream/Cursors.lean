import NetworkLabs.Sponge.ByteStream.Runs

/-!
# The cursors of a byte stream

The two cursors are `int`s that are never reduced. The cursor of the reader runs
ahead of the bytes it has taken by the capacity, so it is the first to leave the
range. Up to that moment the accounting of the stream is that of a queue; the
increment at that moment overflows.
-/

namespace NetworkLabs

namespace ByteStream

/-- The increments of a call are those of the integers. -/
def NoOverflow (s : ByteStream) : Call → Prop
  | .write data => (s.beginCursor + s.writeSize data).toInt =
      s.beginCursor.toInt + (s.writeSize data).toInt
  | .read len | .popOutput len => (s.endCursor + s.popSize len).toInt =
      s.endCursor.toInt + (s.popSize len).toInt
  | .peekOutput _ | .endInput | .setError => True

/-- What the stream reports of itself fits together. -/
structure Accounted (s : ByteStream) : Prop where
  bufferSize_eq : (s.bufferSize : ℤ) = s.bytesWritten - s.bytesRead
  bufferSize_le : s.bufferSize ≤ s.capacity
  remainingCapacity_le : s.remainingCapacity ≤ s.capacity

namespace Counts

variable {s : ByteStream} {q : BoundedFifo UInt8}

theorem accounted (h : Counts s q) : Accounted s where
  bufferSize_eq := by
    have hsize := q.size_add_readCount
    rw [h.bufferSize_eq, bytesWritten, bytesRead, h.writeCnt_eq, h.readCnt_eq]
    omega
  bufferSize_le := by
    rw [h.bufferSize_eq, h.capacity_eq]
    exact q.size_le
  remainingCapacity_le := by
    have hroom := q.room_add_size
    rw [h.remainingCapacity_eq, h.capacity_eq]
    omega

/-- A call does not overflow exactly when the queue stays in the range. -/
theorem noOverflow_iff (h : Counts s q) (c : Call) :
    NoOverflow s c ↔ (queueStep q c).capacity + (queueStep q c).readCount < 2 ^ 31 := by
  cases c with
  | write data => exact iff_of_true (h.toInt_begin_add data) h.end_lt
  | read len => exact h.noOverflow_pop_iff len
  | popOutput len => exact h.noOverflow_pop_iff len
  | peekOutput len => exact iff_of_true trivial h.end_lt
  | endInput => exact iff_of_true trivial h.end_lt
  | setError => exact iff_of_true trivial h.end_lt

theorem step (h : Counts s q) (c : Call)
    (hlt : (queueStep q c).capacity + (queueStep q c).readCount < 2 ^ 31) :
    Counts (s.step c) (queueStep q c) := by
  cases c with
  | write data => exact h.write data
  | read len => exact h.popOutput len hlt
  | popOutput len => exact h.popOutput len hlt
  | peekOutput len => exact h
  | endInput => exact { h with }
  | setError => exact { h with }

/-- The step lemma, along a run. -/
theorem along_noOverflow_iff (h : Counts s q) (calls : List Call) :
    Transition.Along ByteStream.step NoOverflow s calls ↔
      (calls.foldl queueStep q).capacity + (calls.foldl queueStep q).readCount < 2 ^ 31 := by
  induction calls generalizing s q with
  | nil => exact iff_of_true trivial h.end_lt
  | cons c calls ih =>
      rw [Transition.along_cons, List.foldl_cons, h.noOverflow_iff c]
      constructor
      · rintro ⟨hlt, hrest⟩
        exact (ih (h.step c hlt)).mp hrest
      · intro hlast
        have hle := readCount_le_foldl (queueStep q c) calls
        rw [capacity_foldl] at hlast
        have hlt : (queueStep q c).capacity + (queueStep q c).readCount < 2 ^ 31 := by omega
        refine ⟨hlt, (ih (h.step c hlt)).mpr ?_⟩
        rw [capacity_foldl]
        exact hlast

theorem foldl (h : Counts s q) (calls : List Call)
    (halong : Transition.Along ByteStream.step NoOverflow s calls) :
    Counts (calls.foldl ByteStream.step s) (calls.foldl queueStep q) :=
  Transition.Along.simulation Counts
    (fun _ _ c hc hguard => hc.step c ((hc.noOverflow_iff c).mp hguard)) s q calls h halong

end Counts

/-- The accounting of a stream is right, and no cursor overflows, exactly in the
runs in which the bytes taken and the capacity stay below `2 ^ 31` together. -/
theorem accounted_iff (capacity : ℕ) (hcap : capacity < 2 ^ 31) (calls : List Call) :
    ((∀ k, Accounted ((calls.take k).foldl step (new capacity))) ∧
      Transition.Along step NoOverflow (new capacity) calls) ↔
    capacity + (queueRun capacity calls).readCount < 2 ^ 31 := by
  have hcounts := counts_new capacity hcap
  have hiff := hcounts.along_noOverflow_iff calls
  rw [capacity_foldl] at hiff
  constructor
  · rintro ⟨-, halong⟩
    exact hiff.mp halong
  · intro hlt
    have halong := hiff.mpr hlt
    refine ⟨?_, halong⟩
    intro k
    have hsplit := halong
    rw [← List.take_append_drop k calls, Transition.along_append] at hsplit
    exact (hcounts.foldl (calls.take k) hsplit.1).accounted

/-- A buffer of four bytes after a write and a read. -/
theorem accounted_iff_small :
    ((∀ k, Accounted (([.write [1, 2], .read 1] : List Call).take k |>.foldl step (new 4))) ∧
      Transition.Along step NoOverflow (new 4) [.write [1, 2], .read 1]) ↔
    4 + (queueRun 4 [.write [1, 2], .read 1]).readCount < 2 ^ 31 :=
  accounted_iff 4 (by decide) _

/-- With the largest capacity the first byte read takes the cursor out of its
range, and the stream reports more bytes than it can hold. -/
theorem not_accounted_largest :
    ¬ ∀ capacity < 2 ^ 31, ∀ calls : List Call,
      (∀ c ∈ calls, (∃ data, c = .write data) ∨ ∃ len, c = .read len) →
      (∀ k, Accounted ((calls.take k).foldl step (new capacity))) ∧
        Transition.Along step NoOverflow (new capacity) calls := by
  intro h
  have hrun := (h (2 ^ 31 - 1) (by decide) [.write [0], .read 1] (by simp)).1 2
  exact absurd hrun.bufferSize_le (by decide +kernel)

end ByteStream

end NetworkLabs
