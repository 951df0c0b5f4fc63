import NetworkLabs.Sponge.ByteStream.Cursors

/-!
# A stream whose input has ended

`end_input` only sets a flag that `write` does not look at. A stream therefore
stays as it is after its input has ended exactly when every later writer is
turned away for want of room: the stream is full, or there is nothing to be
written.
-/

namespace NetworkLabs

namespace ByteStream

/-- A writer finds no room: what would be written comes to `0` in an `int`. -/
def NoRoom (s : ByteStream) (c : Call) : Prop :=
  ∀ data, c = .write data → min data.length s.remainingCapacity % 2 ^ 32 = 0

section

variable (s : ByteStream)

theorem ofInt_eq_zero_iff (n : ℕ) : Int32.ofInt n = 0 ↔ n % 2 ^ 32 = 0 := by
  have hvalue : (Int32.ofInt n).toInt = Int.bmod n (2 ^ 32) := Int32.toInt_ofInt
  have hzero : (0 : Int32).toInt = 0 := rfl
  rw [← Int32.toInt_inj, hvalue, hzero, Int.bmod_def]
  omega

theorem writeSize_eq_zero_iff (data : List UInt8) :
    s.writeSize data = 0 ↔ min data.length s.remainingCapacity % 2 ^ 32 = 0 :=
  ofInt_eq_zero_iff _

/-- `write` reports `0` when its `int` is. -/
theorem write_snd_eq_zero_iff (data : List UInt8) :
    (s.write data).2 = 0 ↔ min data.length s.remainingCapacity % 2 ^ 32 = 0 := by
  rw [← writeSize_eq_zero_iff]
  have hlo := (s.writeSize data).le_toInt
  have hhi := (s.writeSize data).toInt_lt
  change sizeT (s.writeSize data).toInt = 0 ↔ _
  have hzero : (0 : Int32).toInt = 0 := rfl
  rw [← Int32.toInt_inj, hzero, sizeT, MachineInt.unsigned]
  omega

theorem rounds_zero (first : Int32) : rounds first 0 = 0 := by
  rw [rounds, Int32.add_zero, sub_self]
  rfl

/-- A write for which there is no room leaves the stream as it is. -/
theorem write_of_no_room (hcnt : s.writeCnt < 2 ^ 64) (data : List UInt8)
    (h : min data.length s.remainingCapacity % 2 ^ 32 = 0) : (s.write data).1 = s := by
  have hsize : Int32.ofInt (min data.length s.remainingCapacity : ℕ) = 0 :=
    (ofInt_eq_zero_iff _).mpr h
  have hcount : sizeT (s.writeCnt + (0 : Int32).toInt) = s.writeCnt := by
    change sizeT (s.writeCnt + 0) = _
    rw [add_zero]
    exact MachineInt.unsigned_natCast 64 _ hcnt
  rw [write]
  simp only [hsize, rounds_zero, hcount, List.take_zero, writeLoop, Int32.add_zero]

/-- A reader of an empty stream finds it empty. -/
theorem bufferSize_popOutput (len : ℕ) (h : s.bufferSize = 0) :
    (s.popOutput len).bufferSize = 0 := by
  have hsize : s.popSize len = 0 := by
    rw [popSize, h, Nat.zero_min]
    rfl
  have hcursor : (s.popOutput len).endCursor = s.endCursor := by
    change s.endCursor + s.popSize len = _
    rw [hsize, Int32.add_zero]
  rw [bufferSize] at h ⊢
  rw [hcursor]
  exact h

theorem writeCnt_step_lt (c : Call) (h : s.writeCnt < 2 ^ 64) : (s.step c).writeCnt < 2 ^ 64 := by
  cases c with
  | write data => exact MachineInt.unsigned_lt 64 _
  | _ => exact h

/-- A call that finds no room changes neither the number of bytes written nor the
end of the stream. -/
theorem step_of_noRoom (hcnt : s.writeCnt < 2 ^ 64) (c : Call) (hc : NoRoom s c) :
    (s.step c).bytesWritten = s.bytesWritten ∧ (s.eof = true → (s.step c).eof = true) := by
  have hpop (len : ℕ) (heof : s.eof = true) : (s.popOutput len).eof = true := by
    simp only [eof, bufferEmpty, Bool.and_eq_true, beq_iff_eq] at heof ⊢
    exact ⟨heof.1, s.bufferSize_popOutput len heof.2⟩
  cases c with
  | write data =>
      have hsame : s.step (.write data) = s := s.write_of_no_room hcnt data (hc data rfl)
      rw [hsame]
      exact ⟨rfl, id⟩
  | read len => exact ⟨rfl, hpop len⟩
  | popOutput len => exact ⟨rfl, hpop len⟩
  | peekOutput len => exact ⟨rfl, id⟩
  | endInput =>
      refine ⟨rfl, ?_⟩
      intro heof
      simp only [eof, Bool.and_eq_true] at heof ⊢
      exact ⟨rfl, heof.2⟩
  | setError => exact ⟨rfl, id⟩

end

/-- What the end of the input promises of the calls behind it. -/
structure SealedAlong (s : ByteStream) (calls : List Call) : Prop where
  rejects : Transition.Along step (fun t c => ∀ data, c = .write data → (t.write data).2 = 0)
    s calls
  bytesWritten_eq : ∀ k, ((calls.take k).foldl step s).bytesWritten = s.bytesWritten
  eof_stays : ∀ j k, j ≤ k → ((calls.take j).foldl step s).eof = true →
    ((calls.take k).foldl step s).eof = true

theorem writeCnt_foldl_lt (s : ByteStream) (h : s.writeCnt < 2 ^ 64) (calls : List Call) :
    (calls.foldl step s).writeCnt < 2 ^ 64 :=
  Transition.foldl_invariant (fun s : ByteStream => s.writeCnt < 2 ^ 64)
    (fun s c h => s.writeCnt_step_lt c h) s calls h

/-- The run lemma behind `step_of_noRoom`. -/
theorem foldl_of_noRoom (s : ByteStream) (hcnt : s.writeCnt < 2 ^ 64) (calls : List Call)
    (hcalls : Transition.Along step NoRoom s calls) :
    (calls.foldl step s).bytesWritten = s.bytesWritten ∧
      (s.eof = true → (calls.foldl step s).eof = true) := by
  have hlast := Transition.Along.invariant
    (fun t : ByteStream => t.writeCnt < 2 ^ 64 ∧ t.bytesWritten = s.bytesWritten ∧
      (s.eof = true → t.eof = true))
    (fun t c ht hc => ⟨t.writeCnt_step_lt c ht.1,
      (t.step_of_noRoom ht.1 c hc).1.trans ht.2.1,
      fun heof => (t.step_of_noRoom ht.1 c hc).2 (ht.2.2 heof)⟩)
    s calls ⟨hcnt, rfl, id⟩ hcalls
  exact hlast.2

/-- The promise is kept exactly if no later writer finds room. -/
theorem sealedAlong_iff (s : ByteStream) (hcnt : s.writeCnt < 2 ^ 64) (calls : List Call) :
    SealedAlong s calls ↔ Transition.Along step NoRoom s calls := by
  have hguard (t : ByteStream) (c : Call) :
      (∀ data, c = .write data → (t.write data).2 = 0) ↔ NoRoom t c := by
    simp only [NoRoom, write_snd_eq_zero_iff]
  constructor
  · intro h
    exact h.rejects.imp (fun t c => (hguard t c).mp) s calls
  · intro h
    have hfront (k : ℕ) : Transition.Along step NoRoom s (calls.take k) := by
      have hsplit := h
      rw [← List.take_append_drop k calls, Transition.along_append] at hsplit
      exact hsplit.1
    refine ⟨h.imp (fun t c => (hguard t c).mpr) s calls, ?_, ?_⟩
    · exact fun k => (foldl_of_noRoom s hcnt _ (hfront k)).1
    · intro j k hjk heof
      have hsplit := hfront k
      have htake : calls.take k = calls.take j ++ (calls.take k).drop j := by
        have hsame := (List.take_append_drop j (calls.take k)).symm
        rwa [List.take_take, min_eq_left hjk] at hsame
      rw [htake, Transition.along_append] at hsplit
      rw [htake, List.foldl_append]
      exact (foldl_of_noRoom _ (writeCnt_foldl_lt s hcnt _) _ hsplit.2).2 heof

end ByteStream

end NetworkLabs
