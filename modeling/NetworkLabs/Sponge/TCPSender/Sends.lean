import NetworkLabs.Sponge.TCPConnection.AckFlag

/-!
# When `fill_window` sends something

`Sends` looks at a sender and says whether `fill_window` would queue a segment:
the SYN, data that the window has room for, or the FIN. An acknowledgment is
noted first, and `fill_window` is called if something was erased from the store,
so what `ack_received` sends is said by `Sends` of the sender in between.
-/

namespace NetworkLabs

namespace TCPSender

/-- The third phase of `fill_window` sends the FIN. -/
def SendsFin (s : TCPSender) : Prop := s.finDue = true ∧ s.bytesInFlight < s.window

instance : DecidablePred SendsFin := fun s =>
  inferInstanceAs (Decidable (s.finDue = true ∧ s.bytesInFlight < s.window))

/-- The second and the third phase send something: what is read from the stream,
or the FIN behind it. -/
def SendsData (s : TCPSender) : Prop :=
  if (!s.stream.eof && decide (s.bytesInFlight < s.nextSeqnoAbsolute)) = true then
    s.bytesInFlight ≤ s.window ∧
      (s.readStream (s.window - s.bytesInFlight) ≠ [] ∨
        (s.afterRead (s.window - s.bytesInFlight)).SendsFin)
  else s.SendsFin

instance : DecidablePred SendsData := fun s =>
  inferInstanceAs (Decidable (
    if (!s.stream.eof && decide (s.bytesInFlight < s.nextSeqnoAbsolute)) = true then
      s.bytesInFlight ≤ s.window ∧
        (s.readStream (s.window - s.bytesInFlight) ≠ [] ∨
          (s.afterRead (s.window - s.bytesInFlight)).SendsFin)
    else s.SendsFin))

/-- The call to `fill_window` queues a segment. -/
def Sends (s : TCPSender) : Prop := s.nextSeqnoAbsolute = 0 ∨ s.SendsData

instance : DecidablePred Sends := fun s =>
  inferInstanceAs (Decidable (s.nextSeqnoAbsolute = 0 ∨ s.SendsData))

theorem next_le_fillFin (s : TCPSender) : s.nextSeqnoAbsolute ≤ s.fillFin.nextSeqnoAbsolute := by
  rw [fillFin]
  split_ifs
  · exact le_rfl
  · exact Nat.le_add_right _ _
  · exact le_rfl

theorem next_lt_fillFin_iff (s : TCPSender) :
    s.nextSeqnoAbsolute < s.fillFin.nextSeqnoAbsolute ↔ s.SendsFin := by
  rw [fillFin, SendsFin]
  by_cases hdue : s.finDue = true
  · rw [if_pos hdue, and_iff_right hdue]
    by_cases hfull : s.window ≤ s.bytesInFlight
    · rw [if_pos hfull]
      exact iff_of_false (lt_irrefl _) (not_lt.mpr hfull)
    · rw [if_neg hfull]
      exact iff_of_true (Nat.lt_succ_self _) (not_le.mp hfull)
  · rw [if_neg hdue]
    exact iff_of_false (lt_irrefl _) fun h => hdue h.1

theorem next_le_fillLoop (fuel remsz : ℕ) (s : TCPSender) :
    s.nextSeqnoAbsolute ≤ (fillLoop fuel remsz s).nextSeqnoAbsolute := by
  induction fuel generalizing remsz s with
  | zero => exact le_rfl
  | succ fuel ih =>
      rw [fillLoop_succ]
      split_ifs
      · exact le_rfl
      · have hrest := ih (remsz - ((s.afterRead remsz).dataSegment (s.readStream remsz)
            remsz).lengthInSequenceSpace)
          ((s.afterRead remsz).transmit
            ((s.afterRead remsz).dataSegment (s.readStream remsz) remsz))
        rw [transmit_nextSeqnoAbsolute] at hrest
        exact le_trans (Nat.le_add_right _ _) hrest

theorem next_le_fillData (s : TCPSender) :
    s.nextSeqnoAbsolute ≤ s.fillData.nextSeqnoAbsolute := by
  rw [fillData]
  split_ifs
  · exact le_rfl
  · exact le_trans (next_le_fillLoop _ _ s) (next_le_fillFin _)
  · exact next_le_fillFin s

theorem next_lt_fillData_iff (s : TCPSender) :
    s.nextSeqnoAbsolute < s.fillData.nextSeqnoAbsolute ↔ s.SendsData := by
  rw [fillData, SendsData]
  by_cases hopen : (!s.stream.eof && decide (s.bytesInFlight < s.nextSeqnoAbsolute)) = true
  · rw [if_pos hopen, if_pos hopen]
    by_cases hover : s.window < s.bytesInFlight
    · rw [if_pos hover]
      exact iff_of_false (lt_irrefl _) fun h => absurd h.1 (not_le.mpr hover)
    · rw [if_neg hover, and_iff_right (not_lt.mp hover)]
      simp only
      rw [fillLoop_succ]
      by_cases hnil : s.readStream (s.window - s.bytesInFlight) = []
      · rw [if_pos hnil]
        refine (next_lt_fillFin_iff (s.afterRead (s.window - s.bytesInFlight))).trans ?_
        exact (or_iff_right (not_not.mpr hnil)).symm
      · rw [if_neg hnil]
        refine iff_of_true ?_ (Or.inl hnil)
        refine lt_of_lt_of_le ?_ (le_trans (next_le_fillLoop _ _ _) (next_le_fillFin _))
        exact Nat.lt_add_of_pos_right (length_dataSegment_pos _ _ _ hnil)
  · rw [if_neg hopen, if_neg hopen]
    exact next_lt_fillFin_iff s

theorem next_lt_fillWindow_iff (s : TCPSender) :
    s.nextSeqnoAbsolute < s.fillWindow.nextSeqnoAbsolute ↔ s.Sends := by
  rw [fillWindow, fillSyn, Sends]
  by_cases h0 : s.nextSeqnoAbsolute = 0
  · rw [if_pos h0]
    refine iff_of_true ?_ (Or.inl h0)
    have hsyn := next_le_fillData (s.transmit s.synSegment)
    exact lt_of_lt_of_le (Nat.lt_succ_self s.nextSeqnoAbsolute) hsyn
  · rw [if_neg h0, next_lt_fillData_iff]
    exact (or_iff_right h0).symm

/-- Whatever was transmitted moved the next number. -/
theorem Transmits.ne_nil_iff {s t : TCPSender} {new : List TCPSegment} (h : Transmits s t new) :
    new ≠ [] ↔ s.nextSeqnoAbsolute < t.nextSeqnoAbsolute := by
  rw [h.next_eq]
  by_cases hnew : new = []
  · rw [hnew]
    exact iff_of_false (fun h => h rfl) (lt_irrefl _)
  · exact iff_of_true hnew (Nat.lt_add_of_pos_right (Tiling.total_pos _ hnew h.pos))

/-- What `fill_window` queues. -/
theorem exists_fillWindow (s : TCPSender) :
    ∃ new, Transmits s s.fillWindow new ∧ (new ≠ [] ↔ s.Sends) := by
  obtain ⟨new, hnew⟩ := transmits_fillWindow s
  exact ⟨new, hnew, hnew.ne_nil_iff.trans (next_lt_fillWindow_iff s)⟩

/-! ## Acknowledgments -/

/-- The lines of `ack_received` in front of its call to `fill_window`. -/
def noteAck (s : TCPSender) (ackno : WrappingInt32) (windowSize : UInt16) : TCPSender :=
  if s.nBytes ackno < 0 then s
  else if s.acknosPop ackno = [] then s.popAcked ackno windowSize
  else (s.popAcked ackno windowSize).restart (s.nBytes ackno) windowSize

theorem takesAckno_iff (s : TCPSender) (ackno : WrappingInt32) :
    s.TakesAckno ackno ↔ 0 ≤ s.nBytes ackno ∧ s.acknosPop ackno ≠ [] := by
  rw [TakesAckno, nBytes]
  refine and_congr_right fun _ => ?_
  rw [acknosPop, Ne, List.filter_eq_nil_iff]
  simp

/-- The window is filled if something was erased. -/
theorem ackReceived_eq (s : TCPSender) (ackno : WrappingInt32) (windowSize : UInt16) :
    s.ackReceived ackno windowSize =
      if s.TakesAckno ackno then (s.noteAck ackno windowSize).fillWindow
      else s.noteAck ackno windowSize := by
  have htakes := takesAckno_iff s ackno
  rw [noteAck]
  rcases ackReceived_cases s ackno windowSize with
    ⟨hneg, heq⟩ | ⟨hn, hnone, heq⟩ | ⟨hn, hpop, heq⟩
  · rw [heq, if_neg fun h => absurd (htakes.mp h).1 (not_le.mpr hneg), if_pos hneg]
  · rw [heq, if_neg fun h => (htakes.mp h).2 hnone, if_neg (not_lt.mpr hn), if_pos hnone]
  · rw [heq, if_pos (htakes.mpr ⟨hn, hpop⟩), if_neg (not_lt.mpr hn), if_neg hpop]

section

variable (s : TCPSender) (ackno : WrappingInt32) (windowSize : UInt16)

@[simp] theorem noteAck_stream : (s.noteAck ackno windowSize).stream = s.stream := by
  rw [noteAck]
  split_ifs
  all_goals rfl

@[simp] theorem noteAck_nextSeqnoAbsolute :
    (s.noteAck ackno windowSize).nextSeqnoAbsolute = s.nextSeqnoAbsolute := by
  rw [noteAck]
  split_ifs
  all_goals rfl

@[simp] theorem noteAck_segmentsOut :
    (s.noteAck ackno windowSize).segmentsOut = s.segmentsOut := by
  rw [noteAck]
  split_ifs
  all_goals rfl

@[simp] theorem noteAck_isn : (s.noteAck ackno windowSize).isn = s.isn := by
  rw [noteAck]
  split_ifs
  all_goals rfl

/-- What `ack_received` queues. -/
theorem exists_ackReceived :
    ∃ new, Transmits (s.noteAck ackno windowSize) (s.ackReceived ackno windowSize) new ∧
      (new ≠ [] ↔ s.TakesAckno ackno ∧ (s.noteAck ackno windowSize).Sends) := by
  rw [ackReceived_eq]
  by_cases htakes : s.TakesAckno ackno
  · rw [if_pos htakes, and_iff_right htakes]
    exact exists_fillWindow _
  · rw [if_neg htakes]
    exact ⟨[], Transmits.refl _, iff_of_false (fun h => h rfl) fun h => htakes h.1⟩

end

/-- A sender whose stream is at its end and whose FIN is sent has nothing more to
send. -/
theorem not_sends_of_finSent (s : TCPSender) (heof : s.stream.eof = true)
    (hnext : s.nextSeqnoAbsolute = s.stream.bytesWritten + 2) : ¬ s.Sends := by
  rintro (h0 | hdata)
  · omega
  · rw [SendsData, heof] at hdata
    rw [if_neg (by simp), SendsFin, finDue, hnext] at hdata
    simp at hdata

end TCPSender

end NetworkLabs
