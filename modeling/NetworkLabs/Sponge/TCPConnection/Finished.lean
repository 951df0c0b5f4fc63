import NetworkLabs.Sponge.TCPConnection.Closing

/-!
# An inbound stream that is finished

The reader of the inbound stream is done once the stream is at its end or in error, and
nothing that happens to the connection afterwards undoes this: an error is never cleared,
and behind the end of its input the receiver takes nothing any more.
-/

namespace NetworkLabs

namespace StreamReassembler

variable {r : StreamReassembler}

theorem error_foldl_assembleRound (l : List (ℕ × List UInt8)) (st : AssembleLoop) :
    (l.foldl assembleRound st).output.error = st.output.error := by
  induction l generalizing st with
  | nil => rfl
  | cons e l ih =>
      rw [List.foldl_cons, ih, assembleRound]
      split_ifs
      · rfl
      · rfl
      · rfl

theorem error_assemble (index : ℕ) (data : List UInt8) :
    (r.assemble index data).output.error = r.output.error := by
  rw [assemble]
  exact error_foldl_assembleRound _ _

theorem error_pushSubstring (data : List UInt8) (index : ℕ) (eof : Bool) :
    (r.pushSubstring data index eof).output.error = r.output.error := by
  have hnote : (r.noteEof index data eof).output = r.output := noteEof_output
  rw [pushSubstring]
  simp only
  split_ifs
  · obtain ⟨m, hm⟩ := mergeSegments_eq (r.noteEof index data eof) index data
    rw [hm]
    exact congrArg ByteStream.error hnote
  · rw [hnote]
  · have hcheck : ∀ t : StreamReassembler, t.checkEof.output.error = t.output.error := by
      intro t
      rw [checkEof]
      split_ifs
      · rfl
      · rfl
    rw [hcheck, error_assemble, hnote]

end StreamReassembler

namespace TCPReceiver

theorem error_segmentReceived (r : TCPReceiver) (seg : TCPSegment) :
    (r.segmentReceived seg).streamOut.error = r.streamOut.error := by
  have hnote : (r.noteSyn seg).streamOut = r.streamOut := by
    rw [noteSyn]
    split_ifs
    · rfl
    · rfl
  rw [← hnote, segmentReceived]
  simp only
  cases (r.noteSyn seg).ackno with
  | none => rfl
  | some ackno =>
      simp only
      split_ifs
      · rfl
      · rfl
      · exact StreamReassembler.error_pushSubstring _ _ _
      · exact StreamReassembler.error_pushSubstring _ _ _

end TCPReceiver

namespace TCPConnection

/-- The inbound stream is at its end, or in error. -/
def inboundFinished (c : TCPConnection) : Bool :=
  c.inboundStream.eof || c.inboundStream.error

theorem eof_read {s : ByteStream} (h : s.eof = true) (len : ℕ) : (s.read len).1.eof = true := by
  rw [ByteStream.eof, Bool.and_eq_true] at h
  have hempty : s.bufferSize = 0 := by simpa [ByteStream.bufferEmpty] using h.2
  have hpop : (s.popOutput len).bufferSize = 0 := by
    rw [ByteStream.popOutput, hempty, Nat.zero_min]
    rw [ByteStream.bufferSize] at hempty ⊢
    have hzero : s.endCursor + Int32.ofInt ((0 : ℕ) : ℤ) = s.endCursor := Int32.add_zero _
    simp only [hzero]
    exact hempty
  change (s.isEnd && (s.popOutput len).bufferSize == 0) = true
  rw [hpop, h.1]
  rfl

theorem inboundFinished_step {c : TCPConnection} (h : c.inboundFinished = true) (a : Action) :
    (c.step a).inboundFinished = true := by
  have hread : ∀ len, (c.read len).1.inboundFinished = true := by
    intro len
    rw [inboundFinished, Bool.or_eq_true] at h ⊢
    exact h.imp (fun heof => eof_read heof len) id
  have henter : (c.enter a).inboundFinished = true :=
    enter_induction (P := fun d => d.inboundFinished = true) a h (fun _ => h) h hread
      (fun _ => h) h
  apply step_induction (P := fun d => d.inboundFinished = true) a
  · exact fun _ => henter
  · exact fun _ => henter
  · exact fun _ _ _ _ _ => henter
  · intro seg _ _ d hd
    rw [inboundFinished, Bool.or_eq_true] at hd ⊢
    refine hd.imp (fun heof => ?_) fun herror => ?_
    · have hended : d.receiver.streamOut.inputEnded = true := (Bool.and_eq_true _ _ ▸ heof).1
      change (d.receiver.segmentReceived seg).streamOut.eof = true
      rw [TCPReceiver.streamOut_segmentReceived hended]
      exact heof
    · exact (TCPReceiver.error_segmentReceived _ _).trans herror
  · exact fun d _ hd => hd
  · exact fun d hd => hd
  · intro d hd
    rwa [inboundFinished, inboundStream, sendData_receiver]
  · intro d _
    rw [inboundFinished, Bool.or_eq_true]
    exact Or.inr rfl
  · intro d _
    rw [inboundFinished, Bool.or_eq_true]
    exact Or.inr rfl

end TCPConnection

end NetworkLabs
