import NetworkLabs.Sponge.TCPConnection.Inbound
import NetworkLabs.Sponge.TCPSender.Acks

/-!
# How a connection closes

`_send_data` ends a connection by a look at its own sender and receiver: the
input has ended, the outgoing stream is at its end, and nothing is in flight.
What this says about the peer rests on two facts. A FIN that is due is sent, or
the window is full, so a sender with nothing in flight has sent its FIN. And
nothing is in flight behind the FIN only once the peer has asked for the number
behind it, which it does when its own input has ended.
-/

namespace NetworkLabs

namespace TCPSegment

/-- If the segment carries ACK, then its number stands for a position up to
`p`. -/
def AcksUpTo (isn : WrappingInt32) (p : ℕ) (seg : TCPSegment) : Prop :=
  seg.header.ack = true → ∃ k ≤ p, seg.header.ackno = wrap k isn

theorem AcksUpTo.mono {isn : WrappingInt32} {p p' : ℕ} {seg : TCPSegment}
    (h : AcksUpTo isn p seg) (hle : p ≤ p') : AcksUpTo isn p' seg := by
  intro hack
  obtain ⟨k, hk, hackno⟩ := h hack
  exact ⟨k, le_trans hk hle, hackno⟩

end TCPSegment

namespace TCPReceiver

open StreamReassembler TCPSegment

section

variable {S : List UInt8} {isn : WrappingInt32} {capacity : ℕ} {r : TCPReceiver}
  {consumed : List UInt8} {q : BoundedFifo UInt8} {index : ℕ} {seg : TCPSegment}

/-- Once the input has ended, nothing reaches the stream. -/
theorem streamOut_segmentReceived (h : r.streamOut.inputEnded = true) :
    (r.segmentReceived seg).streamOut = r.streamOut := by
  rw [segmentReceived]
  simp only [noteSyn_streamOut, if_pos h]
  cases (r.noteSyn seg).ackno with
  | none => exact noteSyn_streamOut
  | some ackno => exact noteSyn_streamOut

/-- The position that the receiver asks for never goes back. -/
theorem nextWrite_le_segmentReceived (h : Stores S capacity ⟨r.reassembler, consumed⟩ q)
    (ht : Tracks isn r) (hseg : CutAt S isn index seg) :
    r.nextWrite ≤ (r.segmentReceived seg).nextWrite := by
  cases hended : r.streamOut.inputEnded
  · obtain ⟨q', hq', hle⟩ := stores_segmentReceived h ht hseg
    have hold : r.streamOut.bytesWritten = q.written.length :=
      h.inv.assembled.refines.bytesWritten_eq
    have hnew : (r.segmentReceived seg).streamOut.bytesWritten = q'.written.length :=
      hq'.inv.assembled.refines.bytesWritten_eq
    rw [nextWrite, nextWrite, hended, hold, hnew, if_neg Bool.false_ne_true]
    split_ifs
    · omega
    · omega
  · rw [nextWrite, nextWrite, streamOut_segmentReceived hended]

/-- The position behind the FIN is asked for at the end of the input only. -/
theorem inputEnded_of_nextWrite (h : Inv S r.reassembler q)
    (hnext : S.length + 2 ≤ r.nextWrite) : r.streamOut.inputEnded = true := by
  by_contra hopen
  have hle := h.assembled.written_prefix.length_le
  have hwritten : r.streamOut.bytesWritten = q.written.length :=
    h.assembled.refines.bytesWritten_eq
  rw [nextWrite, if_neg hopen, hwritten] at hnext
  omega

/-- What is stamped asks for the next position of the receiver. -/
theorem Tracks.acksUpTo_stamp (h : Tracks isn r) (hack : seg.header.ack = false) :
    AcksUpTo isn r.nextWrite (TCPConnection.stamp r seg) := by
  intro hflag
  rw [TCPConnection.stamp, ackno] at hflag ⊢
  split_ifs at hflag ⊢ with hsyn
  · exact ⟨r.nextWrite, le_rfl, by rw [h.isn_eq hsyn]⟩
  · rw [hack] at hflag
    exact absurd hflag (by decide)

end

end TCPReceiver

namespace TCPSender

/-- The FIN was sent, and nothing is in flight. -/
def FinAcked (s : TCPSender) : Prop :=
  s.nextSeqnoAbsolute = s.stream.bytesWritten + 2 ∧ s.bytesInFlight = 0

/-- A FIN that is due waits for something in flight. -/
def FinWaits (s : TCPSender) : Prop := s.finDue = true → 0 < s.bytesInFlight

section

variable {s : TCPSender}

theorem finWaits_fillFin (s : TCPSender) : FinWaits s.fillFin := by
  have hwindow := s.window_eq
  intro hdue
  rw [fillFin] at hdue ⊢
  split_ifs at hdue ⊢ with hold hfull
  · omega
  · change 0 < s.bytesInFlight + 1
    omega
  · exact absurd hdue hold

theorem finWaits_fillWindow (s : TCPSender) : FinWaits s.fillWindow := by
  rw [fillWindow, fillData]
  split_ifs with hopen hfull
  · intro _
    omega
  · exact finWaits_fillFin _
  · exact finWaits_fillFin _

/-- After `fill_window` nothing is in flight behind the FIN only if nothing was
in front of it. -/
theorem FinAcked.of_fillWindow (h : FinAcked s.fillWindow) : FinAcked s := by
  obtain ⟨new, hnew⟩ := transmits_fillWindow s
  obtain ⟨hnext, hflight⟩ := h
  rw [hnew.next_eq, (stream_fillWindow s).1] at hnext
  rw [hnew.flight_eq] at hflight
  exact ⟨by omega, by omega⟩

/-- The acknowledgment that leaves nothing in flight behind the FIN is the one
of the number behind the FIN. -/
theorem FinAcked.of_ackReceived {ackno : WrappingInt32} {windowSize : UInt16}
    (h : FinAcked (s.ackReceived ackno windowSize)) : FinAcked s ∨
      (s.acknosPop ackno ≠ [] ∧ s.nextSeqnoAbsolute = s.stream.bytesWritten + 2 ∧
        ackno = s.nextSeqno) := by
  rcases ackReceived_cases s ackno windowSize with
    ⟨-, heq⟩ | ⟨-, -, heq⟩ | ⟨hn, hpop, heq⟩
  · rw [heq] at h
    exact Or.inl h
  · rw [heq] at h
    exact Or.inl h
  · rw [heq] at h
    obtain ⟨hnext, hflight⟩ := h.of_fillWindow
    change (s.nBytes ackno).toNat = 0 at hflight
    have hzero : s.nBytes ackno = 0 := by omega
    have hackno := eq_wrap_of_nBytes_le s ackno (by omega)
    rw [hzero] at hackno
    exact Or.inr ⟨hpop, hnext, hackno⟩

theorem FinWaits.ackReceived (h : FinWaits s) (ackno : WrappingInt32) (windowSize : UInt16) :
    FinWaits (s.ackReceived ackno windowSize) := by
  rcases ackReceived_cases s ackno windowSize with
    ⟨-, heq⟩ | ⟨-, -, heq⟩ | ⟨-, -, heq⟩
  · rw [heq]
    exact h
  · rw [heq]
    exact h
  · rw [heq]
    exact finWaits_fillWindow _

/-- Acknowledgments are stamped later. -/
theorem Segmented.ack_eq {isn : WrappingInt32} {l : List TCPSegment} {bytes : List UInt8}
    {fin : Bool} (h : Segmented isn l bytes fin) : ∀ seg ∈ l, seg.header.ack = false := by
  apply h.forall_mem
  · rfl
  · exact fun _ _ _ _ _ => rfl
  · exact fun _ => rfl

end

end TCPSender

namespace TCPConnection

open TCPReceiver TCPSegment
open TCPSender (FinAcked FinWaits Sent finDue)

/-- What a connection knows about its peer: the segments in its queue ask for
positions that its receiver has reached, the FIN is acknowledged only if
`peerDone`, and so is the end of the connection, unless it was aborted. -/
structure Closing (peerIsn : WrappingInt32) (peerDone : Prop) (c : TCPConnection) : Prop where
  queued : ∀ seg ∈ c.sender.segmentsOut, seg.header.ack = false
  stamped : ∀ seg ∈ c.segmentsOut, seg.AcksUpTo peerIsn c.receiver.nextWrite
  finAcked : FinAcked c.sender → peerDone
  closed : c.active = false →
    c.sender.stream.error = true ∨ (c.inboundStream.inputEnded = true ∧ peerDone)

/-- At the end of the stream, with nothing in flight, the FIN was sent: otherwise it
would be due. -/
theorem Outbound.finAcked_of_eof {S : List UInt8} {ended : Bool} {capacity : ℕ}
    {isn : WrappingInt32} {c : TCPConnection} (h : Outbound S ended capacity isn c)
    (hwaits : FinWaits c.sender) (heof : c.sender.stream.eof = true)
    (hflight : c.sender.bytesInFlight = 0) : FinAcked c.sender := by
  refine ⟨?_, hflight⟩
  have hle := h.next_le
  rw [← h.bytesWritten_eq] at hle
  by_contra hne
  have hdue : c.sender.finDue = true := by
    rw [finDue, heof, Bool.true_and, decide_eq_true_eq]
    omega
  have hpos := hwaits hdue
  omega

namespace Closing

variable {peerIsn : WrappingInt32} {peerDone peerDone' : Prop} {c : TCPConnection}

theorem start (cfg : TCPConfig) : Closing peerIsn peerDone (new cfg) where
  queued := fun _ hseg => absurd hseg List.not_mem_nil
  stamped := fun _ hseg => absurd hseg List.not_mem_nil
  finAcked := fun hfin => absurd hfin.1 (Nat.succ_ne_zero 1).symm
  closed := nofun

theorem mono (h : Closing peerIsn peerDone c) (hdone : peerDone → peerDone') :
    Closing peerIsn peerDone' c where
  queued := h.queued
  stamped := h.stamped
  finAcked := fun hfin => hdone (h.finAcked hfin)
  closed := fun hclosed => (h.closed hclosed).imp_right fun hend => ⟨hend.1, hdone hend.2⟩

/-- Another sender, in error if the one before was. -/
theorem of_sender (h : Closing peerIsn peerDone c) {s : TCPSender}
    (hqueued : ∀ seg ∈ s.segmentsOut, seg.header.ack = false)
    (hfin : FinAcked s → peerDone) (herror : s.stream.error = c.sender.stream.error) :
    Closing peerIsn peerDone { c with sender := s } where
  queued := hqueued
  stamped := h.stamped
  finAcked := hfin
  closed := by
    intro hclosed
    change s.stream.error = true ∨ _
    rw [herror]
    exact h.closed hclosed

section

variable {S T : List UInt8} {ended peerEnded : Bool} {capacity recvCapacity : ℕ}
  {isn : WrappingInt32} {consumed : List UInt8}

theorem receive (h : Closing peerIsn peerDone c)
    (hi : Inbound T peerEnded recvCapacity peerIsn consumed c) {seg : TCPSegment}
    (hseg : Emitted T peerIsn peerEnded seg) (hrst : seg.header.rst = false) :
    Closing peerIsn peerDone (c.receive seg) where
  queued := h.queued
  stamped := by
    obtain ⟨q, hq⟩ := hi.stores
    intro seg' hseg'
    rcases hseg with hreset | ⟨⟨index, hcut⟩, -⟩
    · rw [hrst] at hreset
      exact absurd hreset (by decide)
    · exact (h.stamped seg' hseg').mono (nextWrite_le_segmentReceived hq hi.tracks hcut)
  finAcked := h.finAcked
  closed := by
    intro hclosed
    refine (h.closed hclosed).imp_right fun hend => ⟨?_, hend.2⟩
    change (c.receiver.segmentReceived seg).streamOut.inputEnded = true
    rw [streamOut_segmentReceived hend.1]
    exact hend.1

theorem sendEmptySegment (h : Closing peerIsn peerDone c) :
    Closing peerIsn peerDone c.sendEmptySegment := by
  refine h.of_sender (s := c.sender.sendEmptySegment) ?_ h.finAcked rfl
  intro seg hseg
  rcases List.mem_append.mp hseg with hseg | hseg
  · exact h.queued seg hseg
  · rw [List.mem_singleton.mp hseg]
    rfl

/-- The segments that `fill_window` or `ack_received` add to the queue carry no
acknowledgment yet. -/
theorem queued_append (h : Closing peerIsn peerDone c) {s : TCPSender}
    {q : BoundedFifo UInt8} {first new : List TCPSegment} {fin : Bool}
    (hsent : Sent isn s q (first ++ new) fin)
    (hout : s.segmentsOut = c.sender.segmentsOut ++ new) :
    ∀ seg ∈ s.segmentsOut, seg.header.ack = false := by
  intro seg hseg
  rw [hout] at hseg
  rcases List.mem_append.mp hseg with hseg | hseg
  · exact h.queued seg hseg
  · exact hsent.segmented.ack_eq seg (List.mem_append_right _ hseg)

theorem fillWindow (h : Closing peerIsn peerDone c) (ho : Outbound S ended capacity isn c) :
    Closing peerIsn peerDone c.fillWindow := by
  obtain ⟨q, first, fin, hsent, -, -⟩ := ho.sent
  obtain ⟨q', new, fin', hsent', -, -, hout, -⟩ := hsent.fillWindow
  exact h.of_sender (h.queued_append hsent' hout) (fun hfin => h.finAcked hfin.of_fillWindow)
    (TCPSender.stream_fillWindow c.sender).2

/-- The acknowledgment of a segment, provided that the number behind the FIN is
only taken once the peer is done. -/
theorem ackReceived (h : Closing peerIsn peerDone c) (ho : Outbound S ended capacity isn c)
    {seg : TCPSegment} (hfin : c.sender.acknosPop seg.header.ackno ≠ [] →
      c.sender.nextSeqnoAbsolute = c.sender.stream.bytesWritten + 2 →
      seg.header.ackno = c.sender.nextSeqno → peerDone) :
    Closing peerIsn peerDone (c.ackReceived seg) := by
  obtain ⟨q, first, fin, hsent, -, -⟩ := ho.sent
  obtain ⟨q', new, fin', hsent', -, -, hout, -⟩ :=
    hsent.ackReceived seg.header.ackno seg.header.win
  apply h.of_sender (h.queued_append hsent' hout) _ (TCPSender.error_ackReceived _ _ _)
  intro hacked
  rcases hacked.of_ackReceived with hold | ⟨hpop, hnext, hackno⟩
  · exact h.finAcked hold
  · exact hfin hpop hnext hackno

/-- A retransmission is stamped anew. -/
theorem tick (h : Closing peerIsn peerDone c) (ho : Outbound S ended capacity isn c) (ms : ℕ) :
    Closing peerIsn peerDone { c with sender := c.sender.tick ms } := by
  obtain ⟨q, first, fin, hsent, -, -⟩ := ho.sent
  obtain ⟨out, time, timeout, retx, heq, hout⟩ := TCPSender.tick_eq c.sender ms
  rw [heq]
  refine h.of_sender ?_ h.finAcked rfl
  intro seg hseg
  rcases List.mem_append.mp hseg with hseg | hseg
  · exact h.queued seg hseg
  · obtain ⟨k, hk⟩ := hout seg hseg
    exact hsent.segmented.ack_eq seg (hsent.mem_first hk)

/-- The connection ends in `_send_data` only once the FIN is acknowledged. -/
theorem sendData (h : Closing peerIsn peerDone c) (ho : Outbound S ended capacity isn c)
    (hi : Inbound T peerEnded recvCapacity peerIsn consumed c) (hwaits : FinWaits c.sender) :
    Closing peerIsn peerDone c.sendData where
  queued := by
    rw [sendData_sender]
    exact fun _ hseg => absurd hseg List.not_mem_nil
  stamped := by
    intro seg hseg
    rw [sendData_segmentsOut] at hseg
    rw [sendData_receiver]
    rcases List.mem_append.mp hseg with hseg | hseg
    · exact h.stamped seg hseg
    · obtain ⟨seg', hseg', rfl⟩ := List.mem_map.mp hseg
      exact hi.tracks.acksUpTo_stamp (h.queued seg' hseg')
  finAcked := by
    rw [sendData_sender]
    exact h.finAcked
  closed := by
    intro hclosed
    rw [sendData_sender, inboundStream, sendData_receiver]
    rcases active_sendData c hclosed with hold | ⟨hended, heof, hflight⟩
    · exact h.closed hold
    · exact Or.inr ⟨hended, h.finAcked (ho.finAcked_of_eof hwaits heof hflight)⟩

theorem abort (h : Closing peerIsn peerDone c) : Closing peerIsn peerDone c.abort where
  queued := h.queued
  stamped := h.stamped
  finAcked := h.finAcked
  closed := fun _ => Or.inl rfl

theorem resetConnection (h : Closing peerIsn peerDone c) :
    Closing peerIsn peerDone c.resetConnection where
  queued := h.queued
  stamped := by
    intro seg hseg
    rcases List.mem_append.mp hseg with hseg | hseg
    · exact h.stamped seg hseg
    · rw [List.mem_singleton.mp hseg]
      exact nofun
  finAcked := h.finAcked
  closed := fun _ => Or.inl rfl

end

end Closing

/-- The FIN is only sent once the application has ended the stream. -/
theorem Outbound.ended_of_finAcked {S : List UInt8} {ended : Bool} {capacity : ℕ}
    {isn : WrappingInt32} {c : TCPConnection} (h : Outbound S ended capacity isn c)
    (hfin : FinAcked c.sender) : ended = true := by
  obtain ⟨q, first, fin, hsent, -, -⟩ := h.sent
  rw [← h.isEnd_eq, (hsent.ended (hsent.fin_of_next hfin.1)).1]

theorem Outbound.finWaits_of_open {S : List UInt8} {capacity : ℕ} {isn : WrappingInt32}
    {c : TCPConnection} (h : Outbound S false capacity isn c) : FinWaits c.sender := by
  intro hdue
  have hisEnd := h.isEnd_eq
  rw [finDue, ByteStream.eof, hisEnd, Bool.false_and, Bool.false_and] at hdue
  exact absurd hdue (by decide)

/-- An input that has ended does not open again. -/
theorem inputEnded_step {c : TCPConnection} (h : c.inboundStream.inputEnded = true) (a : Action) :
    (c.step a).inboundStream.inputEnded = true := by
  have henter : (c.enter a).inboundStream.inputEnded = true :=
    enter_induction (P := fun d => d.inboundStream.inputEnded = true) a h (fun _ => h) h
      (fun _ => h) (fun _ => h) h
  apply step_induction (P := fun d => d.inboundStream.inputEnded = true) a
  · exact fun _ => henter
  · exact fun _ => henter
  · exact fun _ _ _ _ _ => henter
  · intro seg _ _ d hd
    change (d.receiver.segmentReceived seg).streamOut.inputEnded = true
    rwa [streamOut_segmentReceived hd]
  · exact fun d _ hd => hd
  · exact fun d hd => hd
  · intro d hd
    rwa [inboundStream, sendData_receiver]
  · exact fun d hd => hd
  · exact fun d hd => hd

end TCPConnection

end NetworkLabs
