import NetworkLabs.Sponge.TCPConnection.Steps
import NetworkLabs.Sponge.TCPReceiver.HonestPeer
import NetworkLabs.Sponge.TCPSender.Segmentation

/-!
# What a connection emits

Every segment that a connection ever puts into its queue is a reset, or it is
cut from the bytes that its application wrote: the first transmissions are, a
retransmission repeats one of them, an empty segment stands at the next number,
and the acknowledgment that a segment is stamped with does not matter for it. A
FIN is only emitted once the application has ended its stream.
-/

namespace NetworkLabs

namespace TCPSegment

section

variable {S T : List UInt8} {isn : WrappingInt32} {index : ℕ} {seg : TCPSegment}

/-- A stream may grow as long as no FIN was cut from it. -/
theorem CutAt.mono (h : CutAt S isn index seg) (hST : S <+: T)
    (hfin : seg.header.fin = true → S = T) : CutAt T isn index seg where
  slice := h.slice.mono hST
  index_le := le_trans h.index_le (Nat.succ_le_succ hST.length_le)
  syn_index := h.syn_index
  seqno_eq := h.seqno_eq
  fin_end := fun hflag => by rw [← hfin hflag, h.fin_end hflag]

/-- The first transmissions are cut from every stream that continues their
bytes, and that ends with them if the FIN is among them. -/
theorem cutAt_of_segmented {l : List TCPSegment} {bytes : List UInt8} {fin : Bool}
    (h : TCPSender.Segmented isn l bytes fin) (hS : bytes <+: S)
    (hfin : fin = true → bytes = S) : ∀ seg ∈ l, ∃ index, CutAt S isn index seg := by
  induction h with
  | nil => exact fun _ hseg => absurd hseg List.not_mem_nil
  | syn =>
      intro seg hseg
      rw [List.mem_singleton.mp hseg]
      exact ⟨0, {
        slice := IsSlice.nil S 0
        index_le := Nat.zero_le _
        syn_index := fun _ => rfl
        seqno_eq := (wrap_zero isn).symm
        fin_end := fun h => absurd h Bool.false_ne_true }⟩
  | data l bytes payload fin hl hne hpayload hmax ih =>
      intro seg hseg
      rcases List.mem_append.mp hseg with hseg | hseg
      · exact ih ((List.prefix_append _ _).trans hS) (fun h => absurd h Bool.false_ne_true)
          seg hseg
      · rw [List.mem_singleton.mp hseg]
        refine ⟨bytes.length, {
          slice := ?_
          index_le := ?_
          syn_index := fun h => absurd h Bool.false_ne_true
          seqno_eq := rfl
          fin_end := ?_ }⟩
        · obtain ⟨rest, hrest⟩ := hS
          rw [IsSlice, ← hrest, List.append_assoc, List.drop_left]
          exact List.prefix_append _ _
        · have hlen := hS.length_le
          rw [List.length_append] at hlen
          omega
        · intro hflag
          rw [← hfin hflag, List.length_append]
  | fin l bytes hl hne ih =>
      intro seg hseg
      rcases List.mem_append.mp hseg with hseg | hseg
      · exact ih hS (fun h => absurd h Bool.false_ne_true) seg hseg
      · rw [List.mem_singleton.mp hseg]
        exact ⟨bytes.length, {
          slice := IsSlice.nil S _
          index_le := by
            have hlen := hS.length_le
            omega
          syn_index := fun h => absurd h Bool.false_ne_true
          seqno_eq := rfl
          fin_end := fun _ => by rw [← hfin rfl, List.length_nil, Nat.add_zero] }⟩

end

/-- A segment of an endpoint that has accepted the bytes `S`, and has ended its
stream or not. -/
def Emitted (S : List UInt8) (isn : WrappingInt32) (ended : Bool) (seg : TCPSegment) : Prop :=
  seg.header.rst = true ∨
    (∃ index, CutAt S isn index seg) ∧ (seg.header.fin = true → ended = true)

section

variable {S T : List UInt8} {isn : WrappingInt32} {ended ended' : Bool} {seg : TCPSegment}

/-- An endpoint that has not ended its stream may accept more. -/
theorem Emitted.mono (h : Emitted S isn ended seg) (hST : S <+: T)
    (hopen : ended = true → S = T ∧ ended' = true) : Emitted T isn ended' seg := by
  rcases h with hrst | ⟨⟨index, hcut⟩, hfin⟩
  · exact Or.inl hrst
  · exact Or.inr ⟨⟨index, hcut.mono hST fun hflag => (hopen (hfin hflag)).1⟩,
      fun hflag => (hopen (hfin hflag)).2⟩

theorem Emitted.stamp (h : Emitted S isn ended seg) (r : TCPReceiver) :
    Emitted S isn ended (TCPConnection.stamp r seg) := by
  rw [TCPConnection.stamp]
  cases r.ackno with
  | none => exact h
  | some ackno =>
      rcases h with hrst | ⟨⟨index, hcut⟩, hfin⟩
      · exact Or.inl hrst
      · exact Or.inr ⟨⟨index, { hcut with }⟩, hfin⟩

end

end TCPSegment

namespace TCPSender

open TCPSegment

section

variable {isn : WrappingInt32} {s : TCPSender} {q : BoundedFifo UInt8}
  {first : List TCPSegment} {fin : Bool}

theorem Sent.setError (h : Sent isn s q first fin) :
    Sent isn { s with stream := s.stream.setError } q first fin :=
  { h with refines := h.refines.setError }

theorem Sent.emitted (h : Sent isn s q first fin) :
    ∀ seg ∈ first, Emitted q.written isn s.stream.isEnd seg := by
  intro seg hseg
  refine Or.inr ⟨cutAt_of_segmented h.segmented (List.take_prefix _ _) ?_ seg hseg, ?_⟩
  · intro hfin
    rw [(h.ended hfin).2, List.take_length]
  · intro hflag
    cases hfin : fin with
    | false =>
        rw [h.segmented.not_fin hfin seg hseg] at hflag
        exact absurd hflag (by decide)
    | true => exact (h.ended hfin).1

/-- The empty segment of a sender that has sent its SYN. -/
theorem Sent.emitted_emptySegment (h : Sent isn s q first fin)
    (hnext : s.nextSeqnoAbsolute ≠ 0) :
    Emitted q.written isn s.stream.isEnd s.emptySegment := by
  have hle := h.next_le
  refine Or.inr ⟨⟨s.nextSeqnoAbsolute - 1, {
    slice := IsSlice.nil _ _
    index_le := by omega
    syn_index := fun h => absurd h Bool.false_ne_true
    seqno_eq := ?_
    fin_end := nofun }⟩, nofun⟩
  change wrap s.nextSeqnoAbsolute s.isn = wrap (s.nextSeqnoAbsolute - 1 + 1) isn
  rw [h.isn_eq, Nat.sub_add_cancel (Nat.pos_of_ne_zero hnext)]

end

end TCPSender

namespace TCPConnection

open TCPSegment TCPSender

/-- The sender of the connection has transmitted the accepted bytes `S` as far
as its window reached, and all that was emitted is cut from them. -/
structure Outbound (S : List UInt8) (ended : Bool) (capacity : ℕ) (isn : WrappingInt32)
    (c : TCPConnection) : Prop where
  sent : ∃ q first fin, Sent isn c.sender q first fin ∧ q.written = S ∧ q.capacity = capacity
  isEnd_eq : c.sender.stream.isEnd = ended
  emitted : ∀ seg ∈ c.segmentsOut ++ c.sender.segmentsOut, Emitted S isn ended seg

namespace Outbound

variable {S : List UInt8} {ended : Bool} {capacity : ℕ} {isn : WrappingInt32}
  {c : TCPConnection}

theorem start (cfg : TCPConfig) (h : cfg.sendCapacity < 2 ^ 31) :
    Outbound [] false cfg.sendCapacity cfg.isn (new cfg) where
  sent := ⟨_, _, _, sent_new _ _ _ h, rfl, rfl⟩
  isEnd_eq := rfl
  emitted := fun _ hseg => absurd hseg List.not_mem_nil

theorem isn_eq (h : Outbound S ended capacity isn c) : c.sender.isn = isn := by
  obtain ⟨q, first, fin, hsent, -, -⟩ := h.sent
  exact hsent.isn_eq

theorem bytesWritten_eq (h : Outbound S ended capacity isn c) :
    c.sender.stream.bytesWritten = S.length := by
  obtain ⟨q, first, fin, hsent, hwritten, -⟩ := h.sent
  rw [hsent.refines.bytesWritten_eq, hwritten]

theorem next_le (h : Outbound S ended capacity isn c) :
    c.sender.nextSeqnoAbsolute ≤ S.length + 2 := by
  obtain ⟨q, first, fin, hsent, hwritten, -⟩ := h.sent
  rw [← hwritten]
  exact hsent.next_le

/-- Another sender with the same stream, whose further segments were
transmitted. -/
theorem of_sent (h : Outbound S ended capacity isn c) {s : TCPSender}
    {q : BoundedFifo UInt8} {first new : List TCPSegment} {fin : Bool}
    (hsent : Sent isn s q first fin) (hwritten : q.written = S) (hcap : q.capacity = capacity)
    (hend : s.stream.isEnd = ended) (hout : s.segmentsOut = c.sender.segmentsOut ++ new)
    (hnew : ∀ seg ∈ new, Emitted S isn ended seg) :
    Outbound S ended capacity isn { c with sender := s } where
  sent := ⟨q, first, fin, hsent, hwritten, hcap⟩
  isEnd_eq := hend
  emitted := by
    intro seg hseg
    change seg ∈ c.segmentsOut ++ s.segmentsOut at hseg
    rw [hout, ← List.append_assoc] at hseg
    rcases List.mem_append.mp hseg with hseg | hseg
    · exact h.emitted seg hseg
    · exact hnew seg hseg

theorem receive (h : Outbound S ended capacity isn c) (seg : TCPSegment) :
    Outbound S ended capacity isn (c.receive seg) := { h with }

theorem fillWindow (h : Outbound S ended capacity isn c) :
    Outbound S ended capacity isn c.fillWindow := by
  obtain ⟨q, first, fin, hsent, hwritten, hcap⟩ := h.sent
  obtain ⟨q', new, fin', hsent', hwritten', hcap', hout, hend⟩ := hsent.fillWindow
  have hisEnd : c.sender.fillWindow.stream.isEnd = ended := hend.trans h.isEnd_eq
  refine h.of_sent hsent' (hwritten'.trans hwritten) (hcap'.trans hcap) hisEnd hout ?_
  intro seg hseg
  rw [← hwritten, ← hwritten', ← hisEnd]
  exact hsent'.emitted seg (List.mem_append_right _ hseg)

theorem ackReceived (h : Outbound S ended capacity isn c) (seg : TCPSegment) :
    Outbound S ended capacity isn (c.ackReceived seg) := by
  obtain ⟨q, first, fin, hsent, hwritten, hcap⟩ := h.sent
  obtain ⟨q', new, fin', hsent', hwritten', hcap', hout, hend⟩ :=
    hsent.ackReceived seg.header.ackno seg.header.win
  have hisEnd := hend.trans h.isEnd_eq
  refine h.of_sent hsent' (hwritten'.trans hwritten) (hcap'.trans hcap) hisEnd hout ?_
  intro seg' hseg'
  rw [← hwritten, ← hwritten', ← hisEnd]
  exact hsent'.emitted seg' (List.mem_append_right _ hseg')

theorem sendEmptySegment (h : Outbound S ended capacity isn c)
    (hnext : c.sender.nextSeqnoAbsolute ≠ 0) :
    Outbound S ended capacity isn c.sendEmptySegment := by
  obtain ⟨q, first, fin, hsent, hwritten, hcap⟩ := h.sent
  have hempty : Sent isn c.sender.sendEmptySegment q first fin := { hsent with }
  refine h.of_sent hempty hwritten hcap h.isEnd_eq rfl ?_
  intro seg hseg
  rw [List.mem_singleton.mp hseg, ← hwritten, ← h.isEnd_eq]
  exact hsent.emitted_emptySegment hnext

theorem sendData (h : Outbound S ended capacity isn c) :
    Outbound S ended capacity isn c.sendData where
  sent := by
    obtain ⟨q, first, fin, hsent, hwritten, hcap⟩ := h.sent
    rw [sendData_sender]
    exact ⟨q, first, fin, { hsent with }, hwritten, hcap⟩
  isEnd_eq := by
    rw [sendData_sender]
    exact h.isEnd_eq
  emitted := by
    intro seg hseg
    rw [sendData_sender, sendData_segmentsOut, List.append_nil] at hseg
    rcases List.mem_append.mp hseg with hseg | hseg
    · exact h.emitted seg (List.mem_append_left _ hseg)
    · obtain ⟨seg', hseg', rfl⟩ := List.mem_map.mp hseg
      exact (h.emitted seg' (List.mem_append_right _ hseg')).stamp c.receiver

theorem abort (h : Outbound S ended capacity isn c) :
    Outbound S ended capacity isn c.abort where
  sent := by
    obtain ⟨q, first, fin, hsent, hwritten, hcap⟩ := h.sent
    exact ⟨q, first, fin, hsent.setError, hwritten, hcap⟩
  isEnd_eq := h.isEnd_eq
  emitted := h.emitted

theorem resetConnection (h : Outbound S ended capacity isn c) :
    Outbound S ended capacity isn c.resetConnection := by
  apply abort
  exact {
    sent := h.sent
    isEnd_eq := h.isEnd_eq
    emitted := by
      intro seg hseg
      simp only [List.mem_append, List.mem_singleton] at hseg
      rcases hseg with (hseg | rfl) | hseg
      · exact h.emitted seg (List.mem_append_left _ hseg)
      · exact Or.inl rfl
      · exact h.emitted seg (List.mem_append_right _ hseg) }

theorem tick (h : Outbound S ended capacity isn c) (ms : ℕ) :
    Outbound S ended capacity isn { c with sender := c.sender.tick ms } := by
  obtain ⟨q, first, fin, hsent, hwritten, hcap⟩ := h.sent
  have hsent' := hsent.tick ms
  obtain ⟨out, time, timeout, retx, heq, hout⟩ := tick_eq c.sender ms
  rw [heq] at hsent' ⊢
  refine h.of_sent hsent' hwritten hcap h.isEnd_eq rfl ?_
  intro seg hseg
  obtain ⟨k, hk⟩ := hout seg hseg
  rw [← hwritten, ← h.isEnd_eq]
  exact hsent.emitted seg (hsent.mem_first hk)

/-- The stream of an application that has not ended it accepts `data` as far as
there is room. -/
theorem write (h : Outbound S false capacity isn c) (data : List UInt8)
    (hbound : (S ++ data.take (c.sender.stream.write data).2).length + capacity < 2 ^ 31) :
    Outbound (S ++ data.take (c.sender.stream.write data).2) false capacity isn
      { c with sender := { c.sender with stream := (c.sender.stream.write data).1 } } where
  sent := by
    obtain ⟨q, first, fin, hsent, hwritten, hcap⟩ := h.sent
    have hpush : (q.push data).written = S ++ data.take (c.sender.stream.write data).2 := by
      rw [BoundedFifo.written_push, hwritten, hsent.refines.take_write_snd]
    have hsent' := hsent.write data h.isEnd_eq (by rw [hpush, hcap]; exact hbound)
    exact ⟨_, first, fin, hsent', hpush, hcap⟩
  isEnd_eq := by
    rw [ByteStream.isEnd_write]
    exact h.isEnd_eq
  emitted := by
    intro seg hseg
    exact (h.emitted seg hseg).mono (List.prefix_append _ _) nofun

theorem endInput (h : Outbound S ended capacity isn c) :
    Outbound S true capacity isn
      { c with sender := { c.sender with stream := c.sender.stream.endInput } } where
  sent := by
    obtain ⟨q, first, fin, hsent, hwritten, hcap⟩ := h.sent
    exact ⟨q, first, fin, hsent.endInput, hwritten, hcap⟩
  isEnd_eq := rfl
  emitted := fun seg hseg => (h.emitted seg hseg).mono List.prefix_rfl fun _ => ⟨rfl, rfl⟩

end Outbound

end TCPConnection

end NetworkLabs
