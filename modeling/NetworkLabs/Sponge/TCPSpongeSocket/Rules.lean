import NetworkLabs.Sponge.ByteStream.Runs
import NetworkLabs.Sponge.Network.Silence
import NetworkLabs.Sponge.TCPConnection.Finished
import NetworkLabs.Sponge.TCPConnection.Sendable
import NetworkLabs.Sponge.TCPSpongeSocket

/-!
# What the rules of a socket do

The socket drives its connection as an endpoint of the network may be driven: each rule is
a few actions of the endpoint, and it moves bytes between a stream of the connection and
a pipe. `Follows` relates a socket to the endpoint that its connection has become. The
bytes that the owner has written are those that the connection has accepted, and those
that wait in the pipe; the bytes that the connection has handed out are those that the
owner has read, and those that wait in the other pipe.
-/

namespace NetworkLabs

namespace Endpoint

open TCPConnection

/-- What may happen to an endpoint whose peer has put out `peer`. -/
def Allowed (peer : List TCPSegment) (e : Endpoint) : Action → Prop
  | .segmentReceived seg => seg ∈ peer
  | .write _ => e.ended = false
  | _ => True

/-- The endpoint gets from one state to the other. -/
def Reaches (peer : List TCPSegment) (e e' : Endpoint) : Prop :=
  ∃ actions, Transition.Along step (Allowed peer) e actions ∧ actions.foldl step e = e'

namespace Reaches

variable {peer : List TCPSegment} {e e' e'' : Endpoint}

theorem refl (peer : List TCPSegment) (e : Endpoint) : Reaches peer e e := ⟨[], trivial, rfl⟩

theorem step {a : Action} (h : Reaches peer e e') (ha : Allowed peer e' a) :
    Reaches peer e (e'.step a) := by
  obtain ⟨actions, hallowed, rfl⟩ := h
  exact ⟨actions ++ [a], (Transition.along_concat _ _ _).mpr ⟨hallowed, ha⟩,
    List.foldl_concat _ _ _ _⟩

end Reaches

end Endpoint

namespace LocalStream

variable {s : LocalStream}

/-- What is read is taken from the front, and nothing is read at the end only. -/
theorem read_spec (s : LocalStream) (size : ℕ) (kernel : Answer ℕ) :
    (s.read size kernel).2.shut = s.shut ∧ ∀ data, (s.read size kernel).1 = .ok data →
      data.length ≤ size ∧ data ++ (s.read size kernel).2.content = s.content ∧
      (data = [] → 0 < size → s.content = [] ∧ s.shut = true) := by
  cases kernel with
  | error errno => exact ⟨rfl, nofun⟩
  | ok n =>
      rw [read]
      split_ifs with hsize hnil hshut
      · refine ⟨rfl, ?_⟩
        rintro data ⟨rfl⟩
        exact ⟨Nat.zero_le _, rfl, fun _ h => absurd h (by omega)⟩
      · refine ⟨rfl, ?_⟩
        rintro data ⟨rfl⟩
        exact ⟨Nat.zero_le _, rfl, fun _ _ => ⟨hnil, hshut⟩⟩
      · exact ⟨rfl, nofun⟩
      · refine ⟨rfl, ?_⟩
        rintro data ⟨rfl⟩
        have hpos := List.length_pos_iff.mpr hnil
        refine ⟨?_, List.take_append_drop _ _, fun htake => ?_⟩
        · rw [List.length_take]
          omega
        · have hlen := congrArg List.length htake
          rw [List.length_take, List.length_nil] at hlen
          omega

/-- What is written is a part of the data from its front. -/
theorem write_spec (s : LocalStream) (data : List UInt8) (kernel : Answer ℕ) {n : ℕ}
    (h : (s.write data kernel).1 = .ok n) : n ≤ data.length ∧
      (s.write data kernel).2 = { s with content := s.content ++ data.take n } := by
  cases kernel with
  | error errno => exact nomatch h
  | ok k =>
      revert h
      rw [write]
      split_ifs with hshut hnil hzero
      · exact nofun
      · rintro ⟨rfl⟩
        refine ⟨Nat.zero_le _, ?_⟩
        simp
      · exact nofun
      · rintro ⟨rfl⟩
        refine ⟨min_le_right _ _, ?_⟩
        rcases Nat.le_total k data.length with hle | hle
        · rw [min_eq_left hle]
        · rw [min_eq_right hle, List.take_of_length_le hle, List.take_of_length_le le_rfl]

end LocalStream

namespace TCPConnection

/-- As much as the stream has room for is accepted. -/
theorem write_accepts (c : TCPConnection) {data : List UInt8}
    (hroom : data.length ≤ c.remainingOutboundCapacity) (hlen : data.length < 2 ^ 31) :
    (c.write data).2 = data.length := by
  rw [write]
  split_ifs with hnil
  · rw [hnil]
    rfl
  · have hmin : min data.length c.sender.stream.remainingCapacity = data.length :=
      min_eq_left hroom
    change sizeT (Int32.ofInt (min data.length c.sender.stream.remainingCapacity : ℕ)).toInt = _
    rw [hmin, MachineInt.toInt_ofInt_natCast _ hlen]
    exact MachineInt.unsigned_eq_of_natCast_eq 64 _ _ rfl (by omega)

/-- A connection that has ended stays so. -/
theorem active_endInputStream {c : TCPConnection} (h : c.active = false) :
    c.endInputStream.active = false := by
  have hclose : ∀ d : TCPConnection, d.active = false → d.closeIfFinished.active = false := by
    intro d hd
    rw [closeIfFinished]
    split_ifs
    all_goals first | rfl | exact hd
  exact hclose _ h

theorem receiver_endInputStream (c : TCPConnection) :
    c.endInputStream.receiver = c.receiver := sendData_receiver _

end TCPConnection

namespace TCPSpongeSocket

open EventLoop TCPConnection
open Halting (Ends)

variable {AdaptT Din Dout : Type}

/-- The adapter was handed the segments one by one, and `datagrams` is what it made of them;
a segment that was dropped has left no datagram. -/
def Sent (ad : FdAdapter AdaptT Din Dout) (segs : List TCPSegment) (datagrams : List Dout) :
    Prop :=
  ∃ outs : List (Option Dout), datagrams = outs.reduceOption ∧
    List.Forall₂ (fun seg out => ∃ a w a', ad.write a w seg = .ok (out, a')) segs outs

theorem sent_writeSegments {ad : FdAdapter AdaptT Din Dout} {carries : Dout → Din → Prop}
    (had : ad.Faithful carries) {segs more : List TCPSegment} (writes : List WriteAnswer)
    (adapter : AdaptT) {datagrams : List Dout} (h : Sent ad segs datagrams) :
    Ends Failure.Foreign (fun r => Sent ad (segs ++ more) r.2)
      (writeSegments ad more writes adapter datagrams) := by
  induction more generalizing segs writes adapter datagrams with
  | nil =>
      rw [List.append_nil]
      exact h
  | cons seg more ih =>
      rw [writeSegments]
      cases hwrite : ad.write adapter (writes.headD {}) seg with
      | error e => exact had.foreign_write hwrite
      | ok r =>
          obtain ⟨out, adapter'⟩ := r
          obtain ⟨outs, rfl, hall⟩ := h
          have hnext : Sent ad (segs ++ [seg]) (outs.reduceOption ++ out.toList) := by
            refine ⟨outs ++ [out], ?_, ?_⟩
            · rw [List.reduceOption_append]
              cases out with
              | none => rfl
              | some dout => rfl
            · exact List.rel_append hall (.cons ⟨_, _, _, hwrite⟩ .nil)
          have hrest := ih writes.tail adapter' hnext
          rwa [List.append_assoc, List.singleton_append] at hrest

/-- The socket has driven its connection to the endpoint `e`. The rules in `hang` may have
been cancelled by a hangup. -/
structure Follows (ad : FdAdapter AdaptT Din Dout) (hang : RuleName → Prop)
    (s : TCPSpongeSocket AdaptT Dout) (e : Endpoint) : Prop where
  conn_eq : e.conn = s.tcp
  accepted_eq : e.accepted ++ s.outboundPipe.content = s.ownerWritten
  consumed_eq : s.ownerRead ++ s.inboundPipe.content = e.consumed
  shutdown_of_ended : e.ended = true → s.outboundShutdown = true
  eof_of_ended : ¬ hang .dataIn → e.ended = true → s.threadData.eof = true
  drained : s.threadData.eof = true → s.outboundPipe.content = [] ∧ s.outboundPipe.shut = true
  not_closed : s.threadData.closed = false
  shut_eq : s.inboundPipe.shut = s.inboundShutdown
  finished : s.inboundShutdown = true → s.tcp.inboundFinished = true
  sendable : s.tcp.SendsSendable
  popped_le : s.popped ≤ s.tcp.segmentsOut.length
  sent : Sent ad (s.tcp.segmentsOut.take s.popped) s.datagrams

/-- What a rule comes to: the socket follows the endpoint that the other one has been driven
to, and rule 2 is still as it was. -/
def Drives (ad : FdAdapter AdaptT Din Dout) (hang : RuleName → Prop) (peer : List TCPSegment)
    (e : Endpoint) (s : TCPSpongeSocket AdaptT Dout) : Prop :=
  ∃ e', Endpoint.Reaches peer e e' ∧ Follows ad hang s e'

namespace Follows

variable {ad : FdAdapter AdaptT Din Dout} {hang : RuleName → Prop}
  {s : TCPSpongeSocket AdaptT Dout} {e : Endpoint}

theorem datagram_mem (h : Follows ad hang s e) {dout : Dout} (hdout : dout ∈ s.datagrams) :
    ∃ seg ∈ s.tcp.segmentsOut, ∃ a w a', ad.write a w seg = .ok (some dout, a') := by
  obtain ⟨outs, houts, hall⟩ := h.sent
  rw [houts, List.reduceOption_mem_iff] at hdout
  obtain ⟨n, hn, hget⟩ := List.getElem_of_mem hdout
  have hn' : n < (s.tcp.segmentsOut.take s.popped).length := hall.length_eq ▸ hn
  have hwrite := hall.get hn' hn
  rw [List.get_eq_getElem, List.get_eq_getElem, hget] at hwrite
  exact ⟨_, List.mem_of_mem_take (List.getElem_mem hn'), hwrite⟩

/-- What has left the queue stays what it is. -/
theorem sent_step (h : Follows ad hang s e) (a : Action) :
    Sent ad ((s.tcp.step a).segmentsOut.take s.popped) s.datagrams := by
  obtain ⟨more, hmore⟩ := segmentsOut_prefix_step s.tcp a
  rw [← hmore, List.take_append_of_le_length h.popped_le]
  exact h.sent

/-- The connection has done something that concerns neither the pipes nor the adapter. -/
theorem step (h : Follows ad hang s e) (a : Action) (haccepted : (e.step a).accepted = e.accepted)
    (hconsumed : (e.step a).consumed = e.consumed) (hended : (e.step a).ended = e.ended) :
    Follows ad hang { s with tcp := s.tcp.step a } (e.step a) where
  conn_eq := by
    rw [← h.conn_eq]
    rfl
  accepted_eq := by
    rw [haccepted]
    exact h.accepted_eq
  consumed_eq := by
    rw [hconsumed]
    exact h.consumed_eq
  shutdown_of_ended := by
    rw [hended]
    exact h.shutdown_of_ended
  eof_of_ended := by
    rw [hended]
    exact h.eof_of_ended
  drained := h.drained
  not_closed := h.not_closed
  shut_eq := h.shut_eq
  finished := fun hshut => inboundFinished_step (h.finished hshut) a
  sendable := h.sendable.step a
  popped_le := h.popped_le.trans (segmentsOut_prefix_step s.tcp a).length_le
  sent := h.sent_step a

/-- Rule 1: what is received was put out by the peer. -/
theorem receiveDatagram (h : Follows ad hang s e) {carries : Dout → Din → Prop}
    (had : ad.Faithful carries) {peer : List TCPSegment} {e₀ : Endpoint}
    (hreach : Endpoint.Reaches peer e₀ e) {i : Answers Din}
    (hpeer : ∀ din, i.datagram = .ok din → ∃ dout, carries dout din ∧
      ∃ seg ∈ peer, seg.Sendable ∧ ∃ a w a', ad.write a w seg = .ok (some dout, a')) :
    Ends Failure.Foreign (fun s' => Drives ad hang peer e₀ s' ∧
        s'.outboundShutdown = s.outboundShutdown ∧
        (ad.fd s'.datagramAdapter).readCount = (ad.fd s.datagramAdapter).readCount + 1)
      (receiveDatagram ad i s) := by
  rw [TCPSpongeSocket.receiveDatagram]
  cases hread : ad.read s.datagramAdapter i.rand i.datagram with
  | error e => exact had.foreign_read hread
  | ok r =>
      obtain ⟨seg', adapter⟩ := r
      have hcount := had.counts hread
      have hadapter : Follows ad hang { s with datagramAdapter := adapter } e := { h with }
      cases seg' with
      | none => exact ⟨⟨e, hreach, hadapter⟩, rfl, hcount⟩
      | some seg' =>
          obtain ⟨din, hdin⟩ := had.answered hread
          obtain ⟨dout, hcarries, seg, hseg, hsendable, a, w, a', hwrite⟩ := hpeer din hdin
          rw [hdin] at hread
          obtain ⟨sport, dport, cksum, rfl⟩ := had.brings hsendable hwrite hcarries hread
          refine ⟨⟨e.step (.segmentReceived seg), hreach.step hseg, ?_⟩, rfl, hcount⟩
          exact hadapter.step (.segmentReceived seg) rfl rfl rfl

/-- Rule 2 has read `data` from the pipe and written it to the connection. -/
theorem writeData (h : Follows ad hang s e) {data : List UInt8} {pipe : LocalStream}
    {fd : FileDescriptor} (hcontent : data ++ pipe.content = s.outboundPipe.content)
    (haccepts : (s.tcp.write data).2 = data.length) (hopen : e.ended = false)
    (hclosed : fd.closed = false)
    (hdrained : fd.eof = true → pipe.content = [] ∧ pipe.shut = true) :
    Follows ad hang
      { s with tcp := (s.tcp.write data).1, threadData := fd, outboundPipe := pipe }
      (e.step (.write data)) where
  conn_eq := by
    rw [← h.conn_eq]
    rfl
  accepted_eq := by
    change e.accepted ++ data.take (e.conn.write data).2 ++ pipe.content = s.ownerWritten
    rw [h.conn_eq, haccepts, List.take_length, List.append_assoc, hcontent, h.accepted_eq]
  consumed_eq := h.consumed_eq
  shutdown_of_ended := fun hended => absurd (hopen.symm.trans hended) (by decide)
  eof_of_ended := fun _ hended => absurd (hopen.symm.trans hended) (by decide)
  drained := hdrained
  not_closed := hclosed
  shut_eq := h.shut_eq
  finished := fun hshut => inboundFinished_step (h.finished hshut) (.write data)
  sendable := h.sendable.step (.write data)
  popped_le := h.popped_le.trans (segmentsOut_prefix_step s.tcp (.write data)).length_le
  sent := h.sent_step (.write data)

/-- The outbound stream is ended, by rule 2 or when it is cancelled. -/
theorem endInputStream (h : Follows ad hang s e)
    (heof : ¬ hang .dataIn → s.threadData.eof = true) :
    Follows ad hang { s with tcp := s.tcp.endInputStream, outboundShutdown := true }
      (e.step .endInputStream) where
  conn_eq := by
    rw [← h.conn_eq]
    rfl
  accepted_eq := h.accepted_eq
  consumed_eq := h.consumed_eq
  shutdown_of_ended := fun _ => rfl
  eof_of_ended := fun hhang _ => heof hhang
  drained := h.drained
  not_closed := h.not_closed
  shut_eq := h.shut_eq
  finished := fun hshut => inboundFinished_step (h.finished hshut) .endInputStream
  sendable := h.sendable.step .endInputStream
  popped_le := h.popped_le.trans (segmentsOut_prefix_step s.tcp .endInputStream).length_le
  sent := h.sent_step .endInputStream

/-- Rule 2: the connection accepts everything that is read, and at the end of the pipe its
stream is ended. -/
theorem readPipe (h : Follows ad hang s e) {peer : List TCPSegment} {e₀ : Endpoint}
    (hreach : Endpoint.Reaches peer e₀ e) (hopen : s.outboundShutdown = false)
    (i : Answers Din) :
    Ends Failure.Foreign (fun s' => Drives ad hang peer e₀ s' ∧
        s'.threadData.readCount = s.threadData.readCount + 1)
      (readPipe i s) := by
  have hended : e.ended = false := by
    by_contra hended
    rw [Bool.not_eq_false] at hended
    exact absurd (hopen.symm.trans (h.shutdown_of_ended hended)) (by decide)
  obtain ⟨hshut, hpipe⟩ := s.outboundPipe.read_spec
    (FileDescriptor.sizeToRead s.tcp.remainingOutboundCapacity) i.outbound
  rw [TCPSpongeSocket.readPipe]
  generalize s.outboundPipe.read (FileDescriptor.sizeToRead s.tcp.remainingOutboundCapacity)
    i.outbound = r at hshut hpipe ⊢
  obtain ⟨answer, pipe⟩ := r
  simp only at hshut hpipe ⊢
  cases hread : s.threadData.read s.tcp.remainingOutboundCapacity answer with
  | error e => exact FileDescriptor.foreign_read hread
  | ok r =>
      obtain ⟨data, fd⟩ := r
      have hcount := FileDescriptor.readCount_read hread
      obtain ⟨rfl, hlength, hfd⟩ := FileDescriptor.read_eq_ok hread
      obtain ⟨-, hcontent, hnothing⟩ := hpipe data rfl
      have hlimit : data.length ≤ FileDescriptor.BUFFER_SIZE ∧
          data.length ≤ s.tcp.remainingOutboundCapacity := le_min_iff.mp hlength
      have hsmall : FileDescriptor.BUFFER_SIZE < 2 ^ 31 := by decide
      have haccepts := s.tcp.write_accepts hlimit.2 (by omega)
      have hdrained : fd.eof = true → pipe.content = [] ∧ pipe.shut = true := by
        intro heof
        have hwhole : s.outboundPipe.content = [] ∧ s.outboundPipe.shut = true := by
          rw [hfd] at heof
          split_ifs at heof with hend
          · apply hnothing (List.eq_nil_of_length_eq_zero hend.2)
            exact lt_min (by decide) hend.1
          · exact h.drained heof
        rw [hwhole.1, List.append_eq_nil_iff] at hcontent
        exact ⟨hcontent.2, hshut.trans hwhole.2⟩
      have hclosed : fd.closed = false := by
        rw [hfd]
        split_ifs
        · exact h.not_closed
        · exact h.not_closed
      have hwritten := h.writeData hcontent haccepts hended hclosed hdrained
      have hreach' := hreach.step (a := .write data) hended
      simp only [bind, Except.bind, haccepts, ne_eq, not_true_eq_false, if_false]
      split_ifs with heof
      · have hend := hreach'.step (a := .endInputStream) trivial
        exact ⟨⟨_, hend, hwritten.endInputStream fun _ => heof⟩, hcount⟩
      · exact ⟨⟨_, hreach', hwritten⟩, hcount⟩

/-- Rule 3 has popped the `n` bytes that the pipe has taken, and may have shut it down. -/
theorem readInbound (h : Follows ad hang s e) {n : ℕ} (fd : FileDescriptor)
    (heof : fd.eof = s.threadData.eof) (hclosed : fd.closed = s.threadData.closed)
    {shut done : Bool} (hshut : shut = done)
    (hdone : done = true → (s.tcp.popInbound n).inboundFinished = true) :
    Follows ad hang { s with
      tcp := s.tcp.popInbound n
      threadData := fd
      inboundPipe := ⟨s.inboundPipe.content ++ (s.tcp.read n).2, shut⟩
      inboundShutdown := done } (e.step (.read n)) where
  conn_eq := by
    rw [← h.conn_eq]
    rfl
  accepted_eq := h.accepted_eq
  consumed_eq := by
    change s.ownerRead ++ (s.inboundPipe.content ++ (s.tcp.read n).2) =
      e.consumed ++ (e.conn.read n).2
    rw [← List.append_assoc, h.consumed_eq, h.conn_eq]
  shutdown_of_ended := h.shutdown_of_ended
  eof_of_ended := by
    intro hhang hended
    exact heof.trans (h.eof_of_ended hhang hended)
  drained := by
    intro hend
    exact h.drained (heof.symm.trans hend)
  not_closed := hclosed.trans h.not_closed
  shut_eq := hshut
  finished := hdone
  sendable := h.sendable.step (.read n)
  popped_le := h.popped_le
  sent := h.sent

/-- Rule 3: what the pipe takes is popped from the inbound stream, and the pipe is shut down
once the stream is finished. -/
theorem writePipe (h : Follows ad hang s e) {peer : List TCPSegment} {e₀ : Endpoint}
    (hreach : Endpoint.Reaches peer e₀ e) (i : Answers Din) :
    Ends Failure.Foreign (fun s' => Drives ad hang peer e₀ s' ∧
        s'.outboundShutdown = s.outboundShutdown ∧
        (s'.threadData.writeCount = s.threadData.writeCount + 1 ∨
          s'.threadData.writeCount = s.threadData.writeCount + 1 + 1))
      (writePipe i s) := by
  rw [TCPSpongeSocket.writePipe]
  simp only
  set buffer := s.tcp.inboundStream.peekOutput (min 65536 s.tcp.inboundStream.bufferSize)
    with hbuffer
  cases hcall : s.threadData.writeOnce [buffer] (s.inboundPipe.write buffer i.inbound).1 with
  | error e => exact FileDescriptor.foreign_writeOnce hcall
  | ok r =>
      obtain ⟨n, rest, fd⟩ := r
      obtain ⟨-, -, -, rfl⟩ := FileDescriptor.writeOnce_spec hcall
      obtain ⟨hanswer, -⟩ := FileDescriptor.writeOnce_eq_ok_iff.mp hcall
      obtain ⟨hn, hpipe⟩ := s.inboundPipe.write_spec buffer i.inbound hanswer
      have htaken : buffer.take n = (s.tcp.read n).2 :=
        s.tcp.inboundStream.take_peekOutput (by omega) hn
      have hreach' := hreach.step (a := .read n) trivial
      rw [htaken] at hpipe
      simp only [bind, Except.bind, hpipe]
      split_ifs with hfinished
      · refine ⟨⟨_, hreach', ?_⟩, rfl, Or.inr rfl⟩
        exact h.readInbound s.threadData.registerWrite.registerWrite rfl rfl rfl
          fun _ => hfinished
      · refine ⟨⟨_, hreach', ?_⟩, rfl, Or.inl rfl⟩
        exact h.readInbound s.threadData.registerWrite rfl rfl h.shut_eq
          fun hshut => inboundFinished_step (h.finished hshut) (.read n)

/-- Rule 4: every segment in the queue is handed to the adapter, in its order. -/
theorem sendDatagrams (h : Follows ad hang s e) {carries : Dout → Din → Prop}
    (had : ad.Faithful carries) {peer : List TCPSegment} {e₀ : Endpoint}
    (hreach : Endpoint.Reaches peer e₀ e) (i : Answers Din) :
    Ends Failure.Foreign (fun s' => Drives ad hang peer e₀ s' ∧
        s'.outboundShutdown = s.outboundShutdown ∧ s'.pending = [])
      (sendDatagrams ad i s) := by
  rw [TCPSpongeSocket.sendDatagrams]
  apply (sent_writeSegments had i.writes s.datagramAdapter h.sent).bind
  intro r hsent
  rw [pending, List.take_append_drop] at hsent
  refine ⟨⟨e, hreach, ?_⟩, rfl, List.drop_length⟩
  exact { h with
    popped_le := le_rfl
    sent := by
      change Sent ad (s.tcp.segmentsOut.take s.tcp.segmentsOut.length) r.2
      rwa [List.take_length] }

end Follows

end TCPSpongeSocket

end NetworkLabs
