import NetworkLabs.Sponge.TCPSpongeSocket.Rules

/-!
# A host drives its connection

The rules of the socket keep what the event loop asks of them, so a round of the loop does
to the connection what may be done to an endpoint, and so does the owner. Nothing is thrown
but what other code throws: the connection accepts all that it is handed, and a rule whose
callback was called has read or written its descriptor, or is not interested any more. When
the loop exits because no rule is interested, the connection is no longer active and all its
input has been passed on.
-/

namespace NetworkLabs

open Halting (Ends)

namespace TCPSpongeSocket

open EventLoop

variable {AdaptT Din Dout : Type}

/-- What a rule has answered when it was asked for its interest. -/
def Armed : RuleName → Bool → TCPSpongeSocket AdaptT Dout → Prop
  | .datagramIn, interest, s => interest = false → s.tcp.active = false
  | .dataIn, interest, s => interest = true → s.outboundShutdown = false
  | .dataOut, interest, s => interest = false → s.tcp.inboundStream.bufferEmpty = true ∧
      (s.tcp.inboundFinished = true → s.inboundShutdown = true)
  | .datagramOut, _, _ => True

theorem Armed.of_shutdown_eq {s s' : TCPSpongeSocket AdaptT Dout}
    (h : s'.outboundShutdown = s.outboundShutdown) {j : RuleName} (ha : Armed j true s) :
    Armed j true s' := by
  cases j with
  | dataIn => exact fun hb => h.trans (ha hb)
  | datagramIn => exact nofun
  | dataOut => exact nofun
  | datagramOut => trivial

theorem armed_cancelReadPipe {s : TCPSpongeSocket AdaptT Dout} {j : RuleName} {b : Bool}
    (hj : j ≠ .dataIn) (ha : Armed j b s) : Armed j b s.cancelReadPipe := by
  cases j with
  | dataIn => exact absurd rfl hj
  | datagramIn => exact fun hb => TCPConnection.active_endInputStream (ha hb)
  | dataOut =>
      intro hb
      have hreceiver := s.tcp.receiver_endInputStream
      have ha := ha hb
      rw [TCPConnection.inboundFinished] at ha ⊢
      change s.tcp.endInputStream.receiver.streamOut.bufferEmpty = true ∧
        ((s.tcp.endInputStream.receiver.streamOut.eof ||
          s.tcp.endInputStream.receiver.streamOut.error) = true → s.inboundShutdown = true)
      rw [hreceiver]
      exact ha
  | datagramOut => trivial

section

variable {ad : FdAdapter AdaptT Din Dout} {hang : RuleName → Prop} {s : TCPSpongeSocket AdaptT Dout}
  {peer : List TCPSegment} {e : Endpoint}

theorem armed_interest (ad : FdAdapter AdaptT Din Dout) (k : RuleName)
    (s : TCPSpongeSocket AdaptT Dout) : Armed k ((rule ad k).interest s) s := by
  cases k with
  | datagramIn => exact id
  | dataIn =>
      intro h
      change (s.tcp.active && !s.outboundShutdown && _) = true at h
      simp only [Bool.and_eq_true, Bool.not_eq_true'] at h
      exact h.1.2
  | dataOut =>
      intro h
      change (!s.tcp.inboundStream.bufferEmpty ||
        (s.tcp.inboundFinished && !s.inboundShutdown)) = false at h
      simp only [Bool.or_eq_false_iff, Bool.and_eq_false_iff, Bool.not_eq_false'] at h
      refine ⟨h.1, fun hfinished => ?_⟩
      rcases h.2 with hnot | hshut
      · exact absurd (hnot.symm.trans hfinished) (by decide)
      · exact hshut
  | datagramOut => trivial

/-- The rules keep what the loop asks of them. -/
theorem keeps {carries : Dout → Din → Prop} (had : ad.Faithful carries) {i : Answers Din}
    (hpeer : ∀ din, i.datagram = .ok din → ∃ dout, carries dout din ∧
      ∃ seg ∈ peer, seg.Sendable ∧ ∃ a w a', ad.write a w seg = .ok (some dout, a')) :
    Keeps (rule ad) i (· ≠ ·) hang Failure.Foreign (Drives ad hang peer e) Armed
      fun _ _ => True where
  interest k s _ _ := armed_interest ad k s
  call := by
    rintro k s ⟨e', hreach, hs⟩ harmed
    apply Rule.ends_call
    cases k with
    | datagramIn =>
        apply (hs.receiveDatagram had hreach hpeer).mono (fun _ he => he)
        rintro s' ⟨hdrives, hshut, hcount⟩
        refine ⟨⟨hdrives, fun j _ ha => ha.of_shutdown_eq hshut, fun _ _ => trivial⟩, Or.inl ?_⟩
        change (ad.fd s'.datagramAdapter).readCount ≠ (ad.fd s.datagramAdapter).readCount
        rw [hcount]
        exact add_one_ne _
    | dataIn =>
        apply (hs.readPipe hreach (harmed rfl) i).mono (fun _ he => he)
        rintro s' ⟨hdrives, hcount⟩
        refine ⟨⟨hdrives, fun j hj _ => ?_, fun _ _ => trivial⟩, Or.inl ?_⟩
        · cases j with
          | dataIn => exact absurd rfl hj
          | datagramIn => exact nofun
          | dataOut => exact nofun
          | datagramOut => trivial
        · change s'.threadData.readCount ≠ s.threadData.readCount
          rw [hcount]
          exact add_one_ne _
    | dataOut =>
        apply (hs.writePipe hreach i).mono (fun _ he => he)
        rintro s' ⟨hdrives, hshut, hcount⟩
        refine ⟨⟨hdrives, fun j _ ha => ha.of_shutdown_eq hshut, fun _ _ => trivial⟩, Or.inl ?_⟩
        change s'.threadData.writeCount ≠ s.threadData.writeCount
        rcases hcount with hcount | hcount
        · rw [hcount]
          exact add_one_ne _
        · rw [hcount]
          exact add_one_add_one_ne _
    | datagramOut =>
        apply (hs.sendDatagrams had hreach i).mono (fun _ he => he)
        rintro s' ⟨hdrives, hshut, hpending⟩
        refine ⟨⟨hdrives, fun j _ ha => ha.of_shutdown_eq hshut, fun _ _ => trivial⟩, Or.inr ?_⟩
        change (!s'.pending.isEmpty) = false
        rw [hpending]
        rfl
  cancel := by
    rintro k s ⟨e', hreach, hs⟩ hwhy
    cases k with
    | dataIn =>
        refine ⟨⟨_, hreach.step (a := .endInputStream) trivial, hs.endInputStream fun hhang => ?_⟩,
          fun j hj ha => armed_cancelReadPipe hj ha, fun j b hj ha => armed_cancelReadPipe hj ha,
          trivial, fun _ _ => trivial⟩
        rcases hwhy with hdefunct | ⟨-, hup⟩
        · change (true && s.threadData.eof || s.threadData.closed) = true at hdefunct
          rw [hs.not_closed] at hdefunct
          simpa using hdefunct
        · exact absurd hup hhang
    | datagramIn => exact ⟨⟨e', hreach, hs⟩, fun _ _ ha => ha, fun _ _ _ ha => ha, trivial,
        fun _ _ => trivial⟩
    | dataOut => exact ⟨⟨e', hreach, hs⟩, fun _ _ ha => ha, fun _ _ _ ha => ha, trivial,
        fun _ _ => trivial⟩
    | datagramOut => exact ⟨⟨e', hreach, hs⟩, fun _ _ ha => ha, fun _ _ _ ha => ha, trivial,
        fun _ _ => trivial⟩

end

namespace Follows

variable {ad : FdAdapter AdaptT Din Dout} {hang : RuleName → Prop} {s : TCPSpongeSocket AdaptT Dout}
  {e : Endpoint}

theorem start (ad : FdAdapter AdaptT Din Dout) (hang : RuleName → Prop) (cfg : TCPConfig)
    (adapter : AdaptT) (fdNum : ℕ) :
    Follows ad hang (Host.start cfg adapter fdNum).socket (Endpoint.start cfg) where
  conn_eq := rfl
  accepted_eq := rfl
  consumed_eq := rfl
  shutdown_of_ended := nofun
  eof_of_ended := fun _ => nofun
  drained := nofun
  not_closed := rfl
  shut_eq := rfl
  finished := nofun
  sendable := TCPConnection.SendsSendable.start cfg
  popped_le := le_rfl
  sent := ⟨[], rfl, .nil⟩

theorem ownerWrite (h : Follows ad hang s e) (data : List UInt8) :
    Follows ad hang (Host.ownerWrite s data) e := by
  rw [Host.ownerWrite]
  split_ifs with hshut
  · exact h
  · exact { h with
      accepted_eq := by
        change e.accepted ++ (s.outboundPipe.content ++ data) = s.ownerWritten ++ data
        rw [← List.append_assoc, h.accepted_eq]
      drained := fun heof => absurd (h.drained heof).2 hshut }

theorem ownerShutdown (h : Follows ad hang s e) :
    Follows ad hang { s with outboundPipe := { s.outboundPipe with shut := true } } e :=
  { h with drained := fun heof => ⟨(h.drained heof).1, rfl⟩ }

theorem ownerRead (h : Follows ad hang s e) (len : ℕ) :
    Follows ad hang (Host.ownerRead s len) e :=
  { h with
    consumed_eq := by
      change s.ownerRead ++ s.inboundPipe.content.take len ++ s.inboundPipe.content.drop len =
        e.consumed
      rw [List.append_assoc, List.take_append_drop, h.consumed_eq] }

end Follows

end TCPSpongeSocket

namespace Host

open TCPSpongeSocket EventLoop

variable {AdaptT Din Dout : Type} {ad : FdAdapter AdaptT Din Dout} {carries : Dout → Din → Prop}
  {hang : RuleName → Prop}

/-- What the environment may do to a host whose peer has written `sent` into the network. A
datagram that is read has been sent, and `hang` says whose descriptor may hang up. -/
def Possible (ad : FdAdapter AdaptT Din Dout) (carries : Dout → Din → Prop)
    (hang : RuleName → Prop) (sent : List Dout) (h : Host AdaptT Dout) : Event Din → Prop
  | .loop poll answers _ =>
      (∀ din, answers.datagram = .ok din → ∃ dout ∈ sent, carries dout din) ∧
        Hangs hang (rule ad) h.rules h.socket poll
  | _ => True

instance (ad : FdAdapter AdaptT Din Dout) (carries : Dout → Din → Prop)
    [∀ dout din, Decidable (carries dout din)] (hang : RuleName → Prop) [DecidablePred hang]
    (sent : List Dout) (h : Host AdaptT Dout) (ev : Event Din) :
    Decidable (h.Possible ad carries hang sent ev) :=
  match ev with
  | .connect => isTrue trivial
  | .ownerWrite _ => isTrue trivial
  | .ownerShutdown => isTrue trivial
  | .ownerRead _ => isTrue trivial
  | .loop _ answers _ =>
      have : Decidable (∀ din, answers.datagram = .ok din → ∃ dout ∈ sent, carries dout din) :=
        match answers.datagram with
        | .ok din => decidable_of_iff (∃ dout ∈ sent, carries dout din) <| by
            constructor
            · rintro h _ ⟨rfl⟩
              exact h
            · exact fun h => h din rfl
        | .error _ => isTrue nofun
      inferInstanceAs (Decidable (_ ∧ _))

section

variable {h peer : Host AdaptT Dout} {e ePeer : Endpoint}

/-- One round of the loop: if it exits and was not interrupted, no rule that is left was
interested. -/
theorem drives_tcpLoop (had : ad.Faithful carries) (hs : Follows ad hang h.socket e)
    (hpeer : Follows ad hang peer.socket ePeer) (hnodup : h.rules.Nodup) {poll : PollAnswer}
    {answers : Answers Din} (ms : ℕ)
    (hpossible : h.Possible ad carries hang peer.socket.datagrams (.loop poll answers ms)) :
    Ends Failure.Foreign (fun r => Drives ad hang ePeer.conn.segmentsOut e r.2.socket ∧
        r.2.rules.Sublist h.rules ∧ (r.1 = .exit → poll = .interrupted ∨
          ∀ k ∈ r.2.rules, Armed k false r.2.socket))
      (h.tcpLoop ad poll answers ms) := by
  have hkeeps : Keeps (rule ad) answers (· ≠ ·) hang Failure.Foreign
      (Drives ad hang ePeer.conn.segmentsOut e) Armed fun _ _ => True := by
    apply keeps had
    intro din hdin
    obtain ⟨dout, hdout, hcarries⟩ := hpossible.1 din hdin
    obtain ⟨seg, hseg, hwrite⟩ := hpeer.datagram_mem hdout
    refine ⟨dout, hcarries, seg, ?_, hpeer.sendable.queued seg hseg, hwrite⟩
    rwa [hpeer.conn_eq]
  rw [tcpLoop]
  apply (hkeeps.waitNextEvent (by decide) hpossible.2 hnodup hnodup
    ⟨e, Endpoint.Reaches.refl _ _, hs⟩).bind
  rintro ⟨ret, rules, s⟩ ⟨⟨⟨e', hreach, hs'⟩, hsub, -, -⟩, hexit⟩
  dsimp only
  split_ifs with hret hactive
  · exact ⟨⟨e', hreach, hs'⟩, hsub, hexit⟩
  · exact ⟨⟨_, hreach.step (a := .tick ms) trivial, hs'.step (.tick ms) rfl rfl rfl⟩, hsub,
      fun h => absurd h hret⟩
  · exact ⟨⟨e', hreach, hs'⟩, hsub, fun h => absurd h hret⟩

/-- Whatever happens at a host drives its connection. -/
theorem drives_step (had : ad.Faithful carries) (hs : Follows ad hang h.socket e)
    (hpeer : Follows ad hang peer.socket ePeer) (hnodup : h.rules.Nodup) {ev : Event Din}
    (hpossible : h.Possible ad carries hang peer.socket.datagrams ev) :
    Ends Failure.Foreign (fun h' => Drives ad hang ePeer.conn.segmentsOut e h'.socket ∧
        h'.rules.Sublist h.rules) (h.step ad ev) := by
  have hrefl := Endpoint.Reaches.refl ePeer.conn.segmentsOut e
  cases ev with
  | connect =>
      exact ⟨⟨_, hrefl.step (a := .connect) trivial, hs.step .connect rfl rfl rfl⟩,
        List.Sublist.refl _⟩
  | ownerWrite data => exact ⟨⟨e, hrefl, hs.ownerWrite data⟩, List.Sublist.refl _⟩
  | ownerShutdown => exact ⟨⟨e, hrefl, hs.ownerShutdown⟩, List.Sublist.refl _⟩
  | ownerRead len => exact ⟨⟨e, hrefl, hs.ownerRead len⟩, List.Sublist.refl _⟩
  | loop poll answers ms =>
      have hloop := drives_tcpLoop had hs hpeer hnodup ms hpossible
      rw [step]
      cases hresult : h.tcpLoop ad poll answers ms with
      | error e =>
          rw [hresult] at hloop
          exact hloop
      | ok r =>
          rw [hresult] at hloop
          exact ⟨hloop.1, hloop.2.1⟩

end

end Host

end NetworkLabs
