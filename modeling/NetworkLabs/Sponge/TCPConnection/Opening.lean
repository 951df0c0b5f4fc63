import NetworkLabs.Sponge.TCPConnection.Replies
import NetworkLabs.Sponge.TCPReceiver.HonestPeer
import NetworkLabs.Sponge.TCPSender.Acks

/-!
# Before the first acknowledgment

A sender starts with the window `1`, which the SYN fills, so nothing is sent behind
the SYN before something is acknowledged. As long as the receiver has no
acknowledgment to give, no acknowledgment is read either, but for the one of a
segment with SYN. What a connection puts out without the ACK flag is therefore a
SYN, or a reset: it carries no FIN and advertises no window.
-/

namespace NetworkLabs

/-- A segment without ACK and FIN that advertises no window. -/
def TCPSegment.Bare (seg : TCPSegment) : Prop :=
  seg.header.ack = false ∧ seg.header.fin = false ∧ seg.header.win = 0

namespace TCPSender

open TCPSegment

/-- As long as all that was sent is in flight, it is the SYN at most, which is
stored, and the window is `1`. -/
def SynFirst (s : TCPSender) : Prop :=
  s.nextSeqnoAbsolute = s.bytesInFlight →
    s.window = 1 ∧ (s.nextSeqnoAbsolute = 0 ∨
      s.nextSeqnoAbsolute = 1 ∧ ∃ seg, (1, seg) ∈ s.segmentsCache)

/-- Nothing is acknowledged yet, and nothing that was sent carries a FIN. -/
structure Waiting (s : TCPSender) : Prop where
  unacked : s.nextSeqnoAbsolute = s.bytesInFlight
  stored : ∀ e ∈ s.segmentsCache, e.2.Bare
  queued : ∀ seg ∈ s.segmentsOut, seg.Bare

section

variable {s : TCPSender} {ackno : WrappingInt32} {windowSize : UInt16}

theorem readStream_zero (s : TCPSender) : s.readStream 0 = [] := by
  have hle := s.length_readStream_le 0
  exact List.eq_nil_of_length_eq_zero (by omega)

/-- While the SYN fills the window there is no room for anything else. -/
theorem SynFirst.full (h : SynFirst s) (heq : s.nextSeqnoAbsolute = s.bytesInFlight)
    (hpos : 0 < s.nextSeqnoAbsolute) : s.window = s.bytesInFlight := by
  obtain ⟨hwindow, h0 | ⟨hone, -⟩⟩ := h heq
  · omega
  · omega

theorem SynFirst.no_data (h : SynFirst s) (heq : s.nextSeqnoAbsolute = s.bytesInFlight)
    (hpos : 0 < s.nextSeqnoAbsolute) {remsz : ℕ} (hroom : s.bytesInFlight + remsz ≤ s.window) :
    s.readStream remsz = [] := by
  have hfull := h.full heq hpos
  have hzero : remsz = 0 := by omega
  rw [hzero]
  exact s.readStream_zero

theorem SynFirst.transmitSyn (h : SynFirst s) (h0 : s.nextSeqnoAbsolute = 0) :
    SynFirst (s.transmit s.synSegment) := by
  have hone : s.synSegment.lengthInSequenceSpace = 1 := rfl
  intro heq
  rw [transmit_nextSeqnoAbsolute, transmit_bytesInFlight] at heq
  refine ⟨(h (Nat.add_right_cancel heq)).1, Or.inr ⟨?_, s.synSegment, ?_⟩⟩
  · rw [transmit_nextSeqnoAbsolute, h0, hone]
  · rw [mem_transmit_segmentsCache, h0, hone]
    exact Or.inl rfl

theorem SynFirst.fillWindow (h : SynFirst s) : SynFirst s.fillWindow := by
  apply fillWindow_induction (P := SynFirst)
  · exact fun t ht h0 => ht.transmitSyn h0
  · intro t remsz ht hpos hroom hread heq
    rw [transmit_nextSeqnoAbsolute, transmit_bytesInFlight] at heq
    exact absurd (ht.no_data (Nat.add_right_cancel heq) hpos hroom) hread
  · exact fun t remsz ht _ => ht
  · intro t ht hpos _ hroom heq
    have hfull := ht.full (Nat.add_right_cancel heq) hpos
    exact absurd hfull hroom.ne'
  · exact h

theorem Waiting.fillWindow (h : Waiting s) (hfirst : SynFirst s) : Waiting s.fillWindow := by
  have hboth : SynFirst s.fillWindow ∧ Waiting s.fillWindow := by
    apply fillWindow_induction (P := fun t => SynFirst t ∧ Waiting t)
    · rintro t ⟨hfirst, ht⟩ h0
      refine ⟨hfirst.transmitSyn h0, {
        unacked := congrArg (· + t.synSegment.lengthInSequenceSpace) ht.unacked
        stored := ?_
        queued := ?_ }⟩
      · intro e he
        rcases (mem_transmit_segmentsCache t t.synSegment e).mp he with rfl | ⟨hold, -⟩
        · exact ⟨rfl, rfl, rfl⟩
        · exact ht.stored e hold
      · intro seg hseg
        rcases List.mem_append.mp hseg with hseg | hseg
        · exact ht.queued seg hseg
        · rw [List.mem_singleton.mp hseg]
          exact ⟨rfl, rfl, rfl⟩
    · rintro t remsz ⟨hfirst, ht⟩ hpos hroom hread
      exact absurd (hfirst.no_data ht.unacked hpos hroom) hread
    · exact fun t remsz ht _ => ⟨ht.1, { ht.2 with }⟩
    · rintro t ⟨hfirst, ht⟩ hpos - hroom
      exact absurd (hfirst.full ht.unacked hpos) hroom.ne'
    · exact ⟨hfirst, h⟩
  exact hboth.2

/-- An acknowledgment that erases something leaves less in flight than was sent. -/
theorem SynFirst.ackReceived (h : SynFirst s) (ho : Outstanding s)
    (hnext : s.nextSeqnoAbsolute < 2 ^ 63)
    (hwin : s.nextSeqnoAbsolute = s.bytesInFlight → 0 ≤ s.nBytes ackno →
      s.acknosPop ackno = [] → windowSize.toNat ≤ 1) :
    SynFirst (s.ackReceived ackno windowSize) := by
  rcases ackReceived_cases s ackno windowSize with
    ⟨-, heq⟩ | ⟨hn, hnone, heq⟩ | ⟨hn, hpop, heq⟩
  · rw [heq]
    exact h
  · rw [heq]
    intro hsame
    have hsmall := hwin hsame hn hnone
    have hold := (h hsame).2
    refine ⟨?_, ?_⟩
    · rw [window_eq]
      change max windowSize.toNat 1 = 1
      omega
    · rw [popAcked_segmentsCache_of_nil hnone]
      exact hold
  · rw [heq]
    apply SynFirst.fillWindow
    intro hsame
    obtain ⟨e, he, hkey⟩ := exists_mem_of_acknosPop_ne_nil hpop
    have hpos := ho.pos e he
    have hlen := ho.length_le e he
    change s.nextSeqnoAbsolute = (s.nBytes ackno).toNat at hsame
    rcases (mem_acknosPop_iff ho hnext hn he).mp hkey with hlow | hpopped
    · omega
    · omega

/-- The SYN is acknowledged by every position behind it. -/
theorem acknosPop_ne_nil_of_pos {k : ℕ} (hstored : ∃ seg, (1, seg) ∈ s.segmentsCache)
    (hpos : 1 ≤ k) (hlt : k < 2 ^ 32) : s.acknosPop (wrap k s.isn) ≠ [] := by
  have hunwrap := unwrap_wrap_of_lt k 1 s.isn (by omega) (by omega)
  have hkey := (SortedMap.mem_keys _ 1).mpr hstored
  apply List.ne_nil_of_mem (a := 1)
  rw [acknosPop, List.mem_filter, hunwrap, decide_eq_true_eq]
  exact ⟨hkey, hpos⟩

end

end TCPSender

namespace TCPConnection

open TCPSegment TCPSender

/-- What a connection puts out before it has an acknowledgment to give, and
afterwards; `Q` is known of every acknowledgment that it gives. -/
structure Opening (Q : WrappingInt32 → Prop) (c : TCPConnection) : Prop where
  synFirst : SynFirst c.sender
  waiting : c.receiver.ackno = none → Waiting c.sender
  given : ∀ ackno, c.receiver.ackno = some ackno → Q ackno
  flagless : ∀ seg ∈ c.segmentsOut, seg.header.ack = false → seg.header.rst = true ∨ seg.Bare
  stamped : ∀ seg ∈ c.segmentsOut, seg.header.ack = true → Q seg.header.ackno

namespace Opening

variable {Q Q' : WrappingInt32 → Prop} {c : TCPConnection}

theorem start (cfg : TCPConfig) : Opening Q (new cfg) where
  synFirst := fun _ => ⟨rfl, Or.inl rfl⟩
  waiting := fun _ => {
    unacked := rfl
    stored := fun e he => absurd he (SortedMap.not_mem_empty e)
    queued := fun _ h => absurd h List.not_mem_nil }
  given := nofun
  flagless := fun _ h => absurd h List.not_mem_nil
  stamped := fun _ h => absurd h List.not_mem_nil

theorem mono (h : Opening Q c) (hQ : ∀ ackno, Q ackno → Q' ackno) : Opening Q' c where
  synFirst := h.synFirst
  waiting := h.waiting
  given := fun ackno hackno => hQ ackno (h.given ackno hackno)
  flagless := h.flagless
  stamped := fun seg hseg hack => hQ _ (h.stamped seg hseg hack)

/-- The stream does not matter. -/
theorem of_stream (h : Opening Q c) (stream : ByteStream) :
    Opening Q { c with sender := { c.sender with stream := stream } } where
  synFirst := h.synFirst
  waiting := fun hnone => { h.waiting hnone with }
  given := h.given
  flagless := h.flagless
  stamped := h.stamped

theorem fillWindow (h : Opening Q c) : Opening Q c.fillWindow where
  synFirst := h.synFirst.fillWindow
  waiting := fun hnone => (h.waiting hnone).fillWindow h.synFirst
  given := h.given
  flagless := h.flagless
  stamped := h.stamped

/-- More segments that wait to be put out. -/
theorem of_queue (h : Opening Q c) {s : TCPSender} {out : List TCPSegment}
    (hfirst : SynFirst s) (hnext : s.nextSeqnoAbsolute = c.sender.nextSeqnoAbsolute)
    (hflight : s.bytesInFlight = c.sender.bytesInFlight)
    (hcache : s.segmentsCache = c.sender.segmentsCache)
    (hout : s.segmentsOut = c.sender.segmentsOut ++ out)
    (hbare : c.receiver.ackno = none → ∀ seg ∈ out, seg.Bare) :
    Opening Q { c with sender := s } where
  synFirst := hfirst
  waiting := by
    intro hnone
    have hold := h.waiting hnone
    refine ⟨?_, ?_, ?_⟩
    · rw [hnext, hflight]
      exact hold.unacked
    · rw [hcache]
      exact hold.stored
    · rw [hout]
      intro seg hseg
      rcases List.mem_append.mp hseg with hseg | hseg
      · exact hold.queued seg hseg
      · exact hbare hnone seg hseg
  given := h.given
  flagless := h.flagless
  stamped := h.stamped

theorem sendEmptySegment (h : Opening Q c) : Opening Q c.sendEmptySegment := by
  refine h.of_queue (s := c.sender.sendEmptySegment) h.synFirst rfl rfl rfl rfl ?_
  intro _ seg hseg
  rw [List.mem_singleton.mp hseg]
  exact ⟨rfl, rfl, rfl⟩

theorem tick (h : Opening Q c) (ms : ℕ) : Opening Q { c with sender := c.sender.tick ms } := by
  obtain ⟨out, time, timeout, retx, heq, hout⟩ := tick_eq c.sender ms
  rw [heq]
  refine h.of_queue h.synFirst rfl rfl rfl rfl ?_
  intro hnone seg hseg
  obtain ⟨k, hk⟩ := hout seg hseg
  exact (h.waiting hnone).stored (k, seg) hk

/-- Without an acknowledgment to give, the queue goes out as it is. -/
theorem sendData (h : Opening Q c) : Opening Q c.sendData where
  synFirst := by
    rw [sendData_sender]
    exact h.synFirst
  waiting := by
    rw [sendData_receiver, sendData_sender]
    intro hnone
    have hold := h.waiting hnone
    exact ⟨hold.unacked, hold.stored, fun _ hseg => absurd hseg List.not_mem_nil⟩
  given := by
    rw [sendData_receiver]
    exact h.given
  flagless := by
    rw [sendData_segmentsOut]
    intro seg hseg hack
    rcases List.mem_append.mp hseg with hseg | hseg
    · exact h.flagless seg hseg hack
    · obtain ⟨p, hp, rfl⟩ := List.mem_map.mp hseg
      cases hackno : c.receiver.ackno with
      | none =>
          rw [stamp, hackno]
          exact Or.inr ((h.waiting hackno).queued p hp)
      | some ackno =>
          rw [stamp, hackno] at hack
          exact Bool.noConfusion hack
  stamped := by
    rw [sendData_segmentsOut]
    intro seg hseg hack
    rcases List.mem_append.mp hseg with hseg | hseg
    · exact h.stamped seg hseg hack
    · obtain ⟨p, hp, rfl⟩ := List.mem_map.mp hseg
      cases hackno : c.receiver.ackno with
      | none =>
          rw [stamp, hackno] at hack
          have hflag := ((h.waiting hackno).queued p hp).1
          exact Bool.noConfusion (hack.symm.trans hflag)
      | some ackno =>
          rw [stamp, hackno]
          exact h.given ackno hackno

theorem resetConnection (h : Opening Q c) : Opening Q c.resetConnection where
  synFirst := h.synFirst
  waiting := fun hnone => { h.waiting hnone with }
  given := h.given
  flagless := by
    intro seg hseg hack
    rcases List.mem_append.mp hseg with hseg | hseg
    · exact h.flagless seg hseg hack
    · rw [List.mem_singleton.mp hseg]
      exact Or.inl rfl
  stamped := by
    intro seg hseg hack
    rcases List.mem_append.mp hseg with hseg | hseg
    · exact h.stamped seg hseg hack
    · rw [List.mem_singleton.mp hseg] at hack
      exact Bool.noConfusion hack

end Opening

/-- Before anything is acknowledged, only a segment with SYN is read. -/
theorem readsAckno_of_waiting {c : TCPConnection} {seg : TCPSegment}
    (hunacked : c.sender.nextSeqnoAbsolute = c.sender.bytesInFlight)
    (hnone : c.receiver.ackno = none) (hsyn : seg.header.syn = false) :
    c.readsAckno seg = false := by
  rw [readsAckno, hsyn]
  split_ifs with h0 hsent
  · rfl
  · rfl
  all_goals exact absurd ⟨hunacked, by rw [hnone]; rfl⟩ hsent

theorem ackno_segmentReceived (r : TCPReceiver) (seg : TCPSegment)
    (h : (r.segmentReceived seg).ackno = none) : r.ackno = none ∧ seg.header.syn = false := by
  rw [TCPReceiver.ackno] at h
  split_ifs at h with hsyn
  rw [TCPReceiver.segmentReceived_synReceived, Bool.or_eq_true, not_or] at hsyn
  rw [TCPReceiver.ackno, if_neg hsyn.1]
  exact ⟨rfl, by simpa using hsyn.2⟩

/-- The acknowledgment of the segment does not widen the window of a sender whose SYN
it does not acknowledge. -/
def KeepsClosed (c : TCPConnection) (seg : TCPSegment) : Prop :=
  c.readsAckno seg = true → c.sender.nextSeqnoAbsolute = c.sender.bytesInFlight →
    0 ≤ c.sender.nBytes seg.header.ackno → c.sender.acknosPop seg.header.ackno = [] →
      seg.header.win.toNat ≤ 1

section

variable {Q : WrappingInt32 → Prop} {c : TCPConnection} {a : Action}

theorem opening_enter (h : Opening Q c) (a : Action) : Opening Q (c.enter a) := by
  apply enter_induction a h
  · exact fun _ => h.of_stream _
  · exact h.of_stream _
  · exact fun _ => { h with }
  · exact fun ms => { h.tick ms with }
  · exact { h with }

/-- A segment that is read and taken. -/
theorem opening_received {seg : TCPSegment} (h : Opening Q c) (ho : Outstanding c.sender)
    (hnext : c.sender.nextSeqnoAbsolute < 2 ^ 63) (hkeeps : c.KeepsClosed seg)
    (hgiven : ∀ ackno, (c.receiver.segmentReceived seg).ackno = some ackno → Q ackno) :
    Opening Q ((c.readAckno seg).receive seg) where
  synFirst := by
    change SynFirst (c.readAckno seg).sender
    rw [readAckno_sender]
    split_ifs with hreads
    · exact h.synFirst.ackReceived ho hnext (hkeeps hreads)
    · exact h.synFirst
  waiting := by
    intro hnone
    change ((c.readAckno seg).receiver.segmentReceived seg).ackno = none at hnone
    rw [readAckno_receiver] at hnone
    obtain ⟨hbefore, hsyn⟩ := ackno_segmentReceived c.receiver seg hnone
    have hold := h.waiting hbefore
    have hreads := readsAckno_of_waiting hold.unacked hbefore hsyn
    change Waiting (c.readAckno seg).sender
    rw [readAckno_sender, hreads, if_neg Bool.false_ne_true]
    exact hold
  given := by
    change ∀ ackno, ((c.readAckno seg).receiver.segmentReceived seg).ackno = some ackno → _
    rw [readAckno_receiver]
    exact hgiven
  flagless := by
    change ∀ seg' ∈ (c.readAckno seg).segmentsOut, _
    rw [readAckno_segmentsOut]
    exact h.flagless
  stamped := by
    change ∀ seg' ∈ (c.readAckno seg).segmentsOut, _
    rw [readAckno_segmentsOut]
    exact h.stamped

theorem opening_step (h : Opening Q c) (ho : Outstanding c.sender)
    (hnext : c.sender.nextSeqnoAbsolute < 2 ^ 63)
    (hseg : ∀ seg, a = .segmentReceived seg → seg.header.rst = false → c.KeepsClosed seg ∧
      ∀ ackno, (c.receiver.segmentReceived seg).ackno = some ackno → Q ackno) :
    Opening Q (c.step a) := by
  have henter := opening_enter h a
  apply step_induction_received a
  · exact fun _ => henter
  · exact fun _ => henter.fillWindow
  · intro seg ha hrst hactive
    subst ha
    obtain ⟨hkeeps, hgiven⟩ := hseg seg rfl hrst
    rw [enter, if_neg (by simp [hactive])] at henter ⊢
    exact opening_received henter ho hnext hkeeps hgiven
  · exact fun d _ hd => hd.sendEmptySegment
  · exact fun d hd => hd.fillWindow
  · exact fun d hd => hd.sendData
  · exact fun d hd => { hd.of_stream _ with }
  · exact fun d hd => { hd.resetConnection with }

end

end TCPConnection

end NetworkLabs
