import NetworkLabs.Sponge.Network.Safety
import NetworkLabs.Sponge.TCPConnection.Closing

/-!
# What a clean close says about the peer

An endpoint that closes without an error should know that both streams are
complete on both sides. It does as long as the number behind its FIN is only
taken from segments that carry ACK: such a segment was stamped by the peer, and
the peer asks for that number only at the end of its input. A segment without
the flag carries the number `0`, and most states read it all the same. Where
`0` is the number behind the FIN, an old SYN of the peer acknowledges a FIN that
was never delivered.
-/

namespace NetworkLabs

open TCPConnection
open TCPSender (FinAcked FinWaits)

namespace Endpoint

section

variable {e : Endpoint} {a : Action} {S : List UInt8} {peerEnded : Bool}
  {capacity recvCapacity : ℕ} {isn peerIsn : WrappingInt32} {peerDone : Prop}

/-- What the action does on its own. A stream that is still open has no FIN to
acknowledge. -/
theorem closing_enter (h : Closing peerIsn peerDone e.conn)
    (ho : Outbound e.accepted e.ended capacity isn e.conn)
    (hafter : Outbound (e.step a).accepted (e.step a).ended capacity isn (e.conn.enter a))
    (hopen : ∀ data, a = .write data → e.ended = false) :
    Closing peerIsn peerDone (e.conn.enter a) := by
  cases a with
  | connect => exact h
  | write data =>
      have hended : (e.step (.write data)).ended = false := hopen data rfl
      rw [hended] at hafter
      rw [enter] at hafter ⊢
      split_ifs at hafter ⊢
      · exact h
      · exact h.of_sender h.queued
          (fun hfin => absurd (hafter.ended_of_finAcked hfin) Bool.false_ne_true) rfl
  | endInputStream => exact h.of_sender h.queued h.finAcked rfl
  | read len => exact { h with }
  | tick ms =>
      rw [enter]
      split_ifs
      · exact h
      · exact { h.tick ho ms with }
  | segmentReceived seg =>
      rw [enter]
      split_ifs
      · exact h
      · exact { h with }

theorem finWaits_enter (h : FinWaits e.conn.sender)
    (ho : Outbound (e.step a).accepted (e.step a).ended capacity isn (e.conn.enter a))
    (hopen : ∀ data, a = .write data → e.ended = false) (hend : a ≠ .endInputStream) :
    FinWaits (e.conn.enter a).sender := by
  cases a with
  | connect => exact h
  | write data =>
      have hended : (e.step (.write data)).ended = false := hopen data rfl
      rw [hended] at ho
      exact ho.finWaits_of_open
  | endInputStream => exact absurd rfl hend
  | read len => exact h
  | tick ms =>
      rw [enter]
      split_ifs
      · exact h
      · obtain ⟨out, time, timeout, retx, heq, -⟩ := TCPSender.tick_eq e.conn.sender ms
        simp only [heq]
        exact h
  | segmentReceived seg =>
      rw [enter]
      split_ifs
      · exact h
      · exact h

/-- An action keeps what the connection knows about its peer, provided that the
number behind the FIN is only taken once the peer is done. -/
theorem closing_step (h : Closing peerIsn peerDone e.conn) (hwaits : FinWaits e.conn.sender)
    (ho : Outbound e.accepted e.ended capacity isn e.conn)
    (hi : Inbound S peerEnded recvCapacity peerIsn e.consumed e.conn)
    (hopen : ∀ data, a = .write data → e.ended = false)
    (hbound : (e.step a).accepted.length + capacity < 2 ^ 31)
    (hseg : ∀ seg, a = .segmentReceived seg → seg.Emitted S peerIsn peerEnded)
    (hfin : ∀ seg, a = .segmentReceived seg → seg.header.rst = false → e.conn.active = true →
      e.conn.readsAckno seg = true → e.conn.sender.acknosPop seg.header.ackno ≠ [] →
      e.conn.sender.nextSeqnoAbsolute = e.conn.sender.stream.bytesWritten + 2 →
      seg.header.ackno = e.conn.sender.nextSeqno → peerDone) :
    Closing peerIsn peerDone (e.step a).conn ∧ FinWaits (e.step a).conn.sender := by
  have hoenter := outbound_enter ho hopen hbound
  have hienter : Inbound S peerEnded recvCapacity peerIsn (e.step a).consumed (e.conn.enter a) :=
    inbound_enter hi
  have hcenter := closing_enter h ho hoenter hopen
  have hstep := step_induction (c := e.conn) (P := fun d =>
    Outbound (e.step a).accepted (e.step a).ended capacity isn d ∧
      Inbound S peerEnded recvCapacity peerIsn (e.step a).consumed d ∧
      Closing peerIsn peerDone d ∧ FinWaits d.sender) a
  apply And.right ∘ And.right
  apply hstep
  · exact fun hne => ⟨hoenter, hienter, hcenter, finWaits_enter hwaits hoenter hopen hne⟩
  · exact fun _ => ⟨hoenter.fillWindow, hienter.of_receiver rfl, hcenter.fillWindow hoenter,
      TCPSender.finWaits_fillWindow _⟩
  · intro seg ha hrst hactive hreads
    subst ha
    have hwait := finWaits_enter hwaits hoenter hopen nofun
    refine ⟨hoenter.ackReceived seg, hienter.of_receiver rfl, hcenter.ackReceived hoenter ?_,
      hwait.ackReceived _ _⟩
    rw [enter, hactive] at hreads ⊢
    exact hfin seg rfl hrst hactive hreads
  · rintro seg ha hrst d ⟨hod, hid, hcd, hwd⟩
    have hemitted := hseg seg ha
    exact ⟨hod.receive seg, hid.receive hemitted hrst, hcd.receive hid hemitted hrst, hwd⟩
  · rintro d hnext ⟨hod, hid, hcd, hwd⟩
    exact ⟨hod.sendEmptySegment hnext, hid.of_receiver rfl, hcd.sendEmptySegment, hwd⟩
  · rintro d ⟨hod, hid, hcd, -⟩
    exact ⟨hod.fillWindow, hid.of_receiver rfl, hcd.fillWindow hod,
      TCPSender.finWaits_fillWindow _⟩
  · rintro d ⟨hod, hid, hcd, hwd⟩
    refine ⟨hod.sendData, hid.of_receiver (sendData_receiver d), hcd.sendData hod hid hwd, ?_⟩
    rw [sendData_sender]
    exact hwd
  · rintro d ⟨hod, hid, hcd, hwd⟩
    exact ⟨hod.abort, hid.abort, hcd.abort, hwd⟩
  · rintro d ⟨hod, hid, hcd, hwd⟩
    exact ⟨hod.resetConnection, Inbound.abort (hid.of_receiver rfl), hcd.resetConnection, hwd⟩

end

end Endpoint

namespace Network

/-- The event delivers a segment without ACK to a connection that takes its
number for the acknowledgment of a FIN that the peer has not assembled. -/
def MistakenFinAck (n : Network) (e : Side × Action) : Prop :=
  match e.2 with
  | .segmentReceived seg =>
      let c := (n e.1).conn
      c.active = true ∧ seg.header.rst = false ∧ seg.header.ack = false ∧
        c.readsAckno seg = true ∧ c.sender.acknosPop seg.header.ackno ≠ [] ∧
        c.sender.nextSeqnoAbsolute = c.sender.stream.bytesWritten + 2 ∧
        seg.header.ackno = c.sender.nextSeqno ∧
        (n e.1.other).conn.inboundStream.inputEnded = false
  | _ => False

instance : DecidableRel MistakenFinAck := fun _ e =>
  match e with
  | (_, .segmentReceived _) => inferInstanceAs (Decidable (_ ∧ _))
  | (_, .connect) => isFalse id
  | (_, .write _) => isFalse id
  | (_, .endInputStream) => isFalse id
  | (_, .read _) => isFalse id
  | (_, .tick _) => isFalse id

/-- The connection of `x` has ended, and neither of its streams is in error. -/
def ClosedCleanly (n : Network) (x : Side) : Prop :=
  (n x).conn.active = false ∧ (n x).conn.sender.stream.error = false ∧
    (n x).conn.inboundStream.error = false

instance : DecidableRel ClosedCleanly := fun _ _ => inferInstanceAs (Decidable (_ ∧ _))

/-- Both inbound streams have ended, and each holds every byte that the other
side got accepted. -/
def Complete (n : Network) (x : Side) : Prop :=
  ((n x.other).conn.inboundStream.inputEnded = true ∧ (n x.other).written = (n x).accepted) ∧
    ((n x).conn.inboundStream.inputEnded = true ∧ (n x).written = (n x.other).accepted)

/-- Every endpoint knows about its peer what a clean close needs. -/
structure Closes (cfg : Side → TCPConfig) (n : Network) : Prop where
  safe : Safe cfg n
  closing : ∀ x, Closing (cfg x.other).isn
    ((n x.other).conn.inboundStream.inputEnded = true) (n x).conn
  finWaits : ∀ x, FinWaits (n x).conn.sender

section

variable {cfg : Side → TCPConfig} {n : Network} {e : Side × Action}

theorem closes_start (hbounded : Bounded cfg (start cfg)) : Closes cfg (start cfg) where
  safe := safe_start hbounded
  closing := fun x => Closing.start (cfg x)
  finWaits := fun x => (Outbound.start (cfg x) (by
    have hx := (hbounded x).1
    omega)).finWaits_of_open

/-- The number behind the FIN of `x`, in a segment with ACK from the peer, says
that the peer has assembled everything. -/
theorem Safe.inputEnded_of_ack (h : Safe cfg n) (hbounded : Bounded cfg n) (x : Side)
    {seg : TCPSegment}
    (hstamped : seg.AcksUpTo (cfg x).isn (n x.other).conn.receiver.nextWrite)
    (hack : seg.header.ack = true)
    (hnext : (n x).conn.sender.nextSeqnoAbsolute =
      (n x).conn.sender.stream.bytesWritten + 2)
    (hackno : seg.header.ackno = (n x).conn.sender.nextSeqno) :
    (n x.other).conn.inboundStream.inputEnded = true := by
  have hbound := (hbounded x).1
  have hlen := (h.outbound x).bytesWritten_eq
  have hinbound := (h.inbound x.other).stores
  rw [Side.other_other] at hinbound
  obtain ⟨k, hk, hwrap⟩ := hstamped hack
  obtain ⟨q', hq'⟩ := hinbound
  have hle := TCPReceiver.nextWrite_le hq'.inv
  have heq : k = (n x).conn.sender.nextSeqnoAbsolute := by
    apply eq_of_wrap_eq _ _ (cfg x).isn
    · rw [← hwrap, hackno, TCPSender.nextSeqno, (h.outbound x).isn_eq]
    · omega
    · omega
  apply TCPReceiver.inputEnded_of_nextWrite hq'.inv
  omega

theorem Closes.step (h : Closes cfg n) (he : Permitted n e) (hguard : ¬ MistakenFinAck n e)
    (hbounded : Bounded cfg (n.step e)) : Closes cfg (n.step e) := by
  have hsafe := h.safe.step he hbounded
  obtain ⟨y, a⟩ := e
  have hself : Closing (cfg y.other).isn
      ((n y.other).conn.inboundStream.inputEnded = true) ((n y).step a).conn ∧
        FinWaits ((n y).step a).conn.sender := by
    have hy := (hbounded y).1
    rw [step_self] at hy
    apply Endpoint.closing_step (h.closing y) (h.finWaits y) (h.safe.outbound y)
      (h.safe.inbound y) _ hy (fun seg hseg => h.safe.emitted he seg hseg)
    · intro seg ha hrst hactive hreads hpop hnext hackno
      subst ha
      by_contra hopen
      rw [Bool.not_eq_true] at hopen
      cases hack : seg.header.ack with
      | false => exact hguard ⟨hactive, hrst, hack, hreads, hpop, hnext, hackno, hopen⟩
      | true =>
          have hstamped := (h.closing y.other).stamped seg he
          rw [Side.other_other] at hstamped
          have hended := h.safe.inputEnded_of_ack hbounded.of_step y hstamped hack hnext hackno
          rw [hended] at hopen
          exact absurd hopen (by decide)
    · intro data ha
      subst ha
      exact he
  exact {
    safe := hsafe
    closing := by
      intro x
      rcases y.eq_or_eq_other x with rfl | rfl
      · rw [step_self, step_other]
        exact hself.1
      · rw [step_other, Side.other_other, step_self]
        have hother := h.closing y.other
        rw [Side.other_other] at hother
        exact hother.mono fun hended => inputEnded_step hended a
    finWaits := by
      intro x
      rcases y.eq_or_eq_other x with rfl | rfl
      · rw [step_self]
        exact hself.2
      · rw [step_other]
        exact h.finWaits _ }

theorem closes_run (cfg : Side → TCPConfig) (events : List (Side × Action))
    (hpermitted : Transition.Along step Permitted (start cfg) events)
    (hguard : Transition.Along step (fun n e => ¬ MistakenFinAck n e) (start cfg) events)
    (hbounded : Bounded cfg (run cfg events)) : Closes cfg (run cfg events) :=
  invariant (Closes cfg) closes_start (fun _ _ h he hg hb => h.step he hg hb) events
    hpermitted hguard hbounded

end

/-- In a run that delivers no mistaken acknowledgment of a FIN, an endpoint that
has closed cleanly leaves both streams complete. -/
theorem run_complete_of_closedCleanly (cfg : Side → TCPConfig)
    (events : List (Side × Action))
    (hpermitted : Transition.Along step Permitted (start cfg) events)
    (hguard : Transition.Along step (fun n e => ¬ MistakenFinAck n e) (start cfg) events)
    (hbounded : Bounded cfg (run cfg events)) (x : Side)
    (hclosed : ClosedCleanly (run cfg events) x) : Complete (run cfg events) x := by
  have h := closes_run cfg events hpermitted hguard hbounded
  obtain ⟨hactive, herror, -⟩ := hclosed
  rcases (h.closing x).closed hactive with herr | ⟨hown, hpeer⟩
  · rw [herr] at herror
    exact absurd herror (by decide)
  · have hx := (h.safe.inbound x).delivers.2 hown
    have hother := (h.safe.inbound x.other).delivers.2 hpeer
    rw [Side.other_other] at hother
    exact ⟨⟨hpeer, hother.2⟩, hown, hx.2⟩

/-- The initial number of `a` puts `0` behind a FIN that follows the SYN. -/
def zeroBehindFin : Side → TCPConfig
  | .a => { recvCapacity := 4, sendCapacity := 4, isn := ⟨4294967294⟩ }
  | .b => { recvCapacity := 4, sendCapacity := 4, isn := ⟨7⟩ }

/-- Side `b` opens the connection and ends its stream, and then `a` does. -/
def bothEnd : List (Side × Action) := [
  (.b, .connect),
  (.a, .segmentReceived { header := { seqno := ⟨7⟩, syn := true } }),
  (.b, .segmentReceived { header :=
    { seqno := ⟨4294967294⟩, ackno := ⟨8⟩, ack := true, syn := true, win := 4 } }),
  (.a, .segmentReceived { header :=
    { seqno := ⟨8⟩, ackno := ⟨4294967295⟩, ack := true, win := 4 } }),
  (.b, .endInputStream),
  (.a, .segmentReceived { header :=
    { seqno := ⟨8⟩, ackno := ⟨4294967295⟩, ack := true, fin := true, win := 4 } }),
  (.a, .endInputStream)]

/-- The FIN of `a` arrives and is acknowledged. -/
theorem run_complete_of_closedCleanly_acked :
    Complete (run zeroBehindFin (bothEnd ++ [
      (.b, .segmentReceived { header :=
        { seqno := ⟨4294967295⟩, ackno := ⟨9⟩, ack := true, fin := true, win := 4 } }),
      (.a, .segmentReceived { header :=
        { seqno := ⟨9⟩, ackno := ⟨0⟩, ack := true, win := 4 } })])) .a := by
  apply run_complete_of_closedCleanly
  · decide
  · decide
  · intro x
    cases x
    · decide
    · decide
  · decide

/-- The first SYN of `b` once more: its number `0` passes for the acknowledgment
of the FIN, and `a` closes while `b` has not seen the end. -/
theorem not_complete_duplicateSyn :
    let events := bothEnd ++
      [(.a, .segmentReceived { header := { seqno := ⟨7⟩, syn := true } })]
    Transition.Along step Permitted (start zeroBehindFin) events ∧
      Bounded zeroBehindFin (run zeroBehindFin events) ∧
      ClosedCleanly (run zeroBehindFin events) .a ∧
      ¬ Complete (run zeroBehindFin events) .a := by
  intro events
  refine ⟨by decide, ?_, by decide, ?_⟩
  · intro x
    cases x
    · decide
    · decide
  · intro hcomplete
    exact absurd hcomplete.1.1 (by decide)

end Network

end NetworkLabs
