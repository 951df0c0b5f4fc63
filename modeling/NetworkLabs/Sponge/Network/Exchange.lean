import NetworkLabs.Sponge.Network.Close
import NetworkLabs.Sponge.TCPConnection.Opening

/-!
# Who waits for whom

At most one endpoint is in FIN-WAIT-2. An endpoint whose FIN is acknowledged was
told so by its peer at the end of its own input, or it has taken the number of a
segment without ACK for the acknowledgment. Such a segment is a SYN or a reset, and
a connection reads it behind its FIN only when its input has ended. In both cases
one of the two inputs has ended.
-/

namespace NetworkLabs

open TCPConnection
open TCPSender (FinAcked FinWaits Outstanding)

namespace TCPConnection

/-- What the store of a connection holds lies in what is in flight. -/
theorem outstanding_step {c : TCPConnection} (h : Outstanding c.sender)
    (hnext : c.sender.nextSeqnoAbsolute < 2 ^ 63) (a : Action) :
    Outstanding (c.step a).sender := by
  have henter : Outstanding (c.enter a).sender :=
    enter_induction (P := fun d => Outstanding d.sender) a h (fun _ => { h with }) { h with }
      (fun _ => h) (fun ms => h.tick ms) h
  apply step_induction (P := fun d => Outstanding d.sender) a
  · exact fun _ => henter
  · exact fun _ => henter.fillWindow
  · intro seg ha _ hactive _
    subst ha
    rw [enter, if_neg (by simp [hactive])] at henter ⊢
    exact henter.ackReceived hnext
  · exact fun seg _ _ d hd => hd
  · exact fun d _ hd => { hd with }
  · exact fun d hd => hd.fillWindow
  · intro d hd
    rw [sendData_sender]
    exact { hd with }
  · exact fun d hd => { hd with }
  · exact fun d hd => { hd with }

/-- Behind its FIN a connection whose input has not ended does not read a segment
without ACK and FIN, unless the FIN is acknowledged. -/
theorem finAcked_of_readsAckno {c : TCPConnection} {seg : TCPSegment}
    (hfirst : TCPSender.SynFirst c.sender) (hreads : c.readsAckno seg = true)
    (hack : seg.header.ack = false) (hfin : seg.header.fin = false)
    (hopen : c.receiver.streamOut.inputEnded = false) (heof : c.sender.stream.eof = true)
    (hnext : c.sender.nextSeqnoAbsolute = c.sender.stream.bytesWritten + 2) :
    FinAcked c.sender := by
  have hacked : c.sender.nextSeqnoAbsolute ≠ c.sender.bytesInFlight := by
    intro heq
    rcases (hfirst heq).2 with h0 | ⟨hone, -⟩
    · omega
    · omega
  refine ⟨hnext, ?_⟩
  by_contra hflight
  have hpos : 0 < c.sender.bytesInFlight := Nat.pos_of_ne_zero hflight
  rw [readsAckno, if_neg (by omega), if_neg fun h => hacked h.1, if_neg fun h => hacked h.1,
    heof, if_neg fun h => Bool.noConfusion h.2, hopen, if_pos ⟨hnext, hpos, rfl, rfl⟩, hack,
    hfin] at hreads
  exact Bool.noConfusion hreads

/-- Behind its FIN the stream of a connection is at its end. -/
theorem Outbound.eof_of_next {S : List UInt8} {ended : Bool} {capacity : ℕ}
    {isn : WrappingInt32} {c : TCPConnection} (h : Outbound S ended capacity isn c)
    (hnext : c.sender.nextSeqnoAbsolute = c.sender.stream.bytesWritten + 2) :
    c.sender.stream.eof = true := by
  obtain ⟨q, first, fin, hsent, -, -⟩ := h.sent
  exact hsent.refines.eof_iff.mpr (hsent.ended (hsent.fin_of_next hnext))

end TCPConnection

namespace Network

/-- A position that an endpoint may acknowledge to a peer with the initial number
`isn` that has accepted `len` bytes. -/
def Acknowledgeable (isn : WrappingInt32) (len : ℕ) (ackno : WrappingInt32) : Prop :=
  ∃ k, 1 ≤ k ∧ k ≤ len + 2 ∧ ackno = wrap k isn

/-- One of the two inputs has ended. -/
def SomeEnded (n : Network) (x : Side) : Prop :=
  (n x.other).conn.inboundStream.inputEnded = true ∨ (n x).conn.inboundStream.inputEnded = true

/-- What two connections know about each other in every state. -/
structure Talks (cfg : Side → TCPConfig) (n : Network) : Prop where
  safe : Safe cfg n
  closing : ∀ x, Closing (cfg x.other).isn (n.SomeEnded x) (n x).conn
  finWaits : ∀ x, FinWaits (n x).conn.sender
  outstanding : ∀ x, Outstanding (n x).conn.sender
  opening : ∀ x, Opening (Acknowledgeable (cfg x.other).isn (n x.other).accepted.length) (n x).conn
  queue : ∀ x, StorePos (n x).conn.sender ∧ AllPos (n x).conn.sender.segmentsOut

section

variable {cfg : Side → TCPConfig} {n : Network} {e : Side × Action}

theorem talks_start (hbounded : Bounded cfg (start cfg)) : Talks cfg (start cfg) where
  safe := safe_start hbounded
  closing := fun x => Closing.start (cfg x)
  finWaits := (closes_start hbounded).finWaits
  outstanding := fun _ => TCPSender.outstanding_new _ _ _
  opening := fun x => Opening.start (cfg x)
  queue := fun x => allPos_queue_run (cfg x) []

theorem SomeEnded.step {x : Side} (h : n.SomeEnded x) (e : Side × Action) :
    (n.step e).SomeEnded x := by
  have hkept : ∀ z, (n z).conn.inboundStream.inputEnded = true →
      (n.step e z).conn.inboundStream.inputEnded = true := by
    intro z hz
    obtain ⟨y, a⟩ := e
    rcases y.eq_or_eq_other z with rfl | rfl
    · rw [step_self]
      exact inputEnded_step hz a
    · rw [step_other]
      exact hz
  exact h.imp (hkept x.other) (hkept x)

theorem Talks.next_lt (h : Talks cfg n) (hbounded : Bounded cfg n) (x : Side) :
    (n x).conn.sender.nextSeqnoAbsolute < 2 ^ 63 := by
  have hx := (hbounded x).1
  have hle := (h.safe.outbound x).next_le
  omega

/-- The FIN of `x` is only taken for acknowledged once one of the inputs has
ended. -/
theorem Talks.someEnded_of_ack (h : Talks cfg n) (hbounded : Bounded cfg n) {x : Side}
    {seg : TCPSegment} (hseg : seg ∈ (n x.other).conn.segmentsOut)
    (hrst : seg.header.rst = false) (hreads : (n x).conn.readsAckno seg = true)
    (hnext : (n x).conn.sender.nextSeqnoAbsolute =
      (n x).conn.sender.stream.bytesWritten + 2)
    (hackno : seg.header.ackno = (n x).conn.sender.nextSeqno) : n.SomeEnded x := by
  cases hopen : (n x).conn.inboundStream.inputEnded with
  | true => exact Or.inr hopen
  | false =>
      cases hack : seg.header.ack with
      | true =>
          have hstamped := (h.closing x.other).stamped seg hseg
          rw [Side.other_other] at hstamped
          exact Or.inl (h.safe.inputEnded_of_ack hbounded x hstamped hack hnext hackno)
      | false =>
          rcases (h.opening x.other).flagless seg hseg hack with hreset | hbare
          · rw [hrst] at hreset
            exact absurd hreset Bool.false_ne_true
          · exact (h.closing x).finAcked (finAcked_of_readsAckno (h.opening x).synFirst hreads
              hack hbare.2.1 hopen ((h.safe.outbound x).eof_of_next hnext) hnext)

/-- What arrives before the SYN of `x` is acknowledged does not widen its
window. -/
theorem Talks.keepsClosed (h : Talks cfg n) (hbounded : Bounded cfg n) {x : Side}
    {seg : TCPSegment} (hseg : seg ∈ (n x.other).conn.segmentsOut)
    (hrst : seg.header.rst = false) : (n x).conn.KeepsClosed seg := by
  intro hreads heq hn hnone
  have hstored := ((h.opening x).synFirst heq).2
  cases hack : seg.header.ack with
  | true =>
      have hpos := (h.opening x.other).stamped seg hseg hack
      rw [Side.other_other] at hpos
      obtain ⟨k, hk, hle, hackno⟩ := hpos
      have hx := (hbounded x).1
      rw [← (h.safe.outbound x).isn_eq] at hackno
      rcases hstored with h0 | ⟨-, hsyn⟩
      · rw [readsAckno, if_pos h0] at hreads
        exact Bool.noConfusion hreads
      · rw [hackno] at hnone
        exact absurd hnone (TCPSender.acknosPop_ne_nil_of_pos hsyn hk (by omega))
  | false =>
      rcases (h.opening x.other).flagless seg hseg hack with hreset | hbare
      · rw [hrst] at hreset
        exact absurd hreset Bool.false_ne_true
      · rw [hbare.2.2]
        exact Nat.zero_le 1

/-- What the receiver of `x` acknowledges after a segment. -/
theorem Talks.acknowledgeable (h : Talks cfg n) {x : Side} {seg : TCPSegment}
    (hseg : seg.Emitted (n x.other).accepted (cfg x.other).isn (n x.other).ended)
    (hrst : seg.header.rst = false) (ackno : WrappingInt32)
    (hackno : ((n x).conn.receiver.segmentReceived seg).ackno = some ackno) :
    Acknowledgeable (cfg x.other).isn (n x.other).accepted.length ackno := by
  have hafter := (h.safe.inbound x).receive hseg hrst
  obtain ⟨q, hq⟩ := hafter.stores
  have hle : ((n x).conn.receiver.segmentReceived seg).nextWrite ≤ _ :=
    TCPReceiver.nextWrite_le hq.inv
  have htracks : TCPReceiver.Tracks _ ((n x).conn.receiver.segmentReceived seg) := hafter.tracks
  have hpos : 1 ≤ ((n x).conn.receiver.segmentReceived seg).nextWrite := by
    rw [TCPReceiver.nextWrite]
    split_ifs
    · exact Nat.le_add_left 1 _
    · exact Nat.le_add_left 1 _
  rw [TCPReceiver.ackno] at hackno
  split_ifs at hackno with hsyn
  rw [htracks.isn_eq hsyn] at hackno
  exact ⟨_, hpos, hle, (Option.some.inj hackno).symm⟩

theorem Talks.step (h : Talks cfg n) (he : Permitted n e) (hbounded : Bounded cfg (n.step e)) :
    Talks cfg (n.step e) := by
  have hbefore := hbounded.of_step
  obtain ⟨y, a⟩ := e
  have hself : Closing (cfg y.other).isn (n.SomeEnded y) ((n y).step a).conn ∧
      FinWaits ((n y).step a).conn.sender := by
    have hy := (hbounded y).1
    rw [step_self] at hy
    apply Endpoint.closing_step (h.closing y) (h.finWaits y) (h.safe.outbound y)
      (h.safe.inbound y) _ hy (fun seg hseg => h.safe.emitted he seg hseg)
    · intro seg ha hrst _ hreads _ hnext hackno
      subst ha
      exact h.someEnded_of_ack hbefore he hrst hreads hnext hackno
    · intro data ha
      subst ha
      exact he
  have hopening : Opening (Acknowledgeable (cfg y.other).isn (n y.other).accepted.length)
      ((n y).step a).conn := by
    apply opening_step (h.opening y) (h.outstanding y) (h.next_lt hbefore y)
    intro seg ha hrst
    have hemitted := h.safe.emitted he seg ha
    subst ha
    exact ⟨h.keepsClosed hbefore he hrst, h.acknowledgeable hemitted hrst⟩
  exact {
    safe := h.safe.step he hbounded
    closing := by
      intro x
      rcases y.eq_or_eq_other x with rfl | rfl
      · rw [step_self]
        exact hself.1.mono fun hended => hended.step _
      · rw [step_other, Side.other_other]
        have hother := h.closing y.other
        rw [Side.other_other] at hother
        exact hother.mono fun hended => hended.step _
    finWaits := by
      intro x
      rcases y.eq_or_eq_other x with rfl | rfl
      · rw [step_self]
        exact hself.2
      · rw [step_other]
        exact h.finWaits _
    outstanding := by
      intro x
      rcases y.eq_or_eq_other x with rfl | rfl
      · rw [step_self]
        exact outstanding_step (h.outstanding x) (h.next_lt hbefore x) a
      · rw [step_other]
        exact h.outstanding _
    opening := by
      intro x
      rcases y.eq_or_eq_other x with rfl | rfl
      · rw [step_self, step_other]
        exact hopening
      · have hgrow := (n.accepted_prefix_step (y, a) y).length_le
        have hother := h.opening y.other
        rw [Side.other_other] at hother
        rw [step_other, Side.other_other]
        apply hother.mono
        rintro ackno ⟨k, hk, hle, hackno⟩
        exact ⟨k, hk, by omega, hackno⟩
    queue := by
      intro x
      have hx := h.queue x
      rcases y.eq_or_eq_other x with rfl | rfl
      · rw [step_self]
        exact ⟨storePos_step hx.1 a, allPos_queue_step hx.1 hx.2 a⟩
      · rw [step_other]
        exact hx }

theorem talks_run (cfg : Side → TCPConfig) (events : List (Side × Action))
    (hpermitted : Transition.Along step Permitted (start cfg) events)
    (hbounded : Bounded cfg (run cfg events)) : Talks cfg (run cfg events) :=
  invariant (Talks cfg) talks_start (fun _ _ h he _ hb => h.step he hb) events hpermitted
    (Transition.along_of_forall (p := fun _ => True) _ _ fun _ _ => trivial) hbounded

end

end Network

end NetworkLabs
