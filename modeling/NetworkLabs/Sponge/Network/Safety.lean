import NetworkLabs.Sponge.Network
import NetworkLabs.Sponge.TCPConnection.Inbound

/-!
# The streams of two connections

In every permitted run the two endpoints keep up one joint invariant: each one
emits segments that are cut from what its application wrote, and each one has
assembled a prefix of what the other application wrote. An action of one side
leaves the other side where it was, with a stream of its peer that may have
grown.
-/

namespace NetworkLabs

open TCPConnection

namespace Endpoint

section

variable {e : Endpoint} {a : Action} {capacity : ℕ} {isn : WrappingInt32}

/-- What the action does on its own, to the outgoing stream. -/
theorem outbound_enter (h : Outbound e.accepted e.ended capacity isn e.conn)
    (hopen : ∀ data, a = .write data → e.ended = false)
    (hbound : (e.step a).accepted.length + capacity < 2 ^ 31) :
    Outbound (e.step a).accepted (e.step a).ended capacity isn (e.conn.enter a) := by
  cases a with
  | connect => exact h
  | write data =>
      change (e.accepted ++ data.take (e.conn.write data).2).length + capacity < 2 ^ 31 at hbound
      change Outbound (e.accepted ++ data.take (e.conn.write data).2) e.ended capacity isn _
      rw [enter]
      rw [TCPConnection.write] at hbound ⊢
      split_ifs at hbound ⊢ with hdata
      · rw [List.take_zero, List.append_nil]
        exact h
      · have hended := hopen data rfl
        rw [hended] at h ⊢
        exact h.write data hbound
  | endInputStream => exact h.endInput
  | read len => exact { h with }
  | tick ms =>
      rw [enter]
      split_ifs
      · exact h
      · exact { h.tick ms with }
  | segmentReceived seg =>
      rw [enter]
      split_ifs
      · exact h
      · exact { h with }

theorem outbound_step (h : Outbound e.accepted e.ended capacity isn e.conn)
    (hopen : ∀ data, a = .write data → e.ended = false)
    (hbound : (e.step a).accepted.length + capacity < 2 ^ 31) :
    Outbound (e.step a).accepted (e.step a).ended capacity isn (e.step a).conn := by
  have henter := outbound_enter h hopen hbound
  apply step_induction a
  · exact fun _ => henter
  · exact fun _ => henter.fillWindow
  · exact fun seg _ _ _ _ => henter.ackReceived seg
  · exact fun seg _ _ d hd => hd.receive seg
  · exact fun d hnext hd => hd.sendEmptySegment hnext
  · exact fun d hd => hd.fillWindow
  · exact fun d hd => hd.sendData
  · exact fun d hd => hd.abort
  · exact fun d hd => hd.resetConnection

end

section

variable {e : Endpoint} {a : Action} {S : List UInt8} {peerEnded : Bool} {capacity : ℕ}
  {peerIsn : WrappingInt32}

/-- What the action does on its own, to the inbound stream. -/
theorem inbound_enter (h : Inbound S peerEnded capacity peerIsn e.consumed e.conn) :
    Inbound S peerEnded capacity peerIsn (e.step a).consumed (e.conn.enter a) := by
  cases a with
  | connect => exact h
  | write data =>
      rw [enter]
      split_ifs
      · exact h
      · exact h.of_receiver rfl
  | endInputStream => exact h.of_receiver rfl
  | read len => exact h.read len
  | tick ms =>
      rw [enter]
      split_ifs
      · exact h
      · exact h.of_receiver rfl
  | segmentReceived seg =>
      rw [enter]
      split_ifs
      · exact h
      · exact h.of_receiver rfl

theorem inbound_step (h : Inbound S peerEnded capacity peerIsn e.consumed e.conn)
    (hseg : ∀ seg, a = .segmentReceived seg → seg.Emitted S peerIsn peerEnded) :
    Inbound S peerEnded capacity peerIsn (e.step a).consumed (e.step a).conn := by
  have henter : Inbound S peerEnded capacity peerIsn (e.step a).consumed (e.conn.enter a) :=
    inbound_enter h
  apply step_induction a
  · exact fun _ => henter
  · exact fun _ => henter.of_receiver rfl
  · exact fun seg _ _ _ _ => henter.of_receiver rfl
  · exact fun seg hmem hrst d hd => hd.receive (hseg seg hmem) hrst
  · exact fun d _ hd => hd.of_receiver rfl
  · exact fun d hd => hd.of_receiver rfl
  · exact fun d hd => hd.of_receiver (sendData_receiver d)
  · exact fun d hd => hd.abort
  · exact fun d hd => Inbound.abort (hd.of_receiver rfl)

end

end Endpoint

namespace Network

/-- Both endpoints emit what their application wrote, and assemble what the
other application wrote. -/
structure Safe (cfg : Side → TCPConfig) (n : Network) : Prop where
  outbound : ∀ x, Outbound (n x).accepted (n x).ended (cfg x).sendCapacity (cfg x).isn (n x).conn
  inbound : ∀ x, Inbound (n x.other).accepted (n x.other).ended (cfg x).recvCapacity
    (cfg x.other).isn (n x).consumed (n x).conn

section

variable {cfg : Side → TCPConfig} {n : Network} {e : Side × Action}

theorem safe_start (hbounded : Bounded cfg (start cfg)) : Safe cfg (start cfg) where
  outbound := by
    intro x
    have hx := (hbounded x).1
    exact Outbound.start (cfg x) (by omega)
  inbound := by
    intro x
    have hx := (hbounded x.other).2
    rw [Side.other_other] at hx
    exact Inbound.start (cfg x) _ (by omega)

/-- A stream that was ended stays as it is. -/
theorem ended_step (he : Permitted n e) (x : Side) (hended : (n x).ended = true) :
    (n x).accepted = (n.step e x).accepted ∧ (n.step e x).ended = true := by
  obtain ⟨y, a⟩ := e
  rcases y.eq_or_eq_other x with rfl | rfl
  · rw [step_self]
    cases a with
    | write data =>
        change (n x).ended = false at he
        rw [hended] at he
        exact absurd he (by decide)
    | connect => exact ⟨rfl, hended⟩
    | endInputStream => exact ⟨rfl, rfl⟩
    | read len => exact ⟨rfl, hended⟩
    | tick ms => exact ⟨rfl, hended⟩
    | segmentReceived seg => exact ⟨rfl, hended⟩
  · rw [step_other]
    exact ⟨rfl, hended⟩

/-- What arrives was emitted by the peer. -/
theorem Safe.emitted (h : Safe cfg n) (he : Permitted n e) (seg : TCPSegment)
    (hseg : e.2 = .segmentReceived seg) :
    seg.Emitted (n e.1.other).accepted (cfg e.1.other).isn (n e.1.other).ended := by
  obtain ⟨y, a⟩ := e
  obtain rfl : a = .segmentReceived seg := hseg
  exact (h.outbound y.other).emitted seg (List.mem_append_left _ he)

theorem Safe.step (h : Safe cfg n) (he : Permitted n e) (hbounded : Bounded cfg (n.step e)) :
    Safe cfg (n.step e) where
  outbound := by
    intro x
    have hx := (hbounded x).1
    obtain ⟨y, a⟩ := e
    rcases y.eq_or_eq_other x with rfl | rfl
    · rw [step_self] at hx ⊢
      apply Endpoint.outbound_step (h.outbound x) _ hx
      intro data ha
      subst ha
      exact he
    · rw [step_other]
      exact h.outbound _
  inbound := by
    intro x
    have hx := (hbounded x.other).2
    rw [Side.other_other] at hx
    have hgrow := (h.inbound x).mono (n.accepted_prefix_step e x.other) hx
      (ended_step he x.other)
    obtain ⟨y, a⟩ := e
    rcases y.eq_or_eq_other x with rfl | rfl
    · rw [step_other] at hgrow ⊢
      rw [step_self]
      apply Endpoint.inbound_step hgrow
      exact fun seg hseg => h.emitted he seg hseg
    · rw [step_other]
      exact hgrow

theorem safe_run (cfg : Side → TCPConfig) (events : List (Side × Action))
    (hpermitted : Transition.Along step Permitted (start cfg) events)
    (hbounded : Bounded cfg (run cfg events)) : Safe cfg (run cfg events) :=
  invariant (Safe cfg) safe_start (fun _ _ h he _ hb => h.step he hb) events hpermitted
    (Transition.along_of_forall (p := fun _ => True) _ _ fun _ _ => trivial) hbounded

end

/-- The inbound stream of an endpoint is a prefix of what the other application
wrote, and it has ended only if that application has ended its stream and
nothing is missing. -/
theorem run_streams_safe (cfg : Side → TCPConfig) (events : List (Side × Action))
    (hpermitted : Transition.Along step Permitted (start cfg) events)
    (hbounded : Bounded cfg (run cfg events)) (x : Side) :
    let n := run cfg events
    (n x).written <+: (n x.other).accepted ∧
      ((n x).conn.inboundStream.inputEnded = true →
        (n x.other).ended = true ∧ (n x).written = (n x.other).accepted) :=
  ((safe_run cfg events hpermitted hbounded).inbound x).delivers

/-- The FIN overtakes the data. -/
theorem run_streams_safe_overtaken :
    let cfg : Side → TCPConfig :=
      fun _ => { recvCapacity := 4, sendCapacity := 4, isn := ⟨7⟩ }
    let n := run cfg [
      (.a, .connect),
      (.b, .segmentReceived { header := { seqno := ⟨7⟩, syn := true } }),
      (.a, .segmentReceived
        { header := { seqno := ⟨7⟩, ackno := ⟨8⟩, ack := true, syn := true, win := 4 } }),
      (.a, .write [5]),
      (.a, .endInputStream),
      (.b, .segmentReceived
        { header := { seqno := ⟨9⟩, ackno := ⟨8⟩, ack := true, fin := true, win := 4 } }),
      (.b, .segmentReceived
        { header := { seqno := ⟨8⟩, ackno := ⟨8⟩, ack := true, win := 4 }, payload := [5] })]
    (n .a).ended = true ∧ (n .b).written = (n .a).accepted := by
  intro cfg n
  have hbounded : Bounded cfg n := by
    intro x
    cases x
    · decide
    · decide
  exact (run_streams_safe cfg _ (by decide) hbounded .b).2 (by decide)

end Network

end NetworkLabs
