import NetworkLabs.Sponge.TCPConnection

/-!
# Phases and replies

`segment_received` reads off the sender and the receiver in which of eight phases
the connection is. The phase and the flags of the segment decide what becomes of
it: it is dropped, or taken without a reply, or answered with an empty segment,
with a call to `fill_window`, with both, or with what the sender has queued.

Seven of the eight branches hand the acknowledgment of the segment to the sender,
some of them only for a certain flag; `readsAckno` says when.
-/

namespace NetworkLabs

namespace TCPConnection

/-- The branch of `segment_received` for the segment hands its acknowledgment to
the sender. -/
def readsAckno (c : TCPConnection) (seg : TCPSegment) : Bool :=
  if c.sender.nextSeqnoAbsolute = 0 then false
  else if c.sender.nextSeqnoAbsolute = c.sender.bytesInFlight ∧
      c.receiver.ackno.isSome = false then seg.header.syn && seg.header.ack
  else if c.sender.nextSeqnoAbsolute = c.sender.bytesInFlight ∧
      c.receiver.ackno.isSome = true ∧ c.receiver.streamOut.inputEnded = false then true
  else if c.sender.bytesInFlight < c.sender.nextSeqnoAbsolute ∧
      c.sender.stream.eof = false then true
  else if c.sender.nextSeqnoAbsolute = c.sender.stream.bytesWritten + 2 ∧
      0 < c.sender.bytesInFlight ∧ c.sender.stream.eof = true ∧
      c.receiver.streamOut.inputEnded = false then seg.header.fin || seg.header.ack
  else if c.sender.nextSeqnoAbsolute = c.sender.stream.bytesWritten + 2 ∧
      c.sender.bytesInFlight = 0 ∧ c.sender.stream.eof = true ∧
      c.receiver.streamOut.inputEnded = false then true
  else if c.sender.nextSeqnoAbsolute = c.sender.stream.bytesWritten + 2 ∧
      c.sender.bytesInFlight = 0 ∧ c.sender.stream.eof = true ∧
      c.receiver.streamOut.inputEnded = true then seg.header.fin
  else true

/-- The sender after the acknowledgment was read, or not. -/
def readAckno (c : TCPConnection) (seg : TCPSegment) : TCPConnection :=
  if c.readsAckno seg then c.ackReceived seg else c

/-- An answer to a segment: an empty segment, a call to `fill_window`, both, or
neither, and then `_send_data`. -/
def answer (c : TCPConnection) (empty fill : Bool) : TCPConnection :=
  let c := if empty then c.sendEmptySegment else c
  let c := if fill then c.fillWindow else c
  c.sendData

/-- The branches of `segment_received` behind the test for RST. -/
inductive Phase where
  | closed
  | synSent
  | synRevd
  | established
  | finWait1
  | finWait2
  | timeWait
  | other
  deriving DecidableEq

def phase (c : TCPConnection) : Phase :=
  if c.sender.nextSeqnoAbsolute = 0 then .closed
  else if c.sender.nextSeqnoAbsolute = c.sender.bytesInFlight ∧
      c.receiver.ackno.isSome = false then .synSent
  else if c.sender.nextSeqnoAbsolute = c.sender.bytesInFlight ∧
      c.receiver.ackno.isSome = true ∧ c.receiver.streamOut.inputEnded = false then .synRevd
  else if c.sender.bytesInFlight < c.sender.nextSeqnoAbsolute ∧
      c.sender.stream.eof = false then .established
  else if c.sender.nextSeqnoAbsolute = c.sender.stream.bytesWritten + 2 ∧
      0 < c.sender.bytesInFlight ∧ c.sender.stream.eof = true ∧
      c.receiver.streamOut.inputEnded = false then .finWait1
  else if c.sender.nextSeqnoAbsolute = c.sender.stream.bytesWritten + 2 ∧
      c.sender.bytesInFlight = 0 ∧ c.sender.stream.eof = true ∧
      c.receiver.streamOut.inputEnded = false then .finWait2
  else if c.sender.nextSeqnoAbsolute = c.sender.stream.bytesWritten + 2 ∧
      c.sender.bytesInFlight = 0 ∧ c.sender.stream.eof = true ∧
      c.receiver.streamOut.inputEnded = true then .timeWait
  else .other

/-- What becomes of a segment. -/
inductive Reply where
  | dropped
  | taken
  | answered (empty fill : Bool)

def reply (c : TCPConnection) (seg : TCPSegment) : Reply :=
  match c.phase with
  | .closed => if seg.header.syn then .answered false true else .dropped
  | .synSent => if seg.header.syn then .answered true false else .dropped
  | .synRevd => .taken
  | .established => .answered (decide (0 < seg.lengthInSequenceSpace)) true
  | .finWait1 =>
      if seg.header.fin then .answered true false
      else if seg.header.ack then .answered false false
      else .dropped
  | .finWait2 => .answered true false
  | .timeWait => if seg.header.fin then .answered true false else .dropped
  | .other => .answered false true

/-- A reply, made by the connection after the segment. -/
def makeReply (c d : TCPConnection) : Reply → TCPConnection
  | .dropped => c
  | .taken => d
  | .answered empty fill => d.answer empty fill

theorem next_ne_zero {c : TCPConnection} (h : c.phase ≠ .closed) :
    c.sender.nextSeqnoAbsolute ≠ 0 := by
  intro h0
  rw [phase, if_pos h0] at h
  exact h rfl

theorem readsAckno_eq (c : TCPConnection) (seg : TCPSegment) :
    c.readsAckno seg =
      match c.phase with
      | .closed => false
      | .synSent => seg.header.syn && seg.header.ack
      | .finWait1 => seg.header.fin || seg.header.ack
      | .timeWait => seg.header.fin
      | _ => true := by
  rw [readsAckno, phase]
  split_ifs
  all_goals rfl

/-- The branches in terms of the phase. -/
theorem dispatch_eq (c : TCPConnection) (seg : TCPSegment) :
    c.dispatch seg = makeReply c ((c.readAckno seg).receive seg) (c.reply seg) := by
  rw [dispatch, readAckno, readsAckno, reply, phase]
  by_cases hclosed : c.sender.nextSeqnoAbsolute = 0
  · simp only [if_pos hclosed]
    cases seg.header.syn
    · rfl
    · rfl
  simp only [if_neg hclosed]
  by_cases hsynSent : c.sender.nextSeqnoAbsolute = c.sender.bytesInFlight ∧
      c.receiver.ackno.isSome = false
  · simp only [if_pos hsynSent]
    cases seg.header.syn
    · rfl
    · cases seg.header.ack
      · rfl
      · rfl
  simp only [if_neg hsynSent]
  by_cases hsynRevd : c.sender.nextSeqnoAbsolute = c.sender.bytesInFlight ∧
      c.receiver.ackno.isSome = true ∧ c.receiver.streamOut.inputEnded = false
  · simp only [if_pos hsynRevd]
    rfl
  simp only [if_neg hsynRevd]
  by_cases hestablished : c.sender.bytesInFlight < c.sender.nextSeqnoAbsolute ∧
      c.sender.stream.eof = false
  · simp only [if_pos hestablished]
    by_cases hlength : 0 < seg.lengthInSequenceSpace
    · simp only [if_pos hlength, decide_eq_true hlength]
      rfl
    · simp only [if_neg hlength, decide_eq_false hlength]
      rfl
  simp only [if_neg hestablished]
  by_cases hfinWait1 : c.sender.nextSeqnoAbsolute = c.sender.stream.bytesWritten + 2 ∧
      0 < c.sender.bytesInFlight ∧ c.sender.stream.eof = true ∧
      c.receiver.streamOut.inputEnded = false
  · simp only [if_pos hfinWait1]
    cases seg.header.fin
    · cases seg.header.ack
      · rfl
      · rfl
    · rfl
  simp only [if_neg hfinWait1]
  by_cases hfinWait2 : c.sender.nextSeqnoAbsolute = c.sender.stream.bytesWritten + 2 ∧
      c.sender.bytesInFlight = 0 ∧ c.sender.stream.eof = true ∧
      c.receiver.streamOut.inputEnded = false
  · simp only [if_pos hfinWait2]
    rfl
  simp only [if_neg hfinWait2]
  by_cases htimeWait : c.sender.nextSeqnoAbsolute = c.sender.stream.bytesWritten + 2 ∧
      c.sender.bytesInFlight = 0 ∧ c.sender.stream.eof = true ∧
      c.receiver.streamOut.inputEnded = true
  · simp only [if_pos htimeWait]
    cases seg.header.fin
    · rfl
    · rfl
  simp only [if_neg htimeWait]
  rfl

end TCPConnection

end NetworkLabs
