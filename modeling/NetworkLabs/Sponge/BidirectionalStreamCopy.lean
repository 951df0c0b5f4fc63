import NetworkLabs.Sponge.ByteStream.Runs
import NetworkLabs.Sponge.EventLoop
import NetworkLabs.Sponge.FdAdapter

/-!
# Copying between a socket and the terminal

The applications copy the standard input to a socket, and what comes from the socket to the
standard output; this is the event loop of `bidirectional_stream_copy.cc`. There is a byte
stream for each direction, one rule that fills it, and one rule that drains it. When the
input of a direction has ended and everything is written, the socket is shut down for
writing, or the standard output is closed.

A channel keeps what was read from its source and what was written to its destination.
-/

namespace NetworkLabs

namespace FileDescriptor

/-- `shutdown` of a socket with `SHUT_WR`. -/
def shutdownWrite (fd : FileDescriptor) (answer : Answer Unit) : Except Failure FileDescriptor := do
  let _ ← systemCall "shutdown" answer
  return fd.registerWrite

def tryClose (fd : FileDescriptor) (answer : Answer Unit) : Except Failure FileDescriptor := do
  let _ ← systemCall "close" answer
  return fd.close

end FileDescriptor

namespace BidirectionalStreamCopy

open EventLoop
open ByteStream (History Call)
open Halting (Ends)

def MAX_COPY_LENGTH : ℕ := 65536

def BUFFER_SIZE : ℕ := 1048576

/-- The stream of a direction with its flag, what was read from the source and what was
written to the destination. -/
structure Channel where
  history : History := .start BUFFER_SIZE
  shutdown : Bool := false
  taken : List UInt8 := []
  given : List UInt8 := []

namespace Channel

def stream (c : Channel) : ByteStream := c.history.stream

def call (c : Channel) (k : Call) : Channel := { c with history := c.history.step k }

/-- The callbacks of rules 1 and 3. -/
def fill (c : Channel) (fd : FileDescriptor) (answer : Answer (List UInt8)) :
    Except Failure (FileDescriptor × Channel) := do
  let (data, fd) ← fd.read c.stream.remainingCapacity answer
  let c := { c.call (.write data) with taken := c.taken ++ data }
  if fd.eof then return (fd, c.call .endInput) else return (fd, c)

/-- The callbacks of rules 2 and 4, up to the end of the stream. -/
def drain (c : Channel) (fd : FileDescriptor) (answer : Answer ℕ) :
    Except Failure (FileDescriptor × Channel) := do
  let bytesToWrite := min MAX_COPY_LENGTH c.stream.bufferSize
  let buffer := c.stream.peekOutput bytesToWrite
  let (bytesWritten, _, fd) ← fd.writeOnce [buffer] answer
  return (fd, { c.call (.popOutput bytesWritten) with
    given := c.given ++ buffer.take bytesWritten })

/-- The interest of rules 1 and 3. -/
def wantsInput (c other : Channel) : Bool :=
  !c.stream.error && decide (0 < c.stream.remainingCapacity) && !other.stream.error

/-- The interest of rules 2 and 4. -/
def hasOutput (c : Channel) : Bool :=
  !c.stream.bufferEmpty || (c.stream.eof && !c.shutdown)

end Channel

inductive RuleName where
  | fromInput
  | toSocket
  | fromSocket
  | toOutput
  deriving DecidableEq

/-- What the kernel answers to the calls of one turn. -/
structure Answers where
  input : Answer (List UInt8) := .ok []
  toSocket : Answer ℕ := .ok 0
  shutdown : Answer Unit := .ok ()
  fromSocket : Answer (List UInt8) := .ok []
  toOutput : Answer ℕ := .ok 0
  close : Answer Unit := .ok ()

end BidirectionalStreamCopy

open BidirectionalStreamCopy in
/-- The variables of the function. -/
structure BidirectionalStreamCopy where
  input : FileDescriptor := { fdNum := 0 }
  output : FileDescriptor := { fdNum := 1 }
  socket : FileDescriptor
  outbound : Channel := {}
  inbound : Channel := {}

namespace BidirectionalStreamCopy

open EventLoop
open ByteStream (History Call Keeps)
open Halting (Ends)

def fillOutbound (i : Answers) (s : BidirectionalStreamCopy) :
    Except Failure BidirectionalStreamCopy := do
  let (fd, c) ← s.outbound.fill s.input i.input
  return { s with input := fd, outbound := c }

def drainOutbound (i : Answers) (s : BidirectionalStreamCopy) :
    Except Failure BidirectionalStreamCopy := do
  let (fd, c) ← s.outbound.drain s.socket i.toSocket
  if c.stream.eof then do
    let fd ← fd.shutdownWrite i.shutdown
    return { s with socket := fd, outbound := { c with shutdown := true } }
  else return { s with socket := fd, outbound := c }

def fillInbound (i : Answers) (s : BidirectionalStreamCopy) :
    Except Failure BidirectionalStreamCopy := do
  let (fd, c) ← s.inbound.fill s.socket i.fromSocket
  return { s with socket := fd, inbound := c }

def drainInbound (i : Answers) (s : BidirectionalStreamCopy) :
    Except Failure BidirectionalStreamCopy := do
  let (fd, c) ← s.inbound.drain s.output i.toOutput
  if c.stream.eof then do
    let fd ← fd.tryClose i.close
    return { s with output := fd, inbound := { c with shutdown := true } }
  else return { s with output := fd, inbound := c }

def rule : RuleName → Rule BidirectionalStreamCopy Answers
  | .fromInput => {
      fd := input
      direction := .pollIn
      callback := fillOutbound
      interest := fun s => s.outbound.wantsInput s.inbound
      cancel := fun s => .ok { s with outbound := s.outbound.call .endInput } }
  | .toSocket => {
      fd := socket
      direction := .pollOut
      callback := drainOutbound
      interest := fun s => s.outbound.hasOutput
      cancel := fun s => .ok { s with outbound := s.outbound.call .setError } }
  | .fromSocket => {
      fd := socket
      direction := .pollIn
      callback := fillInbound
      interest := fun s => s.inbound.wantsInput s.outbound
      cancel := fun s => .ok { s with inbound := s.inbound.call .endInput } }
  | .toOutput => {
      fd := output
      direction := .pollOut
      callback := drainInbound
      interest := fun s => s.inbound.hasOutput
      cancel := fun s => .ok { s with inbound := s.inbound.call .setError } }

def ruleNames : List RuleName := [.fromInput, .toSocket, .fromSocket, .toOutput]

/-- One turn of the loop over the rules that are left. -/
def turn (r : Except Failure (Result × List RuleName × BidirectionalStreamCopy))
    (e : PollAnswer × Answers) :
    Except Failure (Result × List RuleName × BidirectionalStreamCopy) :=
  r >>= fun (ret, rules, s) =>
    if ret = .exit then .ok (ret, rules, s) else waitNextEvent rule rules s e.1 e.2

/-! ## The channels -/

namespace Channel

variable {c : Channel}

/-- What has been written to the destination is what has left the queue of the stream, and
what was read from the source is what has gone into it. -/
def Copies (c : Channel) : Prop :=
  c.taken.length + BUFFER_SIZE < 2 ^ 31 →
    ∃ q, Keeps BUFFER_SIZE c.history q ∧ c.taken = q.written ∧ c.given = c.history.removed

theorem copies_start : Copies {} := fun h => ⟨_, ByteStream.keeps_start h, rfl, rfl⟩

theorem Copies.call (h : c.Copies) {k : Call} (hk : k = .endInput ∨ k = .setError) :
    (c.call k).Copies := by
  intro hbound
  obtain ⟨q, hq, htaken, hgiven⟩ := h hbound
  have hwritten : c.history.stream.bytesWritten = q.written.length := hq.refines.bytesWritten_eq
  change c.taken.length + BUFFER_SIZE < 2 ^ 31 at hbound
  rw [htaken, ← hwritten] at hbound
  rcases hk with rfl | rfl
  · exact ⟨q, hq.step .endInput hbound, htaken, hgiven.trans (List.append_nil _).symm⟩
  · exact ⟨q, hq.step .setError hbound, htaken, hgiven.trans (List.append_nil _).symm⟩

theorem Copies.write (h : c.Copies) {data : List UInt8}
    (hroom : data.length ≤ c.stream.remainingCapacity) :
    Copies { c.call (.write data) with taken := c.taken ++ data } := by
  intro hbound
  change (c.taken ++ data).length + BUFFER_SIZE < 2 ^ 31 at hbound
  rw [List.length_append] at hbound
  obtain ⟨q, hq, htaken, hgiven⟩ := h (by omega)
  have hroom' : data.length ≤ q.room := hq.refines.remainingCapacity_eq ▸ hroom
  have hall : data.take q.room = data := List.take_of_length_le hroom'
  have hstep := hq.step (.write data) (by
    change (c.history.stream.write data).1.bytesWritten + _ < _
    rw [hq.refines.bytesWritten_write, BoundedFifo.length_written_push, ← htaken]
    omega)
  refine ⟨_, hstep, ?_, hgiven.trans (List.append_nil _).symm⟩
  change c.taken ++ data = q.written ++ data.take q.room
  rw [hall, htaken]

theorem Copies.pop (h : c.Copies) {amount n : ℕ} (hamount : amount < 2 ^ 31)
    (hn : n ≤ (c.stream.peekOutput amount).length) :
    Copies { c.call (.popOutput n) with
      given := c.given ++ (c.stream.peekOutput amount).take n } := by
  intro hbound
  obtain ⟨q, hq, htaken, hgiven⟩ := h hbound
  have hwritten : c.history.stream.bytesWritten = q.written.length := hq.refines.bytesWritten_eq
  change c.taken.length + BUFFER_SIZE < 2 ^ 31 at hbound
  rw [htaken, ← hwritten] at hbound
  refine ⟨_, hq.step (.popOutput n) hbound, htaken, ?_⟩
  change c.given ++ _ = c.history.removed ++ c.stream.peekOutput n
  rw [hgiven, c.stream.take_peekOutput hamount hn]

theorem Copies.prefixed (h : c.Copies) (hbound : c.taken.length + BUFFER_SIZE < 2 ^ 31) :
    c.given <+: c.taken := by
  obtain ⟨q, hq, htaken, hgiven⟩ := h hbound
  rw [hgiven, hq.removed_eq, htaken]
  exact List.take_prefix _ _

/-- Nothing is left in an empty stream, and then there is room in it. -/
theorem Copies.of_bufferEmpty (h : c.Copies) (hbound : c.taken.length + BUFFER_SIZE < 2 ^ 31)
    (hempty : c.stream.bufferEmpty = true) :
    c.given = c.taken ∧ c.stream.remainingCapacity ≠ 0 := by
  obtain ⟨q, hq, htaken, hgiven⟩ := h hbound
  have hsize : c.stream.bufferSize = 0 := by simpa [ByteStream.bufferEmpty] using hempty
  have hqsize : q.size = 0 := hq.refines.bufferSize_eq ▸ hsize
  have hcount := q.size_add_readCount
  have hroom := q.room_add_size
  constructor
  · rw [hgiven, hq.removed_eq, htaken, List.take_of_length_le (by omega)]
  · have hremaining : c.stream.remainingCapacity = q.room := hq.refines.remainingCapacity_eq
    have hcapacity := hq.capacity_eq
    have hpos : 0 < BUFFER_SIZE := by decide
    omega

/-- What filling a channel does. -/
structure Filled (c : Channel) (fd : FileDescriptor) (r : FileDescriptor × Channel) : Prop where
  copies : r.2.Copies
  error_eq : r.2.stream.error = c.stream.error
  shutdown_eq : r.2.shutdown = c.shutdown
  eof_of : fd.eof = true → r.1.eof = true
  isEnd_of : c.stream.isEnd = true → r.2.stream.isEnd = true
  ends : r.1.eof = true → r.2.stream.isEnd = true
  open_of : r.1.eof = false → r.2.stream.isEnd = c.stream.isEnd
  closed_eq : r.1.closed = fd.closed
  readCount_eq : r.1.readCount = fd.readCount + 1

theorem Copies.filled (h : c.Copies) (fd : FileDescriptor) (answer : Answer (List UInt8)) :
    Ends Failure.Foreign (c.Filled fd) (c.fill fd answer) := by
  rw [fill]
  cases hread : fd.read c.stream.remainingCapacity answer with
  | error e => exact FileDescriptor.foreign_read hread
  | ok r =>
      obtain ⟨data, fd'⟩ := r
      have hcount := FileDescriptor.readCount_read hread
      obtain ⟨-, hlength, hfd⟩ := FileDescriptor.read_eq_ok hread
      have hcopies := h.write (hlength.trans (min_le_right _ _))
      have heof : fd.eof = true → fd'.eof = true := by
        intro heof
        rw [hfd]
        split_ifs
        · rfl
        · exact heof
      have hclosed : fd'.closed = fd.closed := by
        rw [hfd]
        split_ifs
        · rfl
        · rfl
      simp only [bind, Except.bind]
      split_ifs with hend
      · exact {
          copies := hcopies.call (Or.inl rfl)
          error_eq := rfl
          shutdown_eq := rfl
          eof_of := heof
          isEnd_of := fun _ => rfl
          ends := fun _ => rfl
          open_of := fun hopen => absurd (hopen.symm.trans hend) (by decide)
          closed_eq := hclosed
          readCount_eq := hcount }
      · exact {
          copies := hcopies
          error_eq := rfl
          shutdown_eq := rfl
          eof_of := heof
          isEnd_of := id
          ends := fun heof' => absurd heof' hend
          open_of := fun _ => rfl
          closed_eq := hclosed
          readCount_eq := hcount }

/-- What draining a channel does. -/
structure Drained (c : Channel) (fd : FileDescriptor) (r : FileDescriptor × Channel) : Prop where
  copies : r.2.Copies
  error_eq : r.2.stream.error = c.stream.error
  isEnd_eq : r.2.stream.isEnd = c.stream.isEnd
  shutdown_eq : r.2.shutdown = c.shutdown
  fd_eq : r.1 = fd.registerWrite

theorem Copies.drained (h : c.Copies) (fd : FileDescriptor) (answer : Answer ℕ) :
    Ends Failure.Foreign (c.Drained fd) (c.drain fd answer) := by
  rw [drain]
  simp only
  cases hcall : fd.writeOnce [c.stream.peekOutput (min MAX_COPY_LENGTH c.stream.bufferSize)]
      answer with
  | error e => exact FileDescriptor.foreign_writeOnce hcall
  | ok r =>
      obtain ⟨n, rest, fd'⟩ := r
      obtain ⟨hn, -, -, rfl⟩ := FileDescriptor.writeOnce_spec hcall
      have hmax : MAX_COPY_LENGTH = 65536 := rfl
      exact {
        copies := h.pop (by omega) (by simpa [BufferList.size] using hn)
        error_eq := rfl
        isEnd_eq := rfl
        shutdown_eq := rfl
        fd_eq := rfl }

end Channel

/-! ## The loop -/

/-- What holds between two callbacks, if only the input may hang up. An error of the inbound
stream says that the output has been closed, and the outbound stream has none. -/
structure Copying (s : BidirectionalStreamCopy) : Prop where
  outbound : s.outbound.Copies
  inbound : s.inbound.Copies
  socket_open : s.socket.closed = false
  outbound_error : s.outbound.stream.error = false
  inbound_error : s.inbound.stream.error = true → s.inbound.shutdown = true
  inbound_end : s.inbound.stream.isEnd = s.socket.eof
  output_closed : s.output.closed = s.inbound.shutdown
  outbound_shut : s.outbound.shutdown = true → s.outbound.stream.isEnd = true
  inbound_shut : s.inbound.shutdown = true → s.inbound.stream.eof = true

/-- What a rule has answered when it was asked for its interest. -/
def Armed : RuleName → Bool → BidirectionalStreamCopy → Prop
  | .fromInput, _, _ => True
  | .toSocket, interest, s => interest = false → s.outbound.stream.bufferEmpty = true ∧
      (s.outbound.stream.isEnd = true → s.outbound.shutdown = true)
  | .fromSocket, true, s => s.socket.eof = false
  | .fromSocket, false, s => s.inbound.stream.remainingCapacity = 0 ∨
      s.inbound.stream.error = true
  | .toOutput, true, s => s.inbound.shutdown = false
  | .toOutput, false, s => s.inbound.stream.bufferEmpty = true ∧
      (s.inbound.stream.isEnd = true → s.inbound.shutdown = true)

/-- What is known of a rule that was cancelled. -/
def Gone : RuleName → BidirectionalStreamCopy → Prop
  | .fromInput, s => s.outbound.stream.isEnd = true
  | .toSocket, _ => False
  | .fromSocket, s => s.socket.eof = true
  | .toOutput, s => s.inbound.stream.error = true

/-- The order of the rules. -/
def position : RuleName → ℕ
  | .fromInput => 0
  | .toSocket => 1
  | .fromSocket => 2
  | .toOutput => 3

theorem copying_start {socket : FileDescriptor} (heof : socket.eof = false)
    (hclosed : socket.closed = false) : Copying { socket := socket } where
  outbound := Channel.copies_start
  inbound := Channel.copies_start
  socket_open := hclosed
  outbound_error := rfl
  inbound_error := nofun
  inbound_end := heof.symm
  output_closed := rfl
  outbound_shut := nofun
  inbound_shut := nofun

namespace Channel

variable {c other : Channel}

theorem of_not_wantsInput (h : c.wantsInput other = false) (herror : other.stream.error = false) :
    c.stream.remainingCapacity = 0 ∨ c.stream.error = true := by
  rw [wantsInput, herror] at h
  simp only [Bool.not_false, Bool.and_true, Bool.and_eq_false_iff, Bool.not_eq_false',
    decide_eq_false_iff_not] at h
  rcases h with hnow | hroom
  · exact Or.inr hnow
  · exact Or.inl (by omega)

theorem of_not_hasOutput (h : c.hasOutput = false) : c.stream.bufferEmpty = true ∧
    (c.stream.isEnd = true → c.shutdown = true) := by
  simp only [hasOutput, Bool.or_eq_false_iff, Bool.not_eq_false', Bool.and_eq_false_iff] at h
  refine ⟨h.1, fun hend => ?_⟩
  rcases h.2 with hopen | hshut
  · rw [ByteStream.eof, hend, h.1] at hopen
    exact absurd hopen (by decide)
  · exact hshut

theorem isEnd_of_eof (h : c.stream.eof = true) : c.stream.isEnd = true := by
  rw [ByteStream.eof, Bool.and_eq_true] at h
  exact h.1

end Channel

namespace Copying

variable {s : BidirectionalStreamCopy}

theorem armed_interest (h : s.Copying) (k : RuleName) (hdefunct : (rule k).defunct s = false) :
    Armed k ((rule k).interest s) s := by
  cases k with
  | fromInput => trivial
  | toSocket => exact Channel.of_not_hasOutput
  | fromSocket =>
      change (true && s.socket.eof || s.socket.closed) = false at hdefunct
      rw [h.socket_open, Bool.or_false, Bool.true_and] at hdefunct
      cases hinterest : (rule .fromSocket).interest s with
      | true => exact hdefunct
      | false => exact Channel.of_not_wantsInput hinterest h.outbound_error
  | toOutput =>
      change (false || s.output.closed) = false at hdefunct
      rw [Bool.false_or, h.output_closed] at hdefunct
      cases hinterest : (rule .toOutput).interest s with
      | true => exact hdefunct
      | false => exact Channel.of_not_hasOutput hinterest

/-- Rule 1. -/
theorem fillOutbound (h : s.Copying) (i : Answers) :
    Ends Failure.Foreign (fun s' => s'.Copying ∧ s'.inbound = s.inbound ∧
        s'.socket = s.socket ∧ (s.outbound.stream.isEnd = true → s'.outbound.stream.isEnd = true) ∧
        s'.input.readCount = s.input.readCount + 1) (fillOutbound i s) := by
  apply (h.outbound.filled s.input i.input).bind
  rintro ⟨fd, c⟩ hfill
  exact ⟨{ h with
    outbound := hfill.copies
    outbound_error := hfill.error_eq.trans h.outbound_error
    outbound_shut := fun hshut =>
      hfill.isEnd_of (h.outbound_shut (hfill.shutdown_eq.symm.trans hshut)) },
    rfl, rfl, hfill.isEnd_of, hfill.readCount_eq⟩

/-- Rule 2. -/
theorem drainOutbound (h : s.Copying) (i : Answers) :
    Ends Failure.Foreign (fun s' => s'.Copying ∧ s'.inbound = s.inbound ∧
        s'.socket.eof = s.socket.eof ∧ s'.outbound.stream.isEnd = s.outbound.stream.isEnd ∧
        (s'.socket.writeCount = s.socket.writeCount + 1 ∨
          s'.socket.writeCount = s.socket.writeCount + 1 + 1)) (drainOutbound i s) := by
  apply (h.outbound.drained s.socket i.toSocket).bind
  rintro ⟨fd, c⟩ hdrain
  obtain rfl : fd = s.socket.registerWrite := hdrain.fd_eq
  dsimp only
  split_ifs with heof
  · rw [FileDescriptor.shutdownWrite]
    cases i.shutdown with
    | error errno => exact Failure.foreign_unixError _ _
    | ok u =>
        exact ⟨{ h with
          outbound := hdrain.copies
          outbound_error := hdrain.error_eq.trans h.outbound_error
          outbound_shut := fun _ => Channel.isEnd_of_eof heof },
          rfl, rfl, hdrain.isEnd_eq, Or.inr rfl⟩
  · exact ⟨{ h with
      outbound := hdrain.copies
      outbound_error := hdrain.error_eq.trans h.outbound_error
      outbound_shut := fun hshut => hdrain.isEnd_eq.trans
        (h.outbound_shut (hdrain.shutdown_eq.symm.trans hshut)) },
      rfl, rfl, hdrain.isEnd_eq, Or.inl rfl⟩

/-- Rule 3. -/
theorem fillInbound (h : s.Copying) (hopen : s.socket.eof = false) (i : Answers) :
    Ends Failure.Foreign (fun s' => s'.Copying ∧ s'.outbound = s.outbound ∧
        s'.inbound.shutdown = s.inbound.shutdown ∧
        s'.inbound.stream.error = s.inbound.stream.error ∧
        s'.socket.readCount = s.socket.readCount + 1) (fillInbound i s) := by
  have hend : s.inbound.stream.isEnd = false := h.inbound_end.trans hopen
  have hnotShut : s.inbound.shutdown ≠ true := by
    intro hshut
    exact absurd (hend.symm.trans (Channel.isEnd_of_eof (h.inbound_shut hshut))) (by decide)
  apply (h.inbound.filled s.socket i.fromSocket).bind
  rintro ⟨fd, c⟩ hfill
  exact ⟨{ h with
    inbound := hfill.copies
    socket_open := hfill.closed_eq.trans h.socket_open
    inbound_error := fun herror =>
      hfill.shutdown_eq.trans (h.inbound_error (hfill.error_eq.symm.trans herror))
    inbound_end := by
      cases heof : fd.eof with
      | true => exact hfill.ends heof
      | false => exact (hfill.open_of heof).trans hend
    output_closed := h.output_closed.trans hfill.shutdown_eq.symm
    inbound_shut := fun hshut => absurd (hfill.shutdown_eq.symm.trans hshut) hnotShut },
    rfl, hfill.shutdown_eq, hfill.error_eq, hfill.readCount_eq⟩

/-- Rule 4. -/
theorem drainInbound (h : s.Copying) (hopen : s.inbound.shutdown = false) (i : Answers) :
    Ends Failure.Foreign (fun s' => s'.Copying ∧ s'.outbound = s.outbound ∧
        s'.socket = s.socket ∧ s'.inbound.stream.error = s.inbound.stream.error ∧
        s'.output.writeCount = s.output.writeCount + 1) (drainInbound i s) := by
  have herror : s.inbound.stream.error ≠ true := by
    intro herror
    exact absurd (hopen.symm.trans (h.inbound_error herror)) (by decide)
  apply (h.inbound.drained s.output i.toOutput).bind
  rintro ⟨fd, c⟩ hdrain
  obtain rfl : fd = s.output.registerWrite := hdrain.fd_eq
  dsimp only
  split_ifs with heof
  · rw [FileDescriptor.tryClose]
    cases i.close with
    | error errno => exact Failure.foreign_unixError _ _
    | ok u =>
        exact ⟨{ h with
          inbound := hdrain.copies
          inbound_error := fun _ => rfl
          inbound_end := hdrain.isEnd_eq.trans h.inbound_end
          output_closed := rfl
          inbound_shut := fun _ => heof }, rfl, rfl, hdrain.error_eq, rfl⟩
  · have hshut : c.shutdown = false := hdrain.shutdown_eq.trans hopen
    exact ⟨{ h with
      inbound := hdrain.copies
      inbound_error := fun hnow => absurd (hdrain.error_eq.symm.trans hnow) herror
      inbound_end := hdrain.isEnd_eq.trans h.inbound_end
      output_closed := h.output_closed.trans hdrain.shutdown_eq.symm
      inbound_shut := fun hnow => absurd (hshut.symm.trans hnow) (by decide) },
      rfl, rfl, hdrain.error_eq, rfl⟩

end Copying

section

variable {s s' : BidirectionalStreamCopy}

theorem Armed.of_eq {j : RuleName} (ha : Armed j true s) (heof : s'.socket.eof = s.socket.eof)
    (hshut : s'.inbound.shutdown = s.inbound.shutdown) : Armed j true s' := by
  cases j with
  | fromInput => trivial
  | toSocket => exact nofun
  | fromSocket => exact heof.trans ha
  | toOutput => exact hshut.trans ha

theorem Gone.of_imp {j : RuleName} (hg : Gone j s)
    (hend : s.outbound.stream.isEnd = true → s'.outbound.stream.isEnd = true)
    (heof : s.socket.eof = true → s'.socket.eof = true)
    (herror : s.inbound.stream.error = true → s'.inbound.stream.error = true) : Gone j s' := by
  cases j with
  | fromInput => exact hend hg
  | toSocket => exact hg
  | fromSocket => exact heof hg
  | toOutput => exact herror hg

/-- The rules keep what the event loop asks of them, if only the input may hang up. -/
theorem keeps (i : Answers) : EventLoop.Keeps rule i (fun j k => position j < position k)
    (fun k => k = .fromInput) Failure.Foreign Copying Armed Gone where
  interest k s hs hdefunct := hs.armed_interest k hdefunct
  call := by
    intro k s hs harmed
    apply Rule.ends_call
    cases k with
    | fromInput =>
        apply (hs.fillOutbound i).mono (fun _ he => he)
        rintro s' ⟨hs', hinbound, hsocket, hend, hcount⟩
        refine ⟨⟨hs', fun j _ ha => ha.of_eq (by rw [hsocket]) (by rw [hinbound]),
          fun j hg => hg.of_imp hend (by rw [hsocket]; exact id) (by rw [hinbound]; exact id)⟩,
          Or.inl ?_⟩
        change s'.input.readCount ≠ s.input.readCount
        rw [hcount]
        exact add_one_ne _
    | toSocket =>
        apply (hs.drainOutbound i).mono (fun _ he => he)
        rintro s' ⟨hs', hinbound, heof, hend, hcount⟩
        refine ⟨⟨hs', fun j _ ha => ha.of_eq heof (by rw [hinbound]),
          fun j hg => hg.of_imp hend.trans heof.trans (by rw [hinbound]; exact id)⟩, Or.inl ?_⟩
        change s'.socket.writeCount ≠ s.socket.writeCount
        rcases hcount with hcount | hcount
        · rw [hcount]
          exact add_one_ne _
        · rw [hcount]
          exact add_one_add_one_ne _
    | fromSocket =>
        have hopen : s.socket.eof = false := harmed
        apply (hs.fillInbound hopen i).mono (fun _ he => he)
        rintro s' ⟨hs', houtbound, hshut, herror, hcount⟩
        refine ⟨⟨hs', fun j hj ha => ?_, fun j hg => hg.of_imp (by rw [houtbound]; exact id)
          (fun heof => absurd (hopen.symm.trans heof) (by decide)) herror.trans⟩, Or.inl ?_⟩
        · cases j with
          | fromInput => trivial
          | toSocket =>
              intro hend
              cases hend
          | fromSocket => exact absurd rfl hj
          | toOutput => exact hshut.trans ha
        · change s'.socket.readCount ≠ s.socket.readCount
          rw [hcount]
          exact add_one_ne _
    | toOutput =>
        apply (hs.drainInbound harmed i).mono (fun _ he => he)
        rintro s' ⟨hs', houtbound, hsocket, herror, hcount⟩
        refine ⟨⟨hs', fun j hj ha => ?_, fun j hg => hg.of_imp (by rw [houtbound]; exact id)
          (by rw [hsocket]; exact id) herror.trans⟩, Or.inl ?_⟩
        · cases j with
          | fromInput => trivial
          | toSocket =>
              intro hend
              cases hend
          | fromSocket =>
              change s'.socket.eof = false
              rw [hsocket]
              exact ha
          | toOutput => exact absurd rfl hj
        · change s'.output.writeCount ≠ s.output.writeCount
          rw [hcount]
          exact add_one_ne _
  cancel := by
    intro k s hs hwhy
    cases k with
    | fromInput =>
        refine ⟨{ hs with
          outbound := hs.outbound.call (Or.inl rfl)
          outbound_shut := fun _ => rfl }, fun j _ ha => ha.of_eq rfl rfl,
          fun j _ hj _ => absurd hj (Nat.not_lt_zero _), rfl,
          fun j hg => hg.of_imp (fun _ => rfl) id id⟩
    | toSocket =>
        rcases hwhy with hdefunct | ⟨-, hhang⟩
        · change (false || s.socket.closed) = true at hdefunct
          rw [hs.socket_open] at hdefunct
          exact absurd hdefunct (by decide)
        · cases hhang
    | fromSocket =>
        have heof : s.socket.eof = true := by
          rcases hwhy with hdefunct | ⟨-, hhang⟩
          · change (true && s.socket.eof || s.socket.closed) = true at hdefunct
            rwa [hs.socket_open, Bool.or_false, Bool.true_and] at hdefunct
          · cases hhang
        refine ⟨{ hs with
          inbound := hs.inbound.call (Or.inl rfl)
          inbound_end := heof.symm
          inbound_shut := fun hshut => ?_ }, fun j _ ha => ha.of_eq rfl rfl, fun j b hj ha => ?_,
          heof, fun j hg => hg.of_imp id id id⟩
        · have hempty := hs.inbound_shut hshut
          rw [ByteStream.eof, Bool.and_eq_true] at hempty ⊢
          exact ⟨rfl, hempty.2⟩
        · cases j with
          | fromInput => trivial
          | toSocket => exact ha
          | fromSocket => exact absurd hj (lt_irrefl _)
          | toOutput => exact absurd hj (by decide)
    | toOutput =>
        have hshut : s.inbound.shutdown = true := by
          rcases hwhy with hdefunct | ⟨-, hhang⟩
          · change (false || s.output.closed) = true at hdefunct
            rwa [Bool.false_or, hs.output_closed] at hdefunct
          · cases hhang
        refine ⟨{ hs with
          inbound := hs.inbound.call (Or.inr rfl)
          inbound_error := fun _ => hshut }, fun j _ ha => ha.of_eq rfl rfl, fun j b hj ha => ?_,
          rfl, fun j hg => hg.of_imp id id fun _ => rfl⟩
        cases j with
        | fromInput => trivial
        | toSocket => exact ha
        | fromSocket =>
            cases b with
            | true => exact ha
            | false => exact Or.inr rfl
        | toOutput => exact absurd hj (lt_irrefl _)

end

/-! ## Runs of the loop -/

def start (socket : FileDescriptor) :
    Except Failure (Result × List RuleName × BidirectionalStreamCopy) :=
  .ok (.success, ruleNames, { socket := socket })

/-- Only the input may hang up, and `poll` is not interrupted. -/
def Undisturbed (r : Except Failure (Result × List RuleName × BidirectionalStreamCopy))
    (e : PollAnswer × Answers) : Prop :=
  match r with
  | .ok (_, rules, s) => e.1 ≠ .interrupted ∧ Hangs (fun k => k = .fromInput) rule rules s e.1
  | .error _ => True

instance : DecidableRel Undisturbed := fun r e =>
  match r with
  | .ok (_, rules, s) =>
      inferInstanceAs (Decidable (e.1 ≠ .interrupted ∧ Hangs _ rule rules s e.1))
  | .error _ => isTrue trivial

/-- What holds between the turns: the rules that are missing were cancelled, and when the
loop has told to exit, the others were not interested. -/
structure Turned (socket : FileDescriptor)
    (r : Result × List RuleName × BidirectionalStreamCopy) : Prop where
  passes : Passes Copying Gone ruleNames r.2.1 { socket := socket } r.2.2
  exited : r.1 = .exit → ∀ k ∈ r.2.1, Armed k false r.2.2

theorem Turned.turn {socket : FileDescriptor}
    {r : Result × List RuleName × BidirectionalStreamCopy} (h : Turned socket r)
    {e : PollAnswer × Answers} (he : Undisturbed (.ok r) e) :
    Ends Failure.Foreign (Turned socket) (turn (.ok r) e) := by
  obtain ⟨ret, rules, s⟩ := r
  change Ends _ _ (if ret = .exit then _ else _)
  split_ifs with hret
  · exact h
  · have hsub := h.passes.sublist
    apply ((keeps e.2).waitNextEvent (by decide) he.2 (hsub.nodup (by decide))
      (List.Pairwise.sublist hsub (by decide)) h.passes.inv).mono (fun _ hf => hf)
    rintro ⟨ret', rules', s'⟩ ⟨hpasses, hexit⟩
    exact ⟨h.passes.trans hpasses, fun hexit' => (hexit hexit').resolve_left he.1⟩

theorem turned_start {socket : FileDescriptor} (heof : socket.eof = false)
    (hclosed : socket.closed = false) :
    Ends Failure.Foreign (Turned socket) (start socket) :=
  ⟨Passes.refl (copying_start heof hclosed), nofun⟩

/-- The loop exits only when the input from the socket has ended and has been written to the
output, which is closed then. -/
theorem Turned.exit {socket : FileDescriptor} {rules : List RuleName} {s : BidirectionalStreamCopy}
    (h : Turned socket (.exit, rules, s))
    (hinbound : s.inbound.taken.length + BUFFER_SIZE < 2 ^ 31) :
    s.outbound.stream.bufferEmpty = true ∧ s.outbound.shutdown = s.outbound.stream.isEnd ∧
      s.socket.eof = true ∧ s.output.closed = true ∧ s.inbound.stream.bufferEmpty = true := by
  have hs := h.passes.inv
  have hgone : ∀ k, k ∉ rules → Gone k s := by
    intro k hk
    apply h.passes.cancelled k _ hk
    cases k
    all_goals decide
  have harmed := h.exited rfl
  have htoSocket : .toSocket ∈ rules := by
    by_contra hnot
    exact hgone .toSocket hnot
  obtain ⟨hempty, hshut⟩ := harmed .toSocket htoSocket rfl
  have hdone : s.inbound.stream.bufferEmpty = true ∧
      (s.inbound.stream.isEnd = true → s.inbound.shutdown = true) := by
    by_cases hmem : .toOutput ∈ rules
    · exact harmed .toOutput hmem
    · have hclosed := hs.inbound_error (hgone .toOutput hmem)
      have heof := hs.inbound_shut hclosed
      rw [ByteStream.eof, Bool.and_eq_true] at heof
      exact ⟨heof.2, fun _ => hclosed⟩
  have heof : s.socket.eof = true := by
    by_cases hmem : .fromSocket ∈ rules
    · rcases harmed .fromSocket hmem with hroom | herror
      · exact absurd hroom (hs.inbound.of_bufferEmpty hinbound hdone.1).2
      · rw [← hs.inbound_end]
        exact Channel.isEnd_of_eof (hs.inbound_shut (hs.inbound_error herror))
    · exact hgone .fromSocket hmem
  refine ⟨hempty, ?_, heof, ?_, hdone.1⟩
  · rw [Bool.eq_iff_iff]
    exact ⟨hs.outbound_shut, hshut⟩
  · rw [hs.output_closed]
    exact hdone.2 (hs.inbound_end.trans heof)

/-- Two bytes go one way and one the other way, and both sides end. -/
def bothWays : List (PollAnswer × Answers) := [
  (.ready [POLLIN, 0, POLLIN, 0], { input := .ok [7, 8], fromSocket := .ok [9] }),
  (.ready [POLLIN, POLLOUT, POLLIN, POLLOUT], { toSocket := .ok 2, toOutput := .ok 1 }),
  (.timeout, {})]

end BidirectionalStreamCopy

end NetworkLabs
