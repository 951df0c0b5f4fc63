import NetworkLabs.Sponge.EventLoop
import NetworkLabs.Sponge.FdAdapter
import NetworkLabs.Sponge.TCPConnection

/-!
# The socket

`TCPSpongeSocket` follows `tcp_sponge_socket.cc`. The owner of the socket holds one end of
a pair of local stream sockets, and a thread holds the other one, together with a
connection and an adapter. The thread is an event loop with four rules, which bring
datagrams to the connection, the bytes of the owner to the connection, the bytes of the
peer to the owner, and the segments of the connection to the network.

The state holds the two pipes of the socket pair as well, what has been written into the
network, and what the owner has written and read so far.
-/

namespace NetworkLabs

/-- One direction of a pair of local stream sockets. -/
structure LocalStream where
  content : List UInt8 := []
  shut : Bool := false
  deriving DecidableEq

namespace LocalStream

def EAGAIN : ℕ := 11

def EPIPE : ℕ := 32

/-- A read that does not block. What is returned has at most `size` bytes, and the kernel may
return less or fail; it returns nothing only at the end of the stream. -/
def read (s : LocalStream) (size : ℕ) (kernel : Answer ℕ) : Answer (List UInt8) × LocalStream :=
  match kernel with
  | .error errno => (.error errno, s)
  | .ok n =>
      if size = 0 then (.ok [], s)
      else if s.content = [] then (if s.shut then .ok [] else .error EAGAIN, s)
      else
        let count := max 1 (min n size)
        (.ok (s.content.take count), { s with content := s.content.drop count })

/-- A write that does not block; the kernel takes as many bytes as it has room for. -/
def write (s : LocalStream) (data : List UInt8) (kernel : Answer ℕ) : Answer ℕ × LocalStream :=
  match kernel with
  | .error errno => (.error errno, s)
  | .ok n =>
      if s.shut then (.error EPIPE, s)
      else if data = [] then (.ok 0, s)
      else if n = 0 then (.error EAGAIN, s)
      else (.ok (min n data.length), { s with content := s.content ++ data.take n })

end LocalStream

namespace TCPConnection

def remainingOutboundCapacity (c : TCPConnection) : ℕ := c.sender.streamIn.remainingCapacity

/-- A `pop_output` on the stream that `inbound_stream` hands out. -/
def popInbound (c : TCPConnection) (len : ℕ) : TCPConnection :=
  { c with receiver := { c.receiver with reassembler := { c.receiver.reassembler with
      output := c.inboundStream.popOutput len } } }

end TCPConnection

/-- The members of the socket, the pipes behind it, and its history. The queue of the
connection keeps all segments, and `popped` of them were taken out. -/
structure TCPSpongeSocket (AdaptT Dout : Type) where
  tcp : TCPConnection
  popped : ℕ := 0
  datagramAdapter : AdaptT
  threadData : FileDescriptor
  outboundShutdown : Bool := false
  inboundShutdown : Bool := false
  outboundPipe : LocalStream := {}
  inboundPipe : LocalStream := {}
  datagrams : List Dout := []
  ownerWritten : List UInt8 := []
  ownerRead : List UInt8 := []

namespace TCPSpongeSocket

open EventLoop

variable {AdaptT Din Dout : Type}

/-- What the environment answers to the calls of one turn of the loop. -/
structure Answers (Din : Type) where
  datagram : Answer Din
  rand : UInt16 := 0
  outbound : Answer ℕ := .ok 0
  inbound : Answer ℕ := .ok 0
  writes : List WriteAnswer := []

/-- The segments in `segments_out`. -/
def pending (s : TCPSpongeSocket AdaptT Dout) : List TCPSegment :=
  s.tcp.segmentsOut.drop s.popped

inductive RuleName where
  | datagramIn
  | dataIn
  | dataOut
  | datagramOut
  deriving DecidableEq

section

variable (ad : FdAdapter AdaptT Din Dout)

/-- Rule 1: read from the packet stream. -/
def receiveDatagram (i : Answers Din) (s : TCPSpongeSocket AdaptT Dout) :
    Except Failure (TCPSpongeSocket AdaptT Dout) := do
  let (seg, adapter) ← ad.read s.datagramAdapter i.rand i.datagram
  let s := { s with datagramAdapter := adapter }
  match seg with
  | none => return s
  | some seg => return { s with tcp := s.tcp.segmentReceived seg }

def acceptedLess : Failure :=
  .runtimeError "TCPConnection::write() accepted less than advertised length"

/-- Rule 2: read from the pipe into the outbound stream. -/
def readPipe (i : Answers Din) (s : TCPSpongeSocket AdaptT Dout) :
    Except Failure (TCPSpongeSocket AdaptT Dout) := do
  let limit := s.tcp.remainingOutboundCapacity
  let (answer, pipe) := s.outboundPipe.read (FileDescriptor.sizeToRead limit) i.outbound
  let (data, fd) ← s.threadData.read limit answer
  let (tcp, amountWritten) := s.tcp.write data
  if amountWritten ≠ data.length then .error acceptedLess
  else
    let s := { s with tcp := tcp, threadData := fd, outboundPipe := pipe }
    if fd.eof then return { s with tcp := s.tcp.endInputStream, outboundShutdown := true }
    else return s

/-- Rule 2 is cancelled. -/
def cancelReadPipe (s : TCPSpongeSocket AdaptT Dout) : TCPSpongeSocket AdaptT Dout :=
  { s with tcp := s.tcp.endInputStream, outboundShutdown := true }

/-- Rule 3: write from the inbound stream into the pipe. The loop of `write` makes one round,
and only what was written is popped. -/
def writePipe (i : Answers Din) (s : TCPSpongeSocket AdaptT Dout) :
    Except Failure (TCPSpongeSocket AdaptT Dout) := do
  let inbound := s.tcp.inboundStream
  let amountToWrite := min 65536 inbound.bufferSize
  let buffer := inbound.peekOutput amountToWrite
  let (answer, pipe) := s.inboundPipe.write buffer i.inbound
  let (bytesWritten, _, fd) ← s.threadData.writeOnce [buffer] answer
  let s := { s with
    tcp := s.tcp.popInbound bytesWritten, threadData := fd, inboundPipe := pipe }
  if s.tcp.inboundStream.eof || s.tcp.inboundStream.error then
    return { s with
      threadData := s.threadData.registerWrite
      inboundPipe := { s.inboundPipe with shut := true }
      inboundShutdown := true }
  else return s

/-- The loop of rule 4 over the segments in the queue. -/
def writeSegments : List TCPSegment → List WriteAnswer → AdaptT → List Dout →
    Except Failure (AdaptT × List Dout)
  | [], _, adapter, datagrams => .ok (adapter, datagrams)
  | seg :: segs, writes, adapter, datagrams => do
      let (datagram, adapter) ← ad.write adapter (writes.headD {}) seg
      writeSegments segs writes.tail adapter (datagrams ++ datagram.toList)

/-- Rule 4: send the segments of the connection as datagrams. -/
def sendDatagrams (i : Answers Din) (s : TCPSpongeSocket AdaptT Dout) :
    Except Failure (TCPSpongeSocket AdaptT Dout) := do
  let (adapter, datagrams) ← writeSegments ad s.pending i.writes s.datagramAdapter s.datagrams
  return { s with
    datagramAdapter := adapter, datagrams := datagrams, popped := s.tcp.segmentsOut.length }

/-- The rules of `_initialize_TCP`. -/
def rule : RuleName → Rule (TCPSpongeSocket AdaptT Dout) (Answers Din)
  | .datagramIn => {
      fd := fun s => ad.fd s.datagramAdapter
      direction := .pollIn
      callback := receiveDatagram ad
      interest := fun s => s.tcp.active
      cancel := .ok }
  | .dataIn => {
      fd := threadData
      direction := .pollIn
      callback := readPipe
      interest := fun s => s.tcp.active && !s.outboundShutdown &&
        decide (0 < s.tcp.remainingOutboundCapacity)
      cancel := fun s => .ok s.cancelReadPipe }
  | .dataOut => {
      fd := threadData
      direction := .pollOut
      callback := writePipe
      interest := fun s => !s.tcp.inboundStream.bufferEmpty ||
        ((s.tcp.inboundStream.eof || s.tcp.inboundStream.error) && !s.inboundShutdown)
      cancel := .ok }
  | .datagramOut => {
      fd := fun s => ad.fd s.datagramAdapter
      direction := .pollOut
      callback := sendDatagrams ad
      interest := fun s => !s.pending.isEmpty
      cancel := .ok }

end

/-- The rules in the order in which they are added. -/
def ruleNames : List RuleName := [.datagramIn, .dataIn, .dataOut, .datagramOut]

end TCPSpongeSocket

/-- A socket and the rules that its event loop still has. -/
structure Host (AdaptT Dout : Type) where
  rules : List TCPSpongeSocket.RuleName := TCPSpongeSocket.ruleNames
  socket : TCPSpongeSocket AdaptT Dout

namespace Host

open TCPSpongeSocket

variable {AdaptT Din Dout : Type}

/-- The socket behind `_initialize_TCP`. -/
def start (cfg : TCPConfig) (adapter : AdaptT) (fdNum : ℕ) : Host AdaptT Dout where
  socket := {
    tcp := TCPConnection.new cfg
    datagramAdapter := adapter
    threadData := { fdNum := fdNum } }

/-- What happens at a host: its owner connects, writes, ends its stream or reads, or the
thread goes once through `_tcp_loop`, which takes it `ms` milliseconds. -/
inductive Event (Din : Type) where
  | connect
  | ownerWrite (data : List UInt8)
  | ownerShutdown
  | ownerRead (len : ℕ)
  | loop (poll : EventLoop.PollAnswer) (answers : Answers Din) (ms : ℕ)

/-- One round of `_tcp_loop`. The clock is only read if the loop goes on. -/
def tcpLoop (ad : FdAdapter AdaptT Din Dout) (h : Host AdaptT Dout) (poll : EventLoop.PollAnswer)
    (answers : Answers Din) (ms : ℕ) : Except Failure (EventLoop.Result × Host AdaptT Dout) := do
  let (ret, rules, s) ← EventLoop.waitNextEvent (rule ad) h.rules h.socket poll answers
  if ret = .exit then return (ret, { rules := rules, socket := s })
  else if s.tcp.active then
    return (ret, { rules := rules, socket := { s with tcp := s.tcp.tick ms } })
  else return (ret, { rules := rules, socket := s })

/-- The owner does not write into a pipe that it has shut down. -/
def ownerWrite (s : TCPSpongeSocket AdaptT Dout) (data : List UInt8) :
    TCPSpongeSocket AdaptT Dout :=
  if s.outboundPipe.shut then s
  else { s with
    outboundPipe := { s.outboundPipe with content := s.outboundPipe.content ++ data }
    ownerWritten := s.ownerWritten ++ data }

def ownerRead (s : TCPSpongeSocket AdaptT Dout) (len : ℕ) : TCPSpongeSocket AdaptT Dout :=
  { s with
    inboundPipe := { s.inboundPipe with content := s.inboundPipe.content.drop len }
    ownerRead := s.ownerRead ++ s.inboundPipe.content.take len }

def step (ad : FdAdapter AdaptT Din Dout) (h : Host AdaptT Dout) :
    Event Din → Except Failure (Host AdaptT Dout)
  | .connect => .ok { h with socket := { h.socket with tcp := h.socket.tcp.connect } }
  | .ownerWrite data => .ok { h with socket := ownerWrite h.socket data }
  | .ownerShutdown => .ok { h with socket := { h.socket with
      outboundPipe := { h.socket.outboundPipe with shut := true } } }
  | .ownerRead len => .ok { h with socket := ownerRead h.socket len }
  | .loop poll answers ms => (h.tcpLoop ad poll answers ms).map Prod.snd

end Host

end NetworkLabs
