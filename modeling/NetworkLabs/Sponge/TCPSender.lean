import NetworkLabs.Library.SortedMap
import NetworkLabs.Sponge.TCPSegment

/-!
# The TCP sender

`TCPSender` follows `tcp_sender.cc`. It cuts the outgoing stream into segments
as far as the window of the peer reaches, keeps every segment under the
position behind its last sequence number until it is acknowledged, and sends
the oldest one again when the timer expires.

The counters of type `uint64_t` are natural numbers: they count sequence
numbers, and the cursors of the stream leave the range of `int` long before
`2 ^ 64` of them. The elapsed time is stored in a `size_t`, the timeout in 32
bits, and the window sizes in 16.
-/

namespace NetworkLabs

/-- The members of the class `TCPSender`. -/
structure TCPSender where
  isn : WrappingInt32
  segmentsOut : List TCPSegment
  initialRetransmissionTimeout : UInt32
  stream : ByteStream
  nextSeqnoAbsolute : ℕ
  segmentsCache : SortedMap TCPSegment
  defaultInitialRetransmissionTimeout : UInt32
  windowsSize : UInt16
  peerWindowsSize : UInt16
  bytesInFlight : ℕ
  time : ℕ
  retxTimes : UInt8
  deriving DecidableEq

namespace TCPSender

def new (capacity : ℕ) (retxTimeout : UInt16) (fixedIsn : WrappingInt32) : TCPSender where
  isn := fixedIsn
  segmentsOut := []
  initialRetransmissionTimeout := retxTimeout.toUInt32
  stream := ByteStream.new capacity
  nextSeqnoAbsolute := 0
  segmentsCache := SortedMap.empty
  defaultInitialRetransmissionTimeout := retxTimeout.toUInt32
  windowsSize := 1
  peerWindowsSize := 1
  bytesInFlight := 0
  time := 0
  retxTimes := 0

def streamIn (s : TCPSender) : ByteStream := s.stream

def nextSeqno (s : TCPSender) : WrappingInt32 := wrap s.nextSeqnoAbsolute s.isn

def consecutiveRetransmissions (s : TCPSender) : ℕ := s.retxTimes.toNat

def cacheSegment (s : TCPSender) (ackno : ℕ) (seg : TCPSegment) : TCPSender :=
  { s with segmentsCache := s.segmentsCache.insert ackno seg }

/-- The lines that the three phases of `fill_window` share: the segment is
queued, counted, and cached under the position behind it. -/
def transmit (s : TCPSender) (seg : TCPSegment) : TCPSender :=
  let s := { s with
    segmentsOut := s.segmentsOut ++ [seg]
    nextSeqnoAbsolute := s.nextSeqnoAbsolute + seg.lengthInSequenceSpace
    bytesInFlight := s.bytesInFlight + seg.lengthInSequenceSpace }
  s.cacheSegment s.nextSeqnoAbsolute seg

/-- The window that `fill_window` works with; an advertised `0` counts as
`1`. -/
def window (s : TCPSender) : ℕ :=
  if s.peerWindowsSize ≠ 0 then s.peerWindowsSize.toNat else 1

/-- The FIN is due: the stream is at its end and the FIN was not sent. -/
def finDue (s : TCPSender) : Bool :=
  s.stream.eof && decide (s.nextSeqnoAbsolute < s.stream.bytesWritten + 2)

def synSegment (s : TCPSender) : TCPSegment := { header := { seqno := s.isn, syn := true } }

def finSegment (s : TCPSender) : TCPSegment :=
  { header := { seqno := s.nextSeqno, fin := true } }

/-- The first phase of `fill_window`. -/
def fillSyn (s : TCPSender) : TCPSender :=
  if s.nextSeqnoAbsolute = 0 then s.transmit s.synSegment else s

/-- The segment of one round of the loop; it takes the FIN along when the
payload leaves room in the window. -/
def dataSegment (s : TCPSender) (payload : List UInt8) (remsz : ℕ) : TCPSegment where
  header := {
    seqno := s.nextSeqno
    fin := s.finDue && decide (1 ≤ remsz - payload.length) }
  payload := payload

/-- The loop of the second phase. Every round sends at least one byte of what
remains of the window, so `fuel` rounds suffice when `fuel` exceeds `remsz`. -/
def fillLoop : ℕ → ℕ → TCPSender → TCPSender
  | 0, _, s => s
  | fuel + 1, remsz, s =>
      let readStream := (s.stream.read (min TCPConfig.MAX_PAYLOAD_SIZE remsz)).2
      let s := { s with stream := (s.stream.read (min TCPConfig.MAX_PAYLOAD_SIZE remsz)).1 }
      if readStream = [] then s
      else
        let seg := s.dataSegment readStream remsz
        fillLoop fuel (remsz - seg.lengthInSequenceSpace) (s.transmit seg)

/-- The third phase of `fill_window`. -/
def fillFin (s : TCPSender) : TCPSender :=
  if s.finDue then
    if s.window ≤ s.bytesInFlight then s
    else
      let seg := s.finSegment
      { s.transmit seg with
        windowsSize := s.windowsSize - UInt16.ofNat seg.lengthInSequenceSpace }
  else s

/-- The second and the third phase of `fill_window`; the second one returns
early when the window is overrun. -/
def fillData (s : TCPSender) : TCPSender :=
  if !s.stream.eof && decide (s.bytesInFlight < s.nextSeqnoAbsolute) then
    if s.window < s.bytesInFlight then s
    else
      let remsz := s.window - s.bytesInFlight
      (fillLoop (remsz + 1) remsz s).fillFin
  else s.fillFin

def fillWindow (s : TCPSender) : TCPSender := s.fillSyn.fillData

/-- The keys that `ack_received` erases: the segment under such a key ends at or
in front of the acknowledged position. -/
def acknosPop (s : TCPSender) (ackno : WrappingInt32) : List ℕ :=
  s.segmentsCache.keys.filter fun k => k ≤ unwrap ackno s.isn k

/-- The distance from the acknowledged number up to the next one to be sent. -/
def nBytes (s : TCPSender) (ackno : WrappingInt32) : ℤ := (s.nextSeqno.sub ackno).toInt

/-- The lines of `ack_received` that follow the test for a number beyond the
next one: acknowledged segments are erased, and the window is taken over. -/
def popAcked (s : TCPSender) (ackno : WrappingInt32) (windowSize : UInt16) : TCPSender :=
  { s with
    segmentsCache := s.segmentsCache.eraseAll (s.acknosPop ackno)
    windowsSize :=
      if s.peerWindowsSize < windowSize then s.windowsSize + (windowSize - s.peerWindowsSize)
      else s.windowsSize
    peerWindowsSize := windowSize }

/-- The lines for an acknowledgment of something new. -/
def restart (s : TCPSender) (nBytes : ℤ) (windowSize : UInt16) : TCPSender :=
  { s with
    windowsSize := max windowSize 1
    bytesInFlight := nBytes.toNat
    time := 0
    retxTimes := 0
    initialRetransmissionTimeout := s.defaultInitialRetransmissionTimeout }

def ackReceived (s : TCPSender) (ackno : WrappingInt32) (windowSize : UInt16) : TCPSender :=
  if s.nBytes ackno < 0 then s
  else if s.acknosPop ackno = [] then s.popAcked ackno windowSize
  else ((s.popAcked ackno windowSize).restart (s.nBytes ackno) windowSize).fillWindow

def tick (s : TCPSender) (ms : ℕ) : TCPSender :=
  match s.segmentsCache.entries with
  | [] => s
  | oldest :: _ =>
      let time := sizeT (s.time + ms)
      if s.initialRetransmissionTimeout.toNat ≤ time ∧
          s.retxTimes.toNat ≤ TCPConfig.MAX_RETX_ATTEMPTS then
        { s with
          segmentsOut := s.segmentsOut ++ [oldest.2]
          time := 0
          initialRetransmissionTimeout :=
            if s.peerWindowsSize ≠ 0 then s.initialRetransmissionTimeout * 2
            else s.initialRetransmissionTimeout
          retxTimes := if s.peerWindowsSize ≠ 0 then s.retxTimes + 1 else s.retxTimes }
      else { s with time := time }

def emptySegment (s : TCPSender) : TCPSegment := { header := { seqno := s.nextSeqno } }

def sendEmptySegment (s : TCPSender) : TCPSender :=
  { s with segmentsOut := s.segmentsOut ++ [s.emptySegment] }

/-! ## The owner of a sender -/

/-- What the owner of a sender can do with it. -/
inductive Action where
  | write (data : List UInt8)
  | endInput
  | fillWindow
  | ackReceived (ackno : WrappingInt32) (windowSize : UInt16)
  | tick (ms : ℕ)
  | sendEmptySegment

/-- A sender together with the bytes that its stream accepted. -/
structure Session where
  sender : TCPSender
  accepted : List UInt8

namespace Session

def start (capacity : ℕ) (retxTimeout : UInt16) (isn : WrappingInt32) : Session :=
  ⟨TCPSender.new capacity retxTimeout isn, []⟩

def step (s : Session) : Action → Session
  | .write data =>
      { sender := { s.sender with stream := (s.sender.stream.write data).1 }
        accepted := s.accepted ++ data.take (s.sender.stream.write data).2 }
  | .endInput =>
      { s with sender := { s.sender with stream := s.sender.stream.endInput } }
  | .fillWindow => { s with sender := s.sender.fillWindow }
  | .ackReceived ackno windowSize =>
      { s with sender := s.sender.ackReceived ackno windowSize }
  | .tick ms => { s with sender := s.sender.tick ms }
  | .sendEmptySegment => { s with sender := s.sender.sendEmptySegment }

/-- The session after a list of actions. Nobody takes segments from the queue,
so `segmentsOut` lists all that were ever pushed. -/
def run (capacity : ℕ) (retxTimeout : UInt16) (isn : WrappingInt32)
    (actions : List Action) : Session :=
  actions.foldl step (start capacity retxTimeout isn)

end Session

end TCPSender

end NetworkLabs
