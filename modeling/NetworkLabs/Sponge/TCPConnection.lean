import NetworkLabs.Sponge.TCPReceiver
import NetworkLabs.Sponge.TCPSender

/-!
# The TCP connection

`TCPConnection` follows `tcp_connection.cc`. It joins a sender and a receiver:
an incoming segment is handled according to one of eight states that are read
off the two, and every outgoing segment is stamped with the acknowledgment and
the window of the receiver. The queue `segments_out` is kept as the list of all
segments ever put into it; nothing in the connection reads it.
-/

namespace NetworkLabs

/-- The members of the class `TCPConnection`. -/
structure TCPConnection where
  cfg : TCPConfig
  receiver : TCPReceiver
  sender : TCPSender
  segmentsOut : List TCPSegment
  lingerAfterStreamsFinish : Bool
  timeSinceLastSegmentReceived : ℕ
  active : Bool
  deriving DecidableEq

namespace TCPConnection

def new (cfg : TCPConfig) : TCPConnection where
  cfg := cfg
  receiver := TCPReceiver.new cfg.recvCapacity
  sender := TCPSender.new cfg.sendCapacity cfg.rtTimeout cfg.isn
  segmentsOut := []
  lingerAfterStreamsFinish := true
  timeSinceLastSegmentReceived := 0
  active := true

def inboundStream (c : TCPConnection) : ByteStream := c.receiver.streamOut

/-- The header that a segment leaves with: acknowledgment and window are set as
soon as the receiver has an acknowledgment to give. -/
def stamp (r : TCPReceiver) (seg : TCPSegment) : TCPSegment :=
  match r.ackno with
  | none => seg
  | some ackno =>
      { seg with header := { seg.header with
          ack := true
          ackno := ackno
          win := UInt16.ofNat r.windowSize } }

/-- The second half of `_send_data`: the end of the connection. -/
def closeIfFinished (c : TCPConnection) : TCPConnection :=
  if c.receiver.streamOut.inputEnded then
    if !c.sender.stream.eof then { c with lingerAfterStreamsFinish := false }
    else if c.sender.bytesInFlight = 0 then
      if !c.lingerAfterStreamsFinish ||
          decide (10 * c.cfg.rtTimeout.toNat ≤ c.timeSinceLastSegmentReceived) then
        { c with active := false }
      else c
    else c
  else c

def sendData (c : TCPConnection) : TCPConnection :=
  closeIfFinished { c with
    segmentsOut := c.segmentsOut ++ c.sender.segmentsOut.map (stamp c.receiver)
    sender := { c.sender with segmentsOut := [] } }

/-- Both streams are marked as erroneous, and the connection ends. -/
def abort (c : TCPConnection) : TCPConnection :=
  { c with
    receiver := { c.receiver with
      reassembler := { c.receiver.reassembler with output := c.receiver.streamOut.setError } }
    sender := { c.sender with stream := c.sender.stream.setError }
    active := false }

def rstSegment : TCPSegment := { header := { rst := true } }

def resetConnection (c : TCPConnection) : TCPConnection :=
  abort { c with segmentsOut := c.segmentsOut ++ [rstSegment] }

/-- The call `_sender.ack_received` with the fields of an incoming segment. -/
def ackReceived (c : TCPConnection) (seg : TCPSegment) : TCPConnection :=
  { c with sender := c.sender.ackReceived seg.header.ackno seg.header.win }

/-- The call `_receiver.segment_received`. -/
def receive (c : TCPConnection) (seg : TCPSegment) : TCPConnection :=
  { c with receiver := c.receiver.segmentReceived seg }

def sendEmptySegment (c : TCPConnection) : TCPConnection :=
  { c with sender := c.sender.sendEmptySegment }

def fillWindow (c : TCPConnection) : TCPConnection :=
  { c with sender := c.sender.fillWindow }

def connect (c : TCPConnection) : TCPConnection := c.fillWindow.sendData

/-- The branches of `segment_received` behind the test for RST. -/
def dispatch (c : TCPConnection) (seg : TCPSegment) : TCPConnection :=
  -- CLOSED and LISTEN
  if c.sender.nextSeqnoAbsolute = 0 then
    if seg.header.syn then (c.receive seg).connect else c
  -- SYN-SENT
  else if c.sender.nextSeqnoAbsolute = c.sender.bytesInFlight ∧
      c.receiver.ackno.isSome = false then
    if seg.header.syn && seg.header.ack then
      ((c.ackReceived seg).receive seg).sendEmptySegment.sendData
    else if seg.header.syn && !seg.header.ack then
      (c.receive seg).sendEmptySegment.sendData
    else c
  -- SYN-REVD
  else if c.sender.nextSeqnoAbsolute = c.sender.bytesInFlight ∧
      c.receiver.ackno.isSome = true ∧ c.receiver.streamOut.inputEnded = false then
    (c.ackReceived seg).receive seg
  -- ESTABLISHED
  else if c.sender.bytesInFlight < c.sender.nextSeqnoAbsolute ∧
      c.sender.stream.eof = false then
    let c := (c.ackReceived seg).receive seg
    let c := if 0 < seg.lengthInSequenceSpace then c.sendEmptySegment else c
    c.fillWindow.sendData
  -- FIN-WAIT-1
  else if c.sender.nextSeqnoAbsolute = c.sender.stream.bytesWritten + 2 ∧
      0 < c.sender.bytesInFlight ∧ c.sender.stream.eof = true ∧
      c.receiver.streamOut.inputEnded = false then
    if seg.header.fin then ((c.ackReceived seg).receive seg).sendEmptySegment.sendData
    else if seg.header.ack then ((c.ackReceived seg).receive seg).sendData
    else c
  -- FIN-WAIT-2
  else if c.sender.nextSeqnoAbsolute = c.sender.stream.bytesWritten + 2 ∧
      c.sender.bytesInFlight = 0 ∧ c.sender.stream.eof = true ∧
      c.receiver.streamOut.inputEnded = false then
    ((c.ackReceived seg).receive seg).sendEmptySegment.sendData
  -- TIME-WAIT
  else if c.sender.nextSeqnoAbsolute = c.sender.stream.bytesWritten + 2 ∧
      c.sender.bytesInFlight = 0 ∧ c.sender.stream.eof = true ∧
      c.receiver.streamOut.inputEnded = true then
    if seg.header.fin then ((c.ackReceived seg).receive seg).sendEmptySegment.sendData
    else c
  -- every other state
  else ((c.ackReceived seg).receive seg).fillWindow.sendData

def segmentReceived (c : TCPConnection) (seg : TCPSegment) : TCPConnection :=
  if !c.active then c
  else
    let c := { c with timeSinceLastSegmentReceived := 0 }
    if seg.header.rst then c.abort else c.dispatch seg

def write (c : TCPConnection) (data : List UInt8) : TCPConnection × ℕ :=
  if data = [] then (c, 0)
  else
    (({ c with sender := { c.sender with
        stream := (c.sender.stream.write data).1 } } : TCPConnection).fillWindow.sendData,
      (c.sender.stream.write data).2)

def tick (c : TCPConnection) (ms : ℕ) : TCPConnection :=
  if !c.active then c
  else
    let c := { c with
      timeSinceLastSegmentReceived := sizeT (c.timeSinceLastSegmentReceived + ms)
      sender := c.sender.tick ms }
    if TCPConfig.MAX_RETX_ATTEMPTS < c.sender.consecutiveRetransmissions then c.resetConnection
    else c.sendData

def endInputStream (c : TCPConnection) : TCPConnection :=
  ({ c with sender := { c.sender with
      stream := c.sender.stream.endInput } } : TCPConnection).fillWindow.sendData

/-- A `read` on the stream that `inbound_stream` hands out. -/
def read (c : TCPConnection) (len : ℕ) : TCPConnection × List UInt8 :=
  ({ c with receiver := (c.receiver.read len).1 }, (c.receiver.read len).2)

/-! ## The owner of a connection -/

/-- What the owner of a connection and the network can do with it. -/
inductive Action where
  | connect
  | write (data : List UInt8)
  | endInputStream
  | read (len : ℕ)
  | tick (ms : ℕ)
  | segmentReceived (seg : TCPSegment)

def step (c : TCPConnection) : Action → TCPConnection
  | .connect => c.connect
  | .write data => (c.write data).1
  | .endInputStream => c.endInputStream
  | .read len => (c.read len).1
  | .tick ms => c.tick ms
  | .segmentReceived seg => c.segmentReceived seg

def run (cfg : TCPConfig) (actions : List Action) : TCPConnection :=
  actions.foldl step (new cfg)

end TCPConnection

end NetworkLabs
