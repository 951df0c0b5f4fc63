import NetworkLabs.Sponge.StreamReassembler
import NetworkLabs.Sponge.TCPSegment

/-!
# The TCP receiver

`TCPReceiver` follows `tcp_receiver.cc`. It takes the initial sequence number
of the peer from the first SYN, turns sequence numbers into stream indices
around a checkpoint, drops what lies outside its window, and pushes the rest
into the reassembler.
-/

namespace NetworkLabs

/-- The members of the class `TCPReceiver`. -/
structure TCPReceiver where
  reassembler : StreamReassembler
  capacity : ℕ
  isn : WrappingInt32
  synReceived : Bool
  checkpoint : ℕ
  deriving DecidableEq

namespace TCPReceiver

def new (capacity : ℕ) : TCPReceiver where
  reassembler := StreamReassembler.new capacity
  capacity := capacity
  isn := ⟨0⟩
  synReceived := false
  checkpoint := 0

def streamOut (r : TCPReceiver) : ByteStream := r.reassembler.output

/-- A `read` on the stream that `stream_out` hands out. -/
def read (r : TCPReceiver) (len : ℕ) : TCPReceiver × List UInt8 :=
  ({ r with reassembler := { r.reassembler with output := (r.streamOut.read len).1 } },
    (r.streamOut.read len).2)

def unassembledBytes (r : TCPReceiver) : ℕ := r.reassembler.unassembledBytes

/-- The position that `ackno` stands for. The SYN is not in the stream, and the
FIN counts once the input has ended. -/
def nextWrite (r : TCPReceiver) : ℕ :=
  if r.streamOut.inputEnded then r.streamOut.bytesWritten + 1 + 1
  else r.streamOut.bytesWritten + 1

def ackno (r : TCPReceiver) : Option WrappingInt32 :=
  if r.synReceived then some (wrap r.nextWrite r.isn) else none

def windowSize (r : TCPReceiver) : ℕ := r.streamOut.remainingCapacity

/-- The first lines of `segment_received`: the first SYN sets the initial
sequence number. -/
def noteSyn (r : TCPReceiver) (seg : TCPSegment) : TCPReceiver :=
  if seg.header.syn && !r.synReceived then
    { r with synReceived := true, isn := seg.header.seqno }
  else r

/-- The push of `segment_received`, for a segment inside the window. -/
def pushPayload (r : TCPReceiver) (seg : TCPSegment) (streamIndex : ℕ) : TCPReceiver :=
  let reassembler := r.reassembler.pushSubstring seg.payload streamIndex seg.header.fin
  { r with reassembler := reassembler, checkpoint := reassembler.output.bytesWritten }

def segmentReceived (r : TCPReceiver) (seg : TCPSegment) : TCPReceiver :=
  let r := r.noteSyn seg
  match r.ackno with
  | none => r
  | some ackno =>
      if r.streamOut.inputEnded then r
      else
        let streamIndex := unwrap seg.header.seqno r.isn r.checkpoint
        let absAckno := unwrap ackno r.isn r.checkpoint
        if sizeT (streamIndex + seg.lengthInSequenceSpace) ≤ absAckno ∨
            sizeT (absAckno + r.windowSize) ≤ streamIndex then r
        else if seg.header.syn then r.pushPayload seg streamIndex
        else r.pushPayload seg (sizeT (streamIndex - 1))

end TCPReceiver

end NetworkLabs
