import NetworkLabs.Sponge.WrappingIntegers

/-!
# Segments

A TCP segment is a header and a payload. The defaults of the header are those
of `tcp_header.hh`, so a segment is written by naming the fields it sets. The
constants of `TCPConfig` stand here as well.
-/

namespace NetworkLabs

/-- The fields of a TCP header; options are not supported. -/
structure TCPHeader where
  sport : UInt16 := 0
  dport : UInt16 := 0
  seqno : WrappingInt32 := ⟨0⟩
  ackno : WrappingInt32 := ⟨0⟩
  doff : UInt8 := 5
  urg : Bool := false
  ack : Bool := false
  psh : Bool := false
  rst : Bool := false
  syn : Bool := false
  fin : Bool := false
  win : UInt16 := 0
  cksum : UInt16 := 0
  uptr : UInt16 := 0
  deriving DecidableEq

structure TCPSegment where
  header : TCPHeader := {}
  payload : List UInt8 := []
  deriving DecidableEq

namespace TCPSegment

/-- The sequence numbers a segment occupies: its payload, and one each for SYN
and FIN. -/
def lengthInSequenceSpace (seg : TCPSegment) : ℕ :=
  seg.payload.length + (if seg.header.syn then 1 else 0) + (if seg.header.fin then 1 else 0)

theorem length_payload_le (seg : TCPSegment) :
    seg.payload.length ≤ seg.lengthInSequenceSpace := by
  rw [lengthInSequenceSpace]
  omega

end TCPSegment

namespace TCPConfig

def MAX_PAYLOAD_SIZE : ℕ := 1452

def MAX_RETX_ATTEMPTS : ℕ := 8

def DEFAULT_CAPACITY : ℕ := 64000

def TIMEOUT_DFLT : UInt16 := 1000

end TCPConfig

/-- The configuration of one endpoint. A missing `fixed_isn` is drawn at random
by the constructor of the sender, so the number is a field here. -/
structure TCPConfig where
  rtTimeout : UInt16 := TCPConfig.TIMEOUT_DFLT
  recvCapacity : ℕ := TCPConfig.DEFAULT_CAPACITY
  sendCapacity : ℕ := TCPConfig.DEFAULT_CAPACITY
  isn : WrappingInt32
  deriving DecidableEq

end NetworkLabs
