import Mathlib.Logic.Function.Basic
import NetworkLabs.AddressTranslation.Packet
import NetworkLabs.Library.FirstMatch

/-!
# The translation table

The table follows `nat.h` and `nat.c`. Addresses and ports in it are in the byte
order of the host. Mappings are found by the address of the remote host, whose
hash chooses a chain, and then by the internal or the external endpoint; the
first entry of the chain that fits is taken. The clock is read once by each call
to `do_translation`. A sweep of the source reads it again for every entry that is
not finished; here it stands still for the time of a sweep.

A mapping also records the direction of the packet it was created for, which
the source does not.
-/

namespace NetworkLabs

def NAT_PORT_MIN : UInt16 := 12345

def NAT_PORT_MAX : UInt16 := 23456

def TCP_ESTABLISHED_TIMEOUT : ℤ := 60

inductive PacketDir where
  | dirIn
  | dirOut
  | dirInvalid
  deriving DecidableEq

def hash8 (buf : List UInt8) : UInt8 := buf.foldl (fun result b => result ^^^ b) 0

structure NatConnection where
  internalFin : Bool := false
  externalFin : Bool := false
  internalSeqEnd : UInt32 := 0
  externalSeqEnd : UInt32 := 0
  internalAck : UInt32 := 0
  externalAck : UInt32 := 0
  deriving DecidableEq

/-- An entry of the table; `memset` clears what is not set. -/
structure NatMapping where
  internalIp : UInt32 := 0
  internalPort : UInt16 := 0
  externalIp : UInt32 := 0
  externalPort : UInt16 := 0
  updateTime : ℤ := 0
  conn : NatConnection := {}
  created : PacketDir
  deriving DecidableEq

structure DnatRule where
  externalIp : UInt32
  externalPort : UInt16
  internalIp : UInt32
  internalPort : UInt16
  deriving DecidableEq

/-- What is read of an interface. -/
structure IfaceInfo where
  ip : UInt32

structure NatTable where
  natMappingList : UInt8 → List NatMapping
  externalIface : IfaceInfo
  assignedPorts : UInt16 → Bool
  rules : List DnatRule

namespace NatMapping

def isInternal (m : NatMapping) (ip : UInt32) (port : UInt16) : Bool :=
  m.internalIp == ip && m.internalPort == port

def isExternal (m : NatMapping) (ip : UInt32) (port : UInt16) : Bool :=
  m.externalIp == ip && m.externalPort == port

/-- The statistics of the connection after a packet from outside. -/
def noteInbound (m : NatMapping) (tcp : Tcphdr) (now : ℤ) : NatMapping :=
  { m with
    conn := { m.conn with
      externalFin := tcp.flags == TCP_FIN
      externalSeqEnd := tcp.seq
      externalAck := if tcp.flags = TCP_ACK then tcp.ack else m.conn.externalAck }
    updateTime := now }

/-- The statistics of the connection after a packet from inside. -/
def noteOutbound (m : NatMapping) (tcp : Tcphdr) (now : ℤ) : NatMapping :=
  { m with
    conn := { m.conn with
      internalFin := tcp.flags == TCP_FIN
      internalSeqEnd := tcp.seq
      internalAck := if tcp.flags = TCP_ACK then tcp.ack else m.conn.internalAck }
    updateTime := now }

end NatMapping

namespace Packet

/-- A packet from outside goes to the internal endpoint of its mapping. -/
def translateInbound (p : Packet) (m : NatMapping) : Packet :=
  let p := { p with
    tcp := { p.tcp with dport := htons m.internalPort }
    ip := { p.ip with daddr := htonl m.internalIp } }
  p.updateChecksums

/-- A packet from inside comes from the external endpoint of its mapping. -/
def translateOutbound (p : Packet) (m : NatMapping) : Packet :=
  let p := { p with
    tcp := { p.tcp with sport := htons m.externalPort }
    ip := { p.ip with saddr := htonl m.externalIp } }
  p.updateChecksums

end Packet

namespace NatTable

/-- The loop over the ports, with the rounds that are left before
`NAT_PORT_MAX`. -/
def assignLoop (assigned : UInt16 → Bool) : ℕ → UInt16 → (UInt16 → Bool) × UInt16
  | 0, i => (assigned, i)
  | rounds + 1, i =>
      if !assigned i then (Function.update assigned i true, i)
      else assignLoop assigned rounds (i + 1)

/-- The pool and the port that a new mapping gets. -/
def assignPort (assigned : UInt16 → Bool) : (UInt16 → Bool) × UInt16 :=
  assignLoop assigned (NAT_PORT_MAX - NAT_PORT_MIN).toNat NAT_PORT_MIN

/-- The chain of a remote host. -/
def hashI (address : UInt32) : UInt8 := hash8 (LittleEndian.bytes 4 address.toNat)

/-- The branch of `do_translation` for packets from outside. -/
def translateIn (nat : NatTable) (p : Packet) (now : ℤ) : NatTable × Packet :=
  let i := hashI (ntohl p.ip.saddr)
  let head := nat.natMappingList i
  let fits := fun m : NatMapping => m.isExternal (ntohl p.ip.daddr) (ntohs p.tcp.dport)
  let fresh : NatMapping := {
    externalIp := ntohl p.ip.daddr
    externalPort := ntohs p.tcp.dport
    created := .dirIn }
  ({ nat with
      natMappingList := Function.update nat.natMappingList i
        (FirstMatch.upsert fits (fun m => m.noteInbound p.tcp now) fresh head) },
    p.translateInbound (FirstMatch.entry fits fresh head))

/-- The branch of `do_translation` for packets from inside. -/
def translateOut (nat : NatTable) (p : Packet) (now : ℤ) : NatTable × Packet :=
  let i := hashI (ntohl p.ip.daddr)
  let head := nat.natMappingList i
  let fits := fun m : NatMapping => m.isInternal (ntohl p.ip.saddr) (ntohs p.tcp.sport)
  let fresh : NatMapping := {
    internalIp := ntohl p.ip.saddr
    internalPort := ntohs p.tcp.sport
    externalIp := nat.externalIface.ip
    externalPort := (assignPort nat.assignedPorts).2
    created := .dirOut }
  ({ nat with
      natMappingList := Function.update nat.natMappingList i
        (FirstMatch.upsert fits (fun m => m.noteOutbound p.tcp now) fresh head)
      assignedPorts :=
        if head.any fits then nat.assignedPorts else (assignPort nat.assignedPorts).1 },
    p.translateOutbound (FirstMatch.entry fits fresh head))

/-- The table afterwards, and the packet that is sent. -/
def doTranslation (nat : NatTable) (p : Packet) (dir : PacketDir) (now : ℤ) :
    NatTable × Packet :=
  if dir = .dirIn then nat.translateIn p now else nat.translateOut p now

def isFlowFinished (conn : NatConnection) : Bool :=
  (conn.internalFin && conn.externalFin) &&
    decide (conn.externalSeqEnd ≤ conn.internalAck) &&
    decide (conn.internalSeqEnd ≤ conn.externalAck)

/-- The test of the sweep: the flow is finished, or has been silent for too
long. -/
def isExpired (now : ℤ) (m : NatMapping) : Bool :=
  isFlowFinished m.conn || decide (TCP_ESTABLISHED_TIMEOUT < now - m.updateTime)

/-- One round of the loop over a chain, with the entries kept so far. -/
def timeoutEntry (now : ℤ) (st : (UInt16 → Bool) × List NatMapping) (m : NatMapping) :
    (UInt16 → Bool) × List NatMapping :=
  if isExpired now m then (Function.update st.1 m.externalPort false, st.2)
  else (st.1, st.2 ++ [m])

def timeoutChain (now : ℤ) (nat : NatTable) (i : UInt8) : NatTable :=
  let st := (nat.natMappingList i).foldl (timeoutEntry now) (nat.assignedPorts, [])
  { nat with
    natMappingList := Function.update nat.natMappingList i st.2
    assignedPorts := st.1 }

/-- The chains in the order of the loop. -/
def chains : List UInt8 := (List.range 256).map UInt8.ofNat

/-- One sweep of the timeout thread. -/
def natTimeout (nat : NatTable) (now : ℤ) : NatTable := chains.foldl (timeoutChain now) nat

/-- The lines of `parse_config` that install a rule. -/
def installRule (nat : NatTable) (rule : DnatRule) : NatTable :=
  { nat with
    rules := nat.rules ++ [rule]
    assignedPorts := Function.update nat.assignedPorts rule.externalPort true }

/-- The table after `nat_init`, for a configuration with these rules. -/
def natInit (externalIface : IfaceInfo) (rules : List DnatRule) : NatTable :=
  rules.foldl installRule {
    natMappingList := fun _ => []
    externalIface := externalIface
    assignedPorts := fun _ => false
    rules := [] }

/-! ## Runs -/

inductive Event where
  | packet (p : Packet) (dir : PacketDir) (now : ℤ)
  | timeout (now : ℤ)

def step (nat : NatTable) : Event → NatTable
  | .packet p dir now => (nat.doTranslation p dir now).1
  | .timeout now => nat.natTimeout now

def run (nat : NatTable) (events : List Event) : NatTable := events.foldl step nat

end NatTable

end NetworkLabs
