import NetworkLabs.AddressTranslation.Unsolicited
import NetworkLabs.Router.Locking

/-!
# Sending what has been translated

The translator sends a packet as the router sends its own messages, by
`ip_send_packet`. So it looks up a route twice: that to the source tells the
direction, and that to the destination, after the translation, tells the
interface.
-/

namespace NetworkLabs

namespace Router

/-- What is around an IP packet in memory. -/
structure Envelope where
  serial : ℕ
  etherDhost : Mac
  etherShost : Mac
  etherType : UInt16

/-- The packet with its TCP header as the first of its data. -/
def Envelope.seal (envelope : Envelope) (p : NetworkLabs.Packet) : Packet where
  serial := envelope.serial
  frame := {
    etherDhost := envelope.etherDhost
    etherShost := envelope.etherShost
    etherType := envelope.etherType
    ip := p.ip
    options := p.options
    data := p.tcp.bytes ++ p.data
    options_length := p.options_length }

/-- A packet as the translator takes it. One that is long enough is seen with a
TCP header, whatever its protocol; one of another protocol may be of any
length. -/
inductive Datagram where
  | tcp (envelope : Envelope) (p : NetworkLabs.Packet)
  | other (packet : Packet) (protocol_ne : packet.frame.ip.protocol ≠ IPPROTO_TCP)

variable {ι : Type*} [DecidableEq ι]

/-- A packet of another protocol is dropped once its direction is known. -/
def Thread.natTranslatePacket (ifaces : Ifaces ι) (rtable : List (RtEntry ι))
    (fresh : Packet → Fresh) (internalIface : ι) (s : Thread ι) (nat : NatTable) (iface : ι)
    (now : ℤ) : Datagram → Except Halt (Thread ι × NatTable)
  | .tcp envelope p =>
      match nat.natTranslatePacket rtable internalIface iface p now with
      | (_, .missingRoute) => .error .missingRoute
      | (nat, .icmp type code) => do
          let s ← s.icmpSendPacket ifaces rtable fresh (envelope.seal p) type code now
          return (s, nat)
      | (nat, .dropped) => .ok (s, nat)
      | (nat, .sent out) => do
          let s ← s.ipSendPacket ifaces rtable (envelope.seal out) now
          return (s, nat)
  | .other packet _ =>
      match longestPrefixMatch rtable (ntohl packet.frame.ip.saddr) with
      | none => .error .missingRoute
      | some _ => .ok (s, nat)

/-! ## The destination after the translation -/

end Router

namespace NatTable

/-- A packet from inside keeps its destination. One from outside goes to the host
of the first mapping that fits, and to 0.0.0.0 if there is none. -/
def destination (nat : NatTable) (p : Packet) (outbound : Prop) [Decidable outbound] : UInt32 :=
  if outbound then ntohl p.ip.daddr else ((nat.inboundMapping p).map NatMapping.internalIp).getD 0

theorem daddr_doTranslation (nat : NatTable) (p : Packet) (outbound : Prop) [Decidable outbound]
    (now : ℤ) :
    ntohl (nat.doTranslation p (if outbound then .dirOut else .dirIn) now).2.ip.daddr =
      nat.destination p outbound := by
  rw [destination]
  split_ifs with hout
  · rfl
  · have htranslate : (nat.doTranslation p .dirIn now).2 =
        p.translateInbound (FirstMatch.entry (isDestination p) (newInbound p)
          (nat.natMappingList (hashI (ntohl p.ip.saddr)))) := rfl
    rw [htranslate, FirstMatch.entry, inboundMapping]
    change ntohl (htonl _) = _
    rw [ntohl_htonl]
    cases (nat.natMappingList (hashI (ntohl p.ip.saddr))).find? (isDestination p) with
    | none => rfl
    | some m => rfl

/-- The outcome of a translation, by the route to the source. -/
theorem natTranslatePacket_of_route {ι : Type*} [DecidableEq ι] (rtable : List (Router.RtEntry ι))
    (internalIface : ι) (nat : NatTable) (iface : ι) (p : Packet) (now : ℤ)
    {rt : Router.RtEntry ι}
    (hroute : Router.longestPrefixMatch rtable (ntohl p.ip.saddr) = some rt) :
    nat.natTranslatePacket rtable internalIface iface p now =
      let dir := if rt.iface = internalIface then PacketDir.dirOut else .dirIn
      if p.ip.protocol ≠ IPPROTO_TCP then (nat, .dropped)
      else ((nat.doTranslation p dir now).1, .sent (nat.doTranslation p dir now).2) := by
  rw [natTranslatePacket, getPacketDirection, hroute]
  by_cases hiface : rt.iface = internalIface
  · simp [hiface]
  · simp [hiface]

end NatTable

end NetworkLabs
