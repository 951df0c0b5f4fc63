import NetworkLabs.Router.ArpCache

/-!
# Forwarding

The routing table follows `rtable.h`, the handling of packets `ip.c`,
`ip_base.c` and `arp.c`. ICMP messages are emitted and not followed further.
-/

namespace NetworkLabs

namespace Router

variable {ι : Type*}

structure RtEntry (ι : Type*) where
  dest : UInt32
  mask : UInt32
  gw : UInt32
  iface : ι

def RtEntry.matches (rt : RtEntry ι) (dst : UInt32) : Bool :=
  rt.dest &&& rt.mask == dst &&& rt.mask

/-- One round of the loop over the table, with the longest mask so far and its
entry. -/
def matchRound (dst : UInt32) (st : UInt32 × Option (RtEntry ι)) (rt : RtEntry ι) :
    UInt32 × Option (RtEntry ι) :=
  if rt.mask > st.1 && rt.matches dst then (rt.mask, some rt) else st

def longestPrefixMatch (rtable : List (RtEntry ι)) (dst : UInt32) : Option (RtEntry ι) :=
  (rtable.foldl (matchRound dst) (0, none)).2

variable [DecidableEq ι]

/-- The frame gets the address of the interface, and is sent or left pending. -/
def ifaceSendPacketByArp (ifaces : Ifaces ι) (cache : ArpCache ι) (iface : ι) (dstIp : UInt32)
    (packet : Packet) (now : ℤ) : ArpCache ι × List (Emission ι) :=
  let packet := { packet with
    frame := { packet.frame with
      etherShost := ifaces.mac iface
      etherType := htons ETH_P_IP } }
  match cache.lookup dstIp with
  | some dstMac => (cache, [.transmit iface (packet.setDhost dstMac)])
  | none => cache.appendPacket iface dstIp packet now

/-- The packet is a request to the interface on which it has arrived. -/
def isEchoRequest (ifaces : Ifaces ι) (iface : ι) (frame : Frame) : Bool :=
  frame.ip.protocol == IPPROTO_ICMP && frame.data.head? == some ICMP_ECHOREQUEST &&
    ntohl frame.ip.daddr == ifaces.ip iface

def handleIpPacket (ifaces : Ifaces ι) (rtable : List (RtEntry ι)) (cache : ArpCache ι)
    (iface : ι) (packet : Packet) (now : ℤ) : ArpCache ι × List (Emission ι) :=
  if isEchoRequest ifaces iface packet.frame then (cache, [.icmp packet ICMP_ECHOREPLY 0])
  else
    match longestPrefixMatch rtable (ntohl packet.frame.ip.daddr) with
    | none => (cache, [.icmp packet ICMP_DEST_UNREACH ICMP_NET_UNREACH])
    | some rtDest =>
        if packet.frame.ip.ttl ≤ 1 then (cache, [.icmp packet ICMP_TIME_EXCEEDED ICMP_EXC_TTL])
        else
          let packet := { packet with frame := packet.frame.decrementTtl }
          if rtDest.gw = 0 then (cache, [.transmit rtDest.iface packet])
          else ifaceSendPacketByArp ifaces cache rtDest.iface rtDest.gw packet now

end Router

end NetworkLabs
