import NetworkLabs.Library.Halting
import NetworkLabs.Router.Forwarding
import NetworkLabs.Router.Icmp

/-!
# The lock of the ARP cache

Every operation on the cache takes the lock first. The lock is not recursive: a
thread that holds it and takes it again waits for itself. Here the calls are
followed through `arp.c`, `ip_base.c` and `icmp.c` down to the cache, with the
lock as a flag. A call starts while its thread does not hold the lock; if another
thread holds it then the call waits, and goes on as if it had started later.

The sweep keeps the lock while it answers the packets that it gives up. An answer
that goes through a gateway looks the gateway up in the cache.
-/

namespace NetworkLabs

namespace Router

/-- Why a call does not come to its end: the thread waits for itself, or it looks
at a route that is missing. -/
inductive Halt where
  | relocked
  | missingRoute
  deriving DecidableEq

/-- The fields of an ARP packet that are not constant. -/
structure EtherArp where
  arpOp : UInt16
  arpSha : Mac
  arpSpa : UInt32
  arpTha : Mac
  arpTpa : UInt32

def ARPOP_REQUEST : UInt16 := 1

def ARPOP_REPLY : UInt16 := 2

/-- The lock as its thread sees it, the cache, and what has been sent; answers to
requests of other hosts are kept apart. -/
structure Thread (ι : Type*) where
  held : Bool
  cache : ArpCache ι
  emitted : List (Emission ι)
  replies : List (ι × EtherArp)

variable {ι : Type*}

namespace Thread

def lock (s : Thread ι) : Except Halt (Thread ι) :=
  if s.held then .error .relocked else .ok { s with held := true }

def unlock (s : Thread ι) : Thread ι := { s with held := false }

def emit (s : Thread ι) (emissions : List (Emission ι)) : Thread ι :=
  { s with emitted := s.emitted ++ emissions }

/-! ## `arpcache.c` -/

def arpcacheLookup (s : Thread ι) (ip4 : UInt32) : Except Halt (Thread ι × Option Mac) := do
  let s ← s.lock
  return (s.unlock, s.cache.lookup ip4)

/-- A request is sent after the lock is released. -/
def arpcacheAppendPacket [DecidableEq ι] (s : Thread ι) (iface : ι) (ip4 : UInt32)
    (packet : Packet) (now : ℤ) : Except Halt (Thread ι) := do
  let s ← s.lock
  let result := s.cache.appendPacket iface ip4 packet now
  let s := { s with cache := result.1 }
  return s.unlock.emit result.2

def arpcacheInsert (s : Thread ι) (ip4 : UInt32) (mac : Mac) (now later : ℤ) :
    Except Halt (Thread ι) := do
  let s ← s.lock
  let result := s.cache.insert ip4 mac now later
  let s := { s with cache := result.1 }
  return (s.emit result.2).unlock

/-! ## `arp.c` -/

variable (ifaces : Ifaces ι) (rtable : List (RtEntry ι)) (fresh : Packet → Fresh)

def arpSendReply (s : Thread ι) (iface : ι) (reqHdr : EtherArp) : Thread ι :=
  { s with replies := s.replies ++ [(iface, {
      arpOp := htons ARPOP_REPLY
      arpSha := ifaces.mac iface
      arpSpa := htonl (ifaces.ip iface)
      arpTha := reqHdr.arpSha
      arpTpa := reqHdr.arpSpa })] }

def handleArpPacket (s : Thread ι) (iface : ι) (arpPkt : EtherArp) (now later : ℤ) :
    Except Halt (Thread ι) :=
  if ntohl arpPkt.arpTpa = ifaces.ip iface then
    if ntohs arpPkt.arpOp = ARPOP_REPLY then
      s.arpcacheInsert (ntohl arpPkt.arpSpa) arpPkt.arpSha now later
    else if ntohs arpPkt.arpOp = ARPOP_REQUEST then .ok (s.arpSendReply ifaces iface arpPkt)
    else .ok s
  else .ok s

variable [DecidableEq ι]

def ifaceSendPacketByArp (s : Thread ι) (iface : ι) (dstIp : UInt32) (packet : Packet) (now : ℤ) :
    Except Halt (Thread ι) := do
  let packet := { packet with
    frame := { packet.frame with
      etherShost := ifaces.mac iface
      etherType := htons ETH_P_IP } }
  let found ← s.arpcacheLookup dstIp
  match found.2 with
  | some dstMac => return found.1.emit [.transmit iface (packet.setDhost dstMac)]
  | none => found.1.arpcacheAppendPacket iface dstIp packet now

/-! ## `ip_base.c` and `icmp.c` -/

def ipSendPacket (s : Thread ι) (packet : Packet) (now : ℤ) : Except Halt (Thread ι) :=
  match longestPrefixMatch rtable (ntohl packet.frame.ip.daddr) with
  | none => .error .missingRoute
  | some rtDest =>
      if rtDest.gw ≠ 0 then s.ifaceSendPacketByArp ifaces rtDest.iface rtDest.gw packet now
      else .ok (s.emit [.transmit rtDest.iface packet])

/-- The message has the address of the interface on which the route to the source
of the packet leaves. -/
def icmpSendPacket (s : Thread ι) (inPkt : Packet) (type code : UInt8) (now : ℤ) :
    Except Halt (Thread ι) :=
  match longestPrefixMatch rtable (ntohl inPkt.frame.ip.saddr) with
  | none => .error .missingRoute
  | some rtEntry =>
      s.ipSendPacket ifaces rtable {
        serial := (fresh inPkt).serial
        frame := icmpFrame (fresh inPkt) (ifaces.ip rtEntry.iface) inPkt.frame type code } now

/-! ## `ip.c` -/

def handleIpPacket (s : Thread ι) (iface : ι) (packet : Packet) (now : ℤ) :
    Except Halt (Thread ι) :=
  if isEchoRequest ifaces iface packet.frame then
    s.icmpSendPacket ifaces rtable fresh packet ICMP_ECHOREPLY 0 now
  else
    match longestPrefixMatch rtable (ntohl packet.frame.ip.daddr) with
    | none =>
        s.icmpSendPacket ifaces rtable fresh packet ICMP_DEST_UNREACH ICMP_NET_UNREACH now
    | some rtDest =>
        if packet.frame.ip.ttl ≤ 1 then
          s.icmpSendPacket ifaces rtable fresh packet ICMP_TIME_EXCEEDED ICMP_EXC_TTL now
        else
          let packet := { packet with frame := packet.frame.decrementTtl }
          if rtDest.gw = 0 then .ok (s.emit [.transmit rtDest.iface packet])
          else s.ifaceSendPacketByArp ifaces rtDest.iface rtDest.gw packet now

/-! ## The sweep -/

/-- One round of the loop over the requests, with the requests that are kept so
far. -/
def sweepRound (now : ℤ) (st : Thread ι × List (ArpReq ι)) (req : ArpReq ι) :
    Except Halt (Thread ι × List (ArpReq ι)) :=
  if req.retries > ARP_REQUEST_MAX_RETRIES then do
    let s ← req.cachedPackets.foldlM (fun s packet =>
      s.icmpSendPacket ifaces rtable fresh packet ICMP_DEST_UNREACH ICMP_HOST_UNREACH now) st.1
    return (s, st.2)
  else if now - req.sent > 1 then
    return (st.1.emit [.arpRequest req.iface req.ip4],
      st.2 ++ [{ req with retries := req.retries + 1, sent := now }])
  else return (st.1, st.2 ++ [req])

def arpcacheSweep (s : Thread ι) (now : ℤ) : Except Halt (Thread ι) := do
  let s ← s.lock
  let s := { s with cache := { s.cache with
    entries := fun i => sweepEntry now (s.cache.entries i) } }
  -- The list is stored at the end: nothing reads it before, since every way there takes the lock.
  let st ← s.cache.reqList.foldlM (sweepRound ifaces rtable fresh now) (s, [])
  let s := { st.1 with cache := { st.1.cache with reqList := st.2 } }
  return s.unlock

end Thread

/-- The calls that a thread makes. -/
inductive LockCall (ι : Type*) where
  | sweep (now : ℤ)
  | insert (ip4 : UInt32) (mac : Mac) (now later : ℤ)
  | appendPacket (iface : ι) (ip4 : UInt32) (packet : Packet) (now : ℤ)
  | handleArpPacket (iface : ι) (arpPkt : EtherArp) (now later : ℤ)
  | handleIpPacket (iface : ι) (packet : Packet) (now : ℤ)

namespace Thread

variable [DecidableEq ι] (ifaces : Ifaces ι) (rtable : List (RtEntry ι)) (fresh : Packet → Fresh)

def perform (s : Thread ι) : LockCall ι → Except Halt (Thread ι)
  | .sweep now => s.arpcacheSweep ifaces rtable fresh now
  | .insert ip4 mac now later => s.arpcacheInsert ip4 mac now later
  | .appendPacket iface ip4 packet now => s.arpcacheAppendPacket iface ip4 packet now
  | .handleArpPacket iface arpPkt now later => s.handleArpPacket ifaces iface arpPkt now later
  | .handleIpPacket iface packet now => s.handleIpPacket ifaces rtable fresh iface packet now

end Thread

end Router

end NetworkLabs
