import NetworkLabs.Router.Packet

/-!
# ICMP messages

The messages follow `icmp.c`, their IP header `ip_base.c`. A message is built in
memory that `malloc` returns, and what this memory holds before is not all
written over. What else the program leaves open about a message is the
identification in its IP header, and what lies behind a packet that is too
short to be quoted.
-/

namespace NetworkLabs

namespace Router

def ICMP_HDR_SIZE : ℕ := 8

def ICMP_COPIED_DATA_LEN : ℕ := 8

def IP_DF : UInt16 := 0x4000

def DEFAULT_TTL : UInt8 := 64

/-- What the program leaves open about a message: its number, its
identification, the memory for it from the ICMP header on, and the memory behind
the packet that is answered. -/
structure Fresh where
  serial : ℕ
  ipId : UInt16
  memory : ℕ → UInt8
  behind : ℕ → UInt8

/-- The bytes of a buffer from some place on are written over. -/
def store (buf : List UInt8) (i : ℕ) (bytes : List UInt8) : List UInt8 :=
  buf.take i ++ bytes ++ buf.drop (i + bytes.length)

/-- Addresses are in the byte order of the host. -/
def ipInitHdr (saddr daddr : UInt32) (len : UInt16) (proto : UInt8) (id : UInt16) : Iphdr :=
  let ip : Iphdr := {
    ihl := 5, version := 4, tos := 0, totLen := htons len, id := id, fragOff := htons IP_DF
    ttl := DEFAULT_TTL, protocol := proto, checksum := 0, saddr := htonl saddr
    daddr := htonl daddr }
  { ip with checksum := checksum ip.bytes 0 }

/-- The length of a message from the ICMP header on: that of the packet in an
echo reply, and otherwise two ICMP headers and the IP header that is quoted. -/
def icmpLength (inPkt : Frame) (type : UInt8) : ℕ :=
  if type = ICMP_ECHOREPLY then inPkt.ip.hdrSize + inPkt.data.length - 20
  else ICMP_HDR_SIZE + inPkt.ip.hdrSize + ICMP_COPIED_DATA_LEN

/-- A message from the ICMP header on. An echo reply is the request from its ICMP
header on; other messages quote the packet. -/
def icmpData (fresh : Fresh) (inPkt : Frame) (type code : UInt8) : List UInt8 :=
  let buf := (List.range (icmpLength inPkt type)).map fresh.memory
  let buf := store buf 0 [type, code]
  let buf :=
    if type = ICMP_ECHOREPLY then store buf 0 inPkt.data
    else
      let buf := store buf ICMP_HDR_SIZE (List.replicate ICMP_COPIED_DATA_LEN 0)
      let copied := inPkt.data ++ (List.range ICMP_COPIED_DATA_LEN).map fresh.behind
      store buf ICMP_HDR_SIZE (inPkt.ipHeader ++ copied.take ICMP_COPIED_DATA_LEN)
  store buf 2 (LittleEndian.bytes 2 (checksum (store buf 2 [0, 0]) 0).toNat)

/-- The message that answers a packet; the Ethernet addresses are copied. -/
def icmpFrame (fresh : Fresh) (ifaceIp : UInt32) (inPkt : Frame) (type code : UInt8) : Frame where
  etherDhost := inPkt.etherDhost
  etherShost := inPkt.etherShost
  etherType := htons ETH_P_IP
  ip := ipInitHdr ifaceIp (ntohl inPkt.ip.saddr) (UInt16.ofNat (20 + icmpLength inPkt type)) 1
    fresh.ipId
  options := []
  data := icmpData fresh inPkt type code
  options_length := rfl

/-- A message goes to the source of the packet. -/
theorem daddr_icmpFrame (fresh : Fresh) (ifaceIp : UInt32) (inPkt : Frame) (type code : UInt8) :
    ntohl (icmpFrame fresh ifaceIp inPkt type code).ip.daddr = ntohl inPkt.ip.saddr :=
  ntohl_htonl _

end Router

end NetworkLabs
