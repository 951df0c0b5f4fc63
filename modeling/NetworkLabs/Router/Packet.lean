import NetworkLabs.AddressTranslation.Packet
import NetworkLabs.Ethernet

/-!
# Frames in the router

The IP header follows `ip.h`, which the router shares with the translator; the
checksum follows the `checksum.h` of the router. Addresses in the headers are in
the byte order of the network, those of interfaces and tables in the byte order
of the host.
-/

namespace NetworkLabs

namespace Router

def ETH_P_IP : UInt16 := 0x0800

def IPPROTO_ICMP : UInt8 := 1

def ICMP_ECHOREPLY : UInt8 := 0

def ICMP_DEST_UNREACH : UInt8 := 3

def ICMP_ECHOREQUEST : UInt8 := 8

def ICMP_TIME_EXCEEDED : UInt8 := 11

def ICMP_NET_UNREACH : UInt8 := 0

def ICMP_HOST_UNREACH : UInt8 := 1

def ICMP_EXC_TTL : UInt8 := 0

/-- The odd byte is added first, and the carries are added twice. -/
def checksum (buf : List UInt8) (sum : UInt32) : UInt16 :=
  let sum := if buf.length % 2 = 1 then sum + (buf.getLastD 0).toUInt32 else sum
  let sum := addWords (buf.take (buf.length / 2 * 2)) sum
  let sum := (sum >>> 16) + (sum &&& 0xffff)
  let sum := sum + (sum >>> 16)
  (~~~sum).toUInt16

/-- A frame that carries an IP packet: the Ethernet header, the IP header with
its options, and the data. -/
structure Frame where
  etherDhost : Mac
  etherShost : Mac
  etherType : UInt16
  ip : Iphdr
  options : List UInt8
  data : List UInt8
  options_length : ip.ihl.toNat * 4 = 20 + options.length

namespace Frame

def ipHeader (frame : Frame) : List UInt8 := frame.ip.bytes ++ frame.options

def ipChecksum (frame : Frame) : UInt16 :=
  checksum (({ frame.ip with checksum := 0 } : Iphdr).bytes ++ frame.options) 0

/-- The frame that is forwarded: one hop less to live, and a new checksum. -/
def decrementTtl (frame : Frame) : Frame :=
  let frame := { frame with ip := { frame.ip with ttl := frame.ip.ttl - 1 } }
  { frame with ip := { frame.ip with checksum := frame.ipChecksum } }

/-- A frame without options and data; the address is in host byte order. -/
def bare (etherDhost etherShost : Mac) (daddr : UInt32) : Frame where
  etherDhost := etherDhost
  etherShost := etherShost
  etherType := htons ETH_P_IP
  ip := {
    ihl := 5, version := 4, tos := 0, totLen := htons 20, id := 0, fragOff := 0, ttl := 64
    protocol := 17, checksum := 0, saddr := 0, daddr := htonl daddr }
  options := []
  data := []
  options_length := rfl

end Frame

/-- A packet in memory. The source tells packets apart by their addresses; here
each has a number of its own. -/
structure Packet where
  serial : ℕ
  frame : Frame

namespace Packet

def setDhost (packet : Packet) (mac : Mac) : Packet :=
  { packet with frame := { packet.frame with etherDhost := mac } }

end Packet

/-- The interfaces of the router, which are known by pointers. -/
structure Ifaces (ι : Type*) where
  mac : ι → Mac
  ip : ι → UInt32

/-- What the router gives to other parts of the program: frames to be sent on an
interface, requests of the address resolution, and packets that are to be
answered by an ICMP message of some type and code. -/
inductive Emission (ι : Type*) where
  | transmit (iface : ι) (packet : Packet)
  | arpRequest (iface : ι) (dstIp : UInt32)
  | icmp (packet : Packet) (type code : UInt8)

end Router

end NetworkLabs
