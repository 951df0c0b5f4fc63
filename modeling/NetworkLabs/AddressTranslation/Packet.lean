import Mathlib.Tactic.NormNum
import NetworkLabs.Library.LittleEndian
import NetworkLabs.Library.OnesComplement

/-!
# TCP packets in memory

The headers follow `ip.h` and `tcp.h`. Their fields hold what the machine reads
from memory, and this is the byte order of the network: `ntohs` and `ntohl`
give the value that is meant. The checksums follow `checksum.h`, `ip.h` and
`tcp.h` on a little-endian machine.

A packet is kept from its IP header on, since nothing reads the Ethernet
header. Its fields say where the TCP header is and that the total length is
covered by the memory behind the headers.
-/

namespace NetworkLabs

def ntohs (x : UInt16) : UInt16 := UInt16.ofNat (LittleEndian.swap 2 x.toNat)

def htons (x : UInt16) : UInt16 := ntohs x

def ntohl (x : UInt32) : UInt32 := UInt32.ofNat (LittleEndian.swap 4 x.toNat)

def htonl (x : UInt32) : UInt32 := ntohl x

@[simp] theorem htons_ntohs (x : UInt16) : htons (ntohs x) = x := by
  have hlt : LittleEndian.swap 2 x.toNat < 2 ^ 16 := LittleEndian.swap_lt 2 x.toNat
  rw [← UInt16.toNat_inj, htons, ntohs, ntohs, UInt16.toNat_ofNat', UInt16.toNat_ofNat',
    Nat.mod_eq_of_lt hlt, LittleEndian.swap_swap 2 x.toNat x.toNat_lt]
  exact Nat.mod_eq_of_lt x.toNat_lt

@[simp] theorem ntohs_htons (x : UInt16) : ntohs (htons x) = x := htons_ntohs x

@[simp] theorem htonl_ntohl (x : UInt32) : htonl (ntohl x) = x := by
  have hlt : LittleEndian.swap 4 x.toNat < 2 ^ 32 := LittleEndian.swap_lt 4 x.toNat
  rw [← UInt32.toNat_inj, htonl, ntohl, ntohl, UInt32.toNat_ofNat', UInt32.toNat_ofNat',
    Nat.mod_eq_of_lt hlt, LittleEndian.swap_swap 4 x.toNat x.toNat_lt]
  exact Nat.mod_eq_of_lt x.toNat_lt

@[simp] theorem ntohl_htonl (x : UInt32) : ntohl (htonl x) = x := htonl_ntohl x

/-! ## The checksum -/

/-- The loop over the 16-bit words of the buffer, and the odd byte at the
end. -/
def addWords : List UInt8 → UInt32 → UInt32
  | lo :: hi :: buf, sum => addWords buf (sum + UInt32.ofNat (LittleEndian.value [lo, hi]))
  | [last], sum => sum + last.toUInt32
  | [], sum => sum

/-- The loop that adds the carries; two rounds are always enough. -/
def addCarries : ℕ → UInt32 → UInt32
  | 0, sum => sum
  | rounds + 1, sum =>
      if sum >>> 16 ≠ 0 then addCarries rounds ((sum >>> 16) + (sum &&& 0xffff)) else sum

def checksum (buf : List UInt8) (sum : UInt32) : UInt16 :=
  ~~~(addCarries 2 (addWords buf sum)).toUInt16

theorem shiftRight_eq_zero_iff (sum : UInt32) : sum >>> 16 = 0 ↔ sum.toNat < 2 ^ 16 := by
  rw [← UInt32.toNat_inj, UInt32.toNat_shiftRight]
  change sum.toNat >>> 16 = 0 ↔ _
  rw [Nat.shiftRight_eq_div_pow]
  omega

/-- After two rounds no carry is left. -/
theorem addCarries_lt (sum : UInt32) : (addCarries 2 sum).toNat < 2 ^ 16 := by
  have hlt := sum.toNat_lt
  rw [addCarries]
  split_ifs with hfirst
  · have hone := OnesComplement.toNat_addCarry sum
    rw [addCarries]
    split_ifs with hsecond
    · rw [addCarries, OnesComplement.toNat_addCarry, hone]
      omega
    · exact (shiftRight_eq_zero_iff _).mp (not_not.mp hsecond)
  · exact (shiftRight_eq_zero_iff _).mp (not_not.mp hfirst)

/-! ## Headers and packets -/

structure Iphdr where
  ihl : BitVec 4
  version : BitVec 4
  tos : UInt8
  totLen : UInt16
  id : UInt16
  fragOff : UInt16
  ttl : UInt8
  protocol : UInt8
  checksum : UInt16
  saddr : UInt32
  daddr : UInt32
  deriving DecidableEq

namespace Iphdr

def hdrSize (ip : Iphdr) : ℕ := ip.ihl.toNat * 4

def bytes (ip : Iphdr) : List UInt8 :=
  UInt8.ofNat (ip.ihl.toNat + 16 * ip.version.toNat) :: ip.tos ::
    (LittleEndian.bytes 2 ip.totLen.toNat ++ LittleEndian.bytes 2 ip.id.toNat ++
      LittleEndian.bytes 2 ip.fragOff.toNat ++ [ip.ttl, ip.protocol] ++
      LittleEndian.bytes 2 ip.checksum.toNat ++ LittleEndian.bytes 4 ip.saddr.toNat ++
      LittleEndian.bytes 4 ip.daddr.toNat)

end Iphdr

structure Tcphdr where
  sport : UInt16
  dport : UInt16
  seq : UInt32
  ack : UInt32
  x2 : BitVec 4
  off : BitVec 4
  flags : UInt8
  rwnd : UInt16
  checksum : UInt16
  urp : UInt16
  deriving DecidableEq

def TCP_FIN : UInt8 := 0x01

def TCP_SYN : UInt8 := 0x02

def TCP_ACK : UInt8 := 0x10

def Tcphdr.bytes (tcp : Tcphdr) : List UInt8 :=
  LittleEndian.bytes 2 tcp.sport.toNat ++ LittleEndian.bytes 2 tcp.dport.toNat ++
    LittleEndian.bytes 4 tcp.seq.toNat ++ LittleEndian.bytes 4 tcp.ack.toNat ++
    [UInt8.ofNat (tcp.x2.toNat + 16 * tcp.off.toNat), tcp.flags] ++
    LittleEndian.bytes 2 tcp.rwnd.toNat ++ LittleEndian.bytes 2 tcp.checksum.toNat ++
    LittleEndian.bytes 2 tcp.urp.toNat

/-- A TCP packet: the two headers, the options of the IP header, and what lies
behind the TCP header. -/
structure Packet where
  ip : Iphdr
  options : List UInt8
  tcp : Tcphdr
  data : List UInt8
  options_length : ip.ihl.toNat * 4 = 20 + options.length
  le_totLen : ip.ihl.toNat * 4 + 20 ≤ (ntohs ip.totLen).toNat
  totLen_le : (ntohs ip.totLen).toNat ≤ ip.ihl.toNat * 4 + 20 + data.length

namespace Packet

def tcpChecksum (p : Packet) : UInt16 :=
  let tcpLen := ntohs p.ip.totLen - UInt16.ofNat p.ip.hdrSize
  let sum := p.ip.saddr + p.ip.daddr + (htons p.ip.protocol.toUInt16).toUInt32 +
    (htons tcpLen).toUInt32
  checksum ((({ p.tcp with checksum := 0 } : Tcphdr).bytes ++ p.data).take tcpLen.toNat) sum

def ipChecksum (p : Packet) : UInt16 :=
  checksum (({ p.ip with checksum := 0 } : Iphdr).bytes ++ p.options) 0

/-- The two checksums are calculated anew. -/
def updateChecksums (p : Packet) : Packet :=
  let p := { p with tcp := { p.tcp with checksum := p.tcpChecksum } }
  { p with ip := { p.ip with checksum := p.ipChecksum } }

/-- The sequence number behind the packet; the length is added modulo the
width. -/
def tcpSeqEnd (p : Packet) : UInt32 :=
  let len := (ntohs p.ip.totLen).toUInt32 - UInt32.ofNat p.ip.hdrSize -
    UInt32.ofNat (p.tcp.off.toNat * 4)
  ntohl p.tcp.seq + len + if p.tcp.flags &&& (TCP_SYN ||| TCP_FIN) ≠ 0 then 1 else 0

/-- A packet without options and data; addresses and ports are in host byte
order. -/
def bare (saddr : UInt32) (sport : UInt16) (daddr : UInt32) (dport : UInt16) (flags : UInt8) :
    Packet where
  ip := {
    ihl := 5, version := 4, tos := 0, totLen := htons 40, id := 0, fragOff := 0, ttl := 64
    protocol := 6, checksum := 0, saddr := htonl saddr, daddr := htonl daddr }
  options := []
  tcp := {
    sport := htons sport, dport := htons dport, seq := 0, ack := 0, x2 := 0, off := 5
    flags := flags, rwnd := 0, checksum := 0, urp := 0 }
  data := []
  options_length := rfl
  le_totLen := by
    change 40 ≤ (ntohs (htons 40)).toNat
    rw [ntohs_htons]
    decide
  totLen_le := by
    change (ntohs (htons 40)).toNat ≤ 40
    rw [ntohs_htons]
    decide

end Packet

end NetworkLabs
