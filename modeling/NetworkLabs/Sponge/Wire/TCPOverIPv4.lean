import NetworkLabs.Sponge.Wire.IPv4Datagram
import NetworkLabs.Sponge.Wire.TCPSegment

/-!
# TCP in IP

The adapter puts a segment into a datagram between its two addresses, with the
ports of its configuration, and takes a segment out of a datagram that is meant for
it. A listening adapter takes the addresses of the first SYN for its own. What one
adapter has wrapped another one with the two addresses exchanged unwraps, and only
the ports and the checksum are new.
-/

namespace NetworkLabs

/-- An IPv4 address in the byte order of the host, and a port. -/
structure Address where
  ipv4Numeric : UInt32
  port : UInt16
  deriving DecidableEq

/-- The textual form of addresses: `inet_ntoa` of an address in the byte order of the
host, and the lookup of a numeric host. -/
structure AddressText where
  inetNtoa : UInt32 → String
  getaddrinfo : String → Option UInt32

def Address.ofText (text : AddressText) (ip : String) (port : UInt16) : Except String Address :=
  match text.getaddrinfo ip with
  | some ipv4Numeric => .ok ⟨ipv4Numeric, port⟩
  | none => .error ("getaddrinfo(" ++ ip ++ ", " ++ toString port.toNat ++ ")")

structure FdAdapterConfig where
  source : Address
  destination : Address
  deriving DecidableEq

structure TCPOverIPv4Adapter where
  config : FdAdapterConfig
  listening : Bool := false
  deriving DecidableEq

namespace TCPOverIPv4Adapter

def setPorts (a : TCPOverIPv4Adapter) (seg : TCPSegment) : TCPSegment :=
  { seg with header := { seg.header with
    sport := a.config.source.port, dport := a.config.destination.port } }

/-- The datagram, and the segment with its ports. -/
def wrapTcpInIp (a : TCPOverIPv4Adapter) (seg : TCPSegment) :
    Except String (IPv4Datagram × TCPSegment) := do
  let seg := a.setPorts seg
  let header : IPv4Header := {
    src := a.config.source.ipv4Numeric, dst := a.config.destination.ipv4Numeric }
  let len := header.hlen.toNat * 4 + seg.header.doff.toNat * 4 + seg.payload.length
  let header := { header with len := UInt16.ofNat len }
  let payload ← seg.serialize header.pseudoCksum
  return ({ header := header, payload := payload }, seg)

/-- A listening adapter takes over the addresses of a SYN. -/
def accept (text : AddressText) (a : TCPOverIPv4Adapter) (ipDgram : IPv4Datagram)
    (tcpSeg : TCPSegment) : Except String TCPOverIPv4Adapter := do
  let source ← Address.ofText text (text.inetNtoa ipDgram.header.dst) a.config.source.port
  let destination ← Address.ofText text (text.inetNtoa ipDgram.header.src) tcpSeg.header.sport
  return { config := { source := source, destination := destination }, listening := false }

def unwrapTcpInIp (text : AddressText) (a : TCPOverIPv4Adapter) (ipDgram : IPv4Datagram) :
    Except String (Option TCPSegment × TCPOverIPv4Adapter) :=
  if !a.listening && ipDgram.header.dst != a.config.source.ipv4Numeric then .ok (none, a)
  else if !a.listening && ipDgram.header.src != a.config.destination.ipv4Numeric then
    .ok (none, a)
  else if ipDgram.header.proto ≠ IPv4Header.PROTO_TCP then .ok (none, a)
  else do
    let buffer ← ipDgram.payload.toBuffer
    let (result, tcpSeg) := TCPSegment.parse {} buffer ipDgram.header.pseudoCksum
    if result ≠ .noError then return (none, a)
    else if tcpSeg.header.dport ≠ a.config.source.port then return (none, a)
    else if a.listening && !(tcpSeg.header.syn && !tcpSeg.header.rst) then return (none, a)
    else
      let a ← if a.listening then a.accept text ipDgram tcpSeg else pure a
      if tcpSeg.header.sport ≠ a.config.destination.port then return (none, a)
      else return (some tcpSeg, a)

/-! ## What is wrapped is unwrapped -/

/-- The datagram brings `seg` from the source of `a` to its destination. -/
structure Brings (a : TCPOverIPv4Adapter) (seg : TCPSegment) (ipDgram : IPv4Datagram) : Prop where
  src_eq : ipDgram.header.src = a.config.source.ipv4Numeric
  dst_eq : ipDgram.header.dst = a.config.destination.ipv4Numeric
  proto_eq : ipDgram.header.proto = IPv4Header.PROTO_TCP
  payload : ∃ buffer, ipDgram.payload = [buffer] ∧
    TCPSegment.parse {} buffer ipDgram.header.pseudoCksum = (.noError, seg)

section

variable {a b : TCPOverIPv4Adapter} {seg : TCPSegment} {ipDgram : IPv4Datagram}

/-- What is sent arrives in one piece, whatever the datagram was before. -/
theorem exists_brings (a : TCPOverIPv4Adapter) (hdoff : 5 ≤ seg.header.doff)
    (hle : seg.header.doff ≤ 15)
    (hlength : 20 + 4 * seg.header.doff.toNat + seg.payload.length ≤ 65535) :
    ∃ ipDgram out cksum, a.wrapTcpInIp seg = .ok (ipDgram, a.setPorts seg) ∧
      ipDgram.serialize = .ok out ∧ ∀ old : IPv4Datagram, ∃ arrived,
        old.parse out.concatenate = (.noError, arrived) ∧
        a.Brings { a.setPorts seg with
          header := (a.setPorts seg).header.setCksum cksum } arrived := by
  obtain ⟨header, hheader⟩ : ∃ header : IPv4Header, header = {
    src := a.config.source.ipv4Numeric
    dst := a.config.destination.ipv4Numeric
    len := UInt16.ofNat (5 * 4 + seg.header.doff.toNat * 4 + seg.payload.length) } := ⟨_, rfl⟩
  have hlen : header.len.toNat = 4 * header.hlen.toNat +
      (4 * seg.header.doff.toNat + seg.payload.length) := by
    rw [hheader, UInt16.toNat_ofNat']
    change _ = 4 * 5 + _
    omega
  have hpseudo := header.toNat_pseudoCksum_lt
  obtain ⟨payload, cksum, hpayload, hsize, hparse⟩ :=
    (a.setPorts seg).exists_parse_serialize header.pseudoCksum hdoff hle (by
      change _ + 65280 * (4 * seg.header.doff.toNat + seg.payload.length) < _
      omega)
  have hwritable : header.Writable := by
    rw [hheader]
    exact ⟨rfl, le_rfl, Nat.le_add_left 5 10, Nat.two_pow_pos 13⟩
  obtain ⟨out, cksum', hout, harrive⟩ := IPv4Datagram.exists_parse_serialize
    (d := { header := header, payload := payload }) hwritable (by
      rw [hsize]
      exact hlen)
  refine ⟨{ header := header, payload := payload }, out, cksum, ?_, hout, ?_⟩
  · have hwrapped : (a.setPorts seg).serialize header.pseudoCksum >>= (fun payload =>
        .ok ({ header := header, payload := payload }, a.setPorts seg)) =
        Except.ok (({ header := header, payload := payload } : IPv4Datagram), a.setPorts seg) := by
      rw [hpayload]
      rfl
    rw [hheader] at hwrapped ⊢
    exact hwrapped
  · intro old
    refine ⟨_, harrive old, ?_⟩
    exact {
      src_eq := by rw [hheader]; rfl
      dst_eq := by rw [hheader]; rfl
      proto_eq := by rw [hheader]; rfl
      payload := ⟨_, rfl, hparse {}⟩ }

/-- An adapter with the two addresses exchanged takes the segment. -/
theorem Brings.unwrap (h : a.Brings seg ipDgram) (text : AddressText)
    (hlistening : b.listening = false) (hsource : b.config.source = a.config.destination)
    (hdestination : b.config.destination = a.config.source)
    (hsport : seg.header.sport = a.config.source.port)
    (hdport : seg.header.dport = a.config.destination.port) :
    b.unwrapTcpInIp text ipDgram = .ok (some seg, b) := by
  obtain ⟨buffer, hpayload, hparse⟩ := h.payload
  have hbuffer : ipDgram.payload.toBuffer = .ok buffer := by
    rw [hpayload]
    rfl
  rw [unwrapTcpInIp, hbuffer]
  simp only [hlistening, h.src_eq, h.dst_eq, h.proto_eq, hsource, hdestination, bne_self_eq_false,
    Bool.and_false, Bool.false_eq_true, if_false, ne_eq, not_true_eq_false, Bool.false_and,
    bind, Except.bind, hparse, hsport, hdport, pure, Except.pure]

end

/-- The round trip of a segment through a datagram: with the addresses and ports
exchanged on the other side only the ports and the checksum are new. -/
theorem unwrapTcpInIp_wrapTcpInIp (text : AddressText) (a b : TCPOverIPv4Adapter) (seg : TCPSegment)
    (hdoff : 5 ≤ seg.header.doff) (hle : seg.header.doff ≤ 15)
    (hlength : 20 + 4 * seg.header.doff.toNat + seg.payload.length ≤ 65535)
    (hlistening : b.listening = false) (hsource : b.config.source = a.config.destination)
    (hdestination : b.config.destination = a.config.source) (old : IPv4Datagram) :
    ∃ ipDgram sent out arrived cksum, a.wrapTcpInIp seg = .ok (ipDgram, sent) ∧
      ipDgram.serialize = .ok out ∧ old.parse out.concatenate = (.noError, arrived) ∧
      b.unwrapTcpInIp text arrived = .ok (some {
        header := { seg.header with
          sport := a.config.source.port, dport := a.config.destination.port, cksum := cksum }
        payload := seg.payload }, b) := by
  obtain ⟨ipDgram, out, cksum, hwrap, hout, harrive⟩ := exists_brings a hdoff hle hlength
  obtain ⟨arrived, hparse, hbrings⟩ := harrive old
  exact ⟨ipDgram, a.setPorts seg, out, arrived, cksum, hwrap, hout, hparse,
    hbrings.unwrap text hlistening hsource hdestination rfl rfl⟩

/-- The names of two hosts. -/
def twoHosts : AddressText where
  inetNtoa ip := if ip = 0x0a000001 then "10.0.0.1" else "10.0.0.2"
  getaddrinfo host :=
    if host = "10.0.0.1" then some 0x0a000001
    else if host = "10.0.0.2" then some 0x0a000002
    else none

def client : TCPOverIPv4Adapter where
  config := { source := ⟨0x0a000001, 1000⟩, destination := ⟨0x0a000002, 80⟩ }

def server : TCPOverIPv4Adapter where
  config := { source := ⟨0x0a000002, 80⟩, destination := ⟨0x0a000001, 1000⟩ }

/-- A SYN with options and data. -/
theorem unwrapTcpInIp_wrapTcpInIp_options :
    ∃ ipDgram sent out arrived cksum,
      client.wrapTcpInIp { header := { doff := 6, syn := true }, payload := [1, 2, 3] } =
        .ok (ipDgram, sent) ∧
      ipDgram.serialize = .ok out ∧
      IPv4Datagram.parse {} out.concatenate = (.noError, arrived) ∧
      server.unwrapTcpInIp twoHosts arrived = .ok (some {
        header := { sport := 1000, dport := 80, doff := 6, syn := true, cksum := cksum }
        payload := [1, 2, 3] }, server) :=
  unwrapTcpInIp_wrapTcpInIp twoHosts client server
    { header := { doff := 6, syn := true }, payload := [1, 2, 3] } (by decide) (by decide)
    (by decide) rfl rfl rfl {}

end TCPOverIPv4Adapter

end NetworkLabs
