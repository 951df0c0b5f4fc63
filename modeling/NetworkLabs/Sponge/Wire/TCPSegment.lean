import NetworkLabs.Sponge.TCPSegment
import NetworkLabs.Sponge.Wire.InternetChecksum

/-!
# Segments on the wire

The header is written field by field and padded with zeros up to the length that
`doff` says; the reader skips what lies behind the fields it knows. A segment is
summed up twice, with a cleared checksum by its sender, and as it is by its
receiver.
-/

namespace NetworkLabs

namespace TCPHeader

def LENGTH : ℕ := 20

def setCksum (h : TCPHeader) (cksum : UInt16) : TCPHeader := { h with cksum := cksum }

/-- The byte of the flags. -/
def flB (h : TCPHeader) : UInt8 :=
  (if h.urg then 0b100000 else 0) ||| (if h.ack then 0b10000 else 0) |||
    (if h.psh then 0b1000 else 0) ||| (if h.rst then 0b100 else 0) |||
    (if h.syn then 0b10 else 0) ||| (if h.fin then 0b1 else 0)

def serialize (h : TCPHeader) : Except String (List UInt8) :=
  if h.doff < 5 then .error "TCP header too short"
  else
    let ret := NetUnparser.u16 [] h.sport
    let ret := NetUnparser.u16 ret h.dport
    let ret := NetUnparser.u32 ret h.seqno.rawValue
    let ret := NetUnparser.u32 ret h.ackno.rawValue
    let ret := NetUnparser.u8 ret (h.doff <<< 4)
    let ret := NetUnparser.u8 ret h.flB
    let ret := NetUnparser.u16 ret h.win
    let ret := NetUnparser.u16 ret h.cksum
    let ret := NetUnparser.u16 ret h.uptr
    .ok (NetUnparser.resize ret (4 * h.doff.toNat))

/-- The result, the header, and what the parser has left. -/
def parse (p : NetParser) : ParseResult × TCPHeader × NetParser :=
  let (sport, p) := p.u16
  let (dport, p) := p.u16
  let (seqno, p) := p.u32
  let (ackno, p) := p.u32
  let (offset, p) := p.u8
  let (flB, p) := p.u8
  let (win, p) := p.u16
  let (cksum, p) := p.u16
  let (uptr, p) := p.u16
  let h : TCPHeader := {
    sport := sport
    dport := dport
    seqno := ⟨seqno⟩
    ackno := ⟨ackno⟩
    doff := offset >>> 4
    urg := flB &&& 0b100000 != 0
    ack := flB &&& 0b10000 != 0
    psh := flB &&& 0b1000 != 0
    rst := flB &&& 0b100 != 0
    syn := flB &&& 0b10 != 0
    fin := flB &&& 0b1 != 0
    win := win
    cksum := cksum
    uptr := uptr }
  if h.doff < 5 then (.headerTooShort, h, p)
  else
    let p := p.removePrefix (h.doff.toNat * 4 - LENGTH)
    if p.error then (p.getError, h, p) else (.noError, h, p)

/-! ## The round trip of a header -/

/-- The bytes in front of the checksum. -/
def front (h : TCPHeader) : List UInt8 :=
  BigEndian.bytes 2 h.sport.toNat ++ BigEndian.bytes 2 h.dport.toNat ++
    BigEndian.bytes 4 h.seqno.rawValue.toNat ++ BigEndian.bytes 4 h.ackno.rawValue.toNat ++
    BigEndian.bytes 1 (h.doff <<< 4).toNat ++ BigEndian.bytes 1 h.flB.toNat ++
    BigEndian.bytes 2 h.win.toNat

/-- The bytes behind the checksum. -/
def back (h : TCPHeader) : List UInt8 :=
  BigEndian.bytes 2 h.uptr.toNat ++ List.replicate (4 * h.doff.toNat - LENGTH) 0

@[simp] theorem length_front (h : TCPHeader) : h.front.length = 16 := by
  simp [front]

theorem length_back (h : TCPHeader) (hdoff : 5 ≤ h.doff) :
    h.back.length = 4 * h.doff.toNat - 18 := by
  have hle : 5 ≤ h.doff.toNat := hdoff
  rw [back, List.length_append, BigEndian.length_bytes, List.length_replicate, LENGTH]
  omega

theorem serialize_eq {h : TCPHeader} (hdoff : 5 ≤ h.doff) :
    h.serialize = .ok (h.front ++ BigEndian.bytes 2 h.cksum.toNat ++ h.back) := by
  have hle : 5 ≤ h.doff.toNat := hdoff
  have hfields : (h.front ++ BigEndian.bytes 2 h.cksum.toNat ++
      BigEndian.bytes 2 h.uptr.toNat).length = LENGTH := by
    rw [List.length_append, List.length_append, length_front, BigEndian.length_bytes,
      BigEndian.length_bytes]
    rfl
  have hresize := NetUnparser.resize_of_le (n := 4 * h.doff.toNat) (hfields.trans_le (by
    rw [LENGTH]
    omega))
  rw [hfields] at hresize
  rw [serialize, if_neg (UInt8.not_lt.mpr hdoff)]
  simp only [NetUnparser.u8_eq, NetUnparser.u16_eq, NetUnparser.u32_eq, List.nil_append]
  rw [← front, hresize, back, List.append_assoc]

@[simp] theorem setCksum_setCksum (h : TCPHeader) (cksum cksum' : UInt16) :
    (h.setCksum cksum).setCksum cksum' = h.setCksum cksum' := rfl

theorem serialize_setCksum {h : TCPHeader} (hdoff : 5 ≤ h.doff) (cksum : UInt16) :
    (h.setCksum cksum).serialize =
      .ok (h.front ++ BigEndian.bytes 2 cksum.toNat ++ h.back) :=
  serialize_eq (h := h.setCksum cksum) hdoff

theorem shiftLeft_shiftRight {doff : UInt8} (h : doff ≤ 15) : (doff <<< 4) >>> 4 = doff := by
  have hle : doff.toNat ≤ 15 := h
  rw [← UInt8.toNat_inj, UInt8.toNat_shiftRight, UInt8.toNat_shiftLeft]
  change (doff.toNat <<< 4 % 2 ^ 8) >>> 4 = doff.toNat
  rw [Nat.shiftLeft_eq, Nat.shiftRight_eq_div_pow]
  omega

/-- Every flag has a bit of its own. -/
theorem flags_flB (h : TCPHeader) :
    (h.flB &&& 0b100000 != 0) = h.urg ∧ (h.flB &&& 0b10000 != 0) = h.ack ∧
      (h.flB &&& 0b1000 != 0) = h.psh ∧ (h.flB &&& 0b100 != 0) = h.rst ∧
      (h.flB &&& 0b10 != 0) = h.syn ∧ (h.flB &&& 0b1 != 0) = h.fin := by
  rw [flB]
  generalize h.urg = urg, h.ack = ack, h.psh = psh, h.rst = rst, h.syn = syn, h.fin = fin
  revert urg ack psh rst syn fin
  decide

theorem parse_bytes {h : TCPHeader} (hdoff : 5 ≤ h.doff) (hle : h.doff ≤ 15) (rest : Buffer) :
    parse ⟨h.front ++ BigEndian.bytes 2 h.cksum.toNat ++ h.back ++ rest, .noError⟩ =
      (.noError, h, ⟨rest, .noError⟩) := by
  obtain ⟨hurg, hack, hpsh, hrst, hsyn, hfin⟩ := h.flags_flB
  have hpad : (List.replicate (4 * h.doff.toNat - LENGTH) (0 : UInt8)).length =
      h.doff.toNat * 4 - LENGTH := by
    rw [List.length_replicate, mul_comm]
  rw [parse, front, back]
  simp only [List.append_assoc, NetParser.u16_append, NetParser.u32_append, NetParser.u8_append]
  simp only [shiftLeft_shiftRight hle, if_neg (UInt8.not_lt.mpr hdoff),
    NetParser.removePrefix_append hpad, NetParser.error_mk, Bool.false_eq_true, if_false, hurg,
    hack, hpsh, hrst, hsyn, hfin]

end TCPHeader

namespace TCPSegment

def serialize (seg : TCPSegment) (datagramLayerChecksum : UInt32) :
    Except String BufferList := do
  let headerOut := seg.header.setCksum 0
  let header ← headerOut.serialize
  let check : InternetChecksum := { sum := datagramLayerChecksum }
  let check := check.add header
  let check := check.add seg.payload
  let headerOut := headerOut.setCksum check.value
  let header ← headerOut.serialize
  return [header, seg.payload]

/-- The segment keeps its old contents if the checksum is bad. The result of the
header is not looked at. -/
def parse (seg : TCPSegment) (buffer : Buffer) (datagramLayerChecksum : UInt32) :
    ParseResult × TCPSegment :=
  let check : InternetChecksum := { sum := datagramLayerChecksum }
  let check := check.add buffer
  if check.value ≠ 0 then (.badChecksum, seg)
  else
    let (_, header, p) := TCPHeader.parse { buffer := buffer }
    (p.getError, { header := header, payload := p.buffer })

/-- What is sent is received, with some checksum. -/
theorem exists_parse_serialize (seg : TCPSegment) (datagramLayerChecksum : UInt32)
    (hdoff : 5 ≤ seg.header.doff) (hle : seg.header.doff ≤ 15)
    (hsum : datagramLayerChecksum.toNat +
      65280 * (4 * seg.header.doff.toNat + seg.payload.length) < 2 ^ 32) :
    ∃ out cksum, seg.serialize datagramLayerChecksum = .ok out ∧
      out.size = 4 * seg.header.doff.toNat + seg.payload.length ∧
      ∀ old : TCPSegment, old.parse out.concatenate datagramLayerChecksum =
        (.noError, { seg with header := seg.header.setCksum cksum }) := by
  have hfive : 5 ≤ seg.header.doff.toNat := hdoff
  obtain ⟨cksum, hcksum⟩ : ∃ cksum, cksum =
    (InternetChecksum.add { sum := datagramLayerChecksum } (seg.header.front ++
      BigEndian.bytes 2 0 ++ (seg.header.back ++ seg.payload))).value := ⟨_, rfl⟩
  have hback := seg.header.length_back hdoff
  have hlength : seg.header.front.length + 2 + (seg.header.back ++ seg.payload).length =
      4 * seg.header.doff.toNat + seg.payload.length := by
    rw [TCPHeader.length_front, List.length_append, hback]
    omega
  refine ⟨[seg.header.front ++ BigEndian.bytes 2 cksum.toNat ++ seg.header.back, seg.payload],
    cksum, ?_, ?_, ?_⟩
  · rw [serialize]
    simp only [TCPHeader.setCksum_setCksum, TCPHeader.serialize_setCksum hdoff]
    rw [← List.append_assoc, ← InternetChecksum.add_append] at hcksum
    exact congrArg (fun c : UInt16 => Except.ok
      [seg.header.front ++ BigEndian.bytes 2 c.toNat ++ seg.header.back, seg.payload]) hcksum.symm
  · rw [← hlength]
    simp [BufferList.size]
    omega
  · intro old
    have hvalue := InternetChecksum.value_complement datagramLayerChecksum seg.header.front
      (seg.header.back ++ seg.payload) cksum (by rw [TCPHeader.length_front]) (by rwa [hlength])
      hcksum
    have hconcatenate : BufferList.concatenate
        [seg.header.front ++ BigEndian.bytes 2 cksum.toNat ++ seg.header.back, seg.payload] =
        seg.header.front ++ BigEndian.bytes 2 cksum.toNat ++ (seg.header.back ++ seg.payload) := by
      simp [BufferList.concatenate]
    have hparse : TCPHeader.parse ⟨seg.header.front ++ BigEndian.bytes 2 cksum.toNat ++
        (seg.header.back ++ seg.payload), .noError⟩ =
        (.noError, seg.header.setCksum cksum, ⟨seg.payload, .noError⟩) := by
      rw [← List.append_assoc]
      exact TCPHeader.parse_bytes (h := seg.header.setCksum cksum) hdoff hle seg.payload
    rw [hconcatenate, parse]
    simp only [hvalue, ne_eq, not_true_eq_false, if_false, hparse]

end TCPSegment

end NetworkLabs
