import NetworkLabs.Sponge.Wire.InternetChecksum

/-!
# IP datagrams on the wire

As in a TCP segment the header is padded to the length that `hlen` says. Its
checksum covers the header alone. The reader checks the version, the lengths and
the checksum, but the datagram only asks whether the buffer was long enough and
whether the payload has the length that the header claims.
-/

namespace NetworkLabs

structure IPv4Header where
  ver : UInt8 := 4
  hlen : UInt8 := 5
  tos : UInt8 := 0
  len : UInt16 := 0
  id : UInt16 := 0
  df : Bool := true
  mf : Bool := false
  offset : UInt16 := 0
  ttl : UInt8 := 128
  proto : UInt8 := 6
  cksum : UInt16 := 0
  src : UInt32 := 0
  dst : UInt32 := 0
  deriving DecidableEq

namespace IPv4Header

def LENGTH : ℕ := 20

def PROTO_TCP : UInt8 := 6

def payloadLength (h : IPv4Header) : UInt16 := h.len - 4 * h.hlen.toUInt16

/-- What the header contributes to the checksum of a TCP segment. -/
def pseudoCksum (h : IPv4Header) : UInt32 :=
  let pcksum := (h.src >>> 16) + (h.src &&& 0xffff)
  let pcksum := pcksum + ((h.dst >>> 16) + (h.dst &&& 0xffff))
  let pcksum := pcksum + h.proto.toUInt32
  pcksum + h.payloadLength.toUInt32

def setCksum (h : IPv4Header) (cksum : UInt16) : IPv4Header := { h with cksum := cksum }

def firstByte (h : IPv4Header) : UInt8 := (h.ver <<< 4) ||| (h.hlen &&& 0xf)

/-- The flags and the offset. -/
def foVal (h : IPv4Header) : UInt16 :=
  (if h.df then 0x4000 else 0) ||| (if h.mf then 0x2000 else 0) ||| (h.offset &&& 0x1fff)

def serialize (h : IPv4Header) : Except String (List UInt8) :=
  if h.ver ≠ 4 then .error "wrong IP version"
  else if 4 * h.hlen.toNat < LENGTH then .error "IP header too short"
  else
    let ret := NetUnparser.u8 [] h.firstByte
    let ret := NetUnparser.u8 ret h.tos
    let ret := NetUnparser.u16 ret h.len
    let ret := NetUnparser.u16 ret h.id
    let ret := NetUnparser.u16 ret h.foVal
    let ret := NetUnparser.u8 ret h.ttl
    let ret := NetUnparser.u8 ret h.proto
    let ret := NetUnparser.u16 ret h.cksum
    let ret := NetUnparser.u32 ret h.src
    let ret := NetUnparser.u32 ret h.dst
    .ok (NetUnparser.resize ret (4 * h.hlen.toNat))

/-- The result, the header, and what the parser has left. A header that is too short
to be read keeps its old fields. -/
def parse (old : IPv4Header) (p : NetParser) : ParseResult × IPv4Header × NetParser :=
  let original := p.buffer
  let dataSize := p.buffer.length
  if dataSize < LENGTH then (.packetTooShort, old, p)
  else
    let (firstByte, p) := p.u8
    let (tos, p) := p.u8
    let (len, p) := p.u16
    let (id, p) := p.u16
    let (foVal, p) := p.u16
    let (ttl, p) := p.u8
    let (proto, p) := p.u8
    let (cksum, p) := p.u16
    let (src, p) := p.u32
    let (dst, p) := p.u32
    let h : IPv4Header := {
      ver := firstByte >>> 4
      hlen := firstByte &&& 0x0f
      tos := tos
      len := len
      id := id
      df := foVal &&& 0x4000 != 0
      mf := foVal &&& 0x2000 != 0
      offset := foVal &&& 0x1fff
      ttl := ttl
      proto := proto
      cksum := cksum
      src := src
      dst := dst }
    if dataSize < 4 * h.hlen.toNat then (.packetTooShort, h, p)
    else if h.ver ≠ 4 then (.wrongIPVersion, h, p)
    else if h.hlen < 5 then (.headerTooShort, h, p)
    else if dataSize ≠ h.len.toNat then (.truncatedPacket, h, p)
    else
      let p := p.removePrefix (h.hlen.toNat * 4 - LENGTH)
      if p.error then (p.getError, h, p)
      else
        let check : InternetChecksum := {}
        let check := check.add (original.take (4 * h.hlen.toNat))
        if check.value ≠ 0 then (.badChecksum, h, p) else (.noError, h, p)

theorem toNat_pseudoCksum_lt (h : IPv4Header) : h.pseudoCksum.toNat < 2 ^ 19 := by
  have hsrc : h.src.toNat / 2 ^ 16 + h.src.toNat % 2 ^ 16 < 2 ^ 17 := by
    have hlt := h.src.toNat_lt
    omega
  have hdst : h.dst.toNat / 2 ^ 16 + h.dst.toNat % 2 ^ 16 < 2 ^ 17 := by
    have hlt := h.dst.toNat_lt
    omega
  have hproto := h.proto.toNat_lt
  have hlength := h.payloadLength.toNat_lt
  rw [pseudoCksum, UInt32.toNat_add, UInt32.toNat_add, UInt32.toNat_add,
    OnesComplement.toNat_addCarry, OnesComplement.toNat_addCarry, UInt8.toNat_toUInt32,
    UInt16.toNat_toUInt32]
  generalize h.src.toNat / 2 ^ 16 + h.src.toNat % 2 ^ 16 = src at hsrc ⊢
  generalize h.dst.toNat / 2 ^ 16 + h.dst.toNat % 2 ^ 16 = dst at hdst ⊢
  omega

/-! ## The round trip of a header -/

/-- The bytes in front of the checksum. -/
def front (h : IPv4Header) : List UInt8 :=
  BigEndian.bytes 1 h.firstByte.toNat ++ BigEndian.bytes 1 h.tos.toNat ++
    BigEndian.bytes 2 h.len.toNat ++ BigEndian.bytes 2 h.id.toNat ++
    BigEndian.bytes 2 h.foVal.toNat ++ BigEndian.bytes 1 h.ttl.toNat ++
    BigEndian.bytes 1 h.proto.toNat

/-- The bytes behind the checksum. -/
def back (h : IPv4Header) : List UInt8 :=
  BigEndian.bytes 4 h.src.toNat ++ BigEndian.bytes 4 h.dst.toNat ++
    List.replicate (4 * h.hlen.toNat - LENGTH) 0

/-- A header that is read back as it was written. -/
structure Writable (h : IPv4Header) : Prop where
  ver_eq : h.ver = 4
  hlen_ge : 5 ≤ h.hlen.toNat
  hlen_le : h.hlen.toNat ≤ 15
  offset_lt : h.offset.toNat < 2 ^ 13

section

variable {h : IPv4Header}

@[simp] theorem length_front (h : IPv4Header) : h.front.length = 10 := by
  simp [front]

theorem length_back (hh : h.Writable) : h.back.length = 4 * h.hlen.toNat - 12 := by
  have hge := hh.hlen_ge
  simp [back, LENGTH]
  omega

theorem serialize_eq (hh : h.Writable) :
    h.serialize = .ok (h.front ++ BigEndian.bytes 2 h.cksum.toNat ++ h.back) := by
  have hge := hh.hlen_ge
  have hfields : (h.front ++ BigEndian.bytes 2 h.cksum.toNat ++
      BigEndian.bytes 4 h.src.toNat ++ BigEndian.bytes 4 h.dst.toNat).length = LENGTH := by
    simp [LENGTH]
  have hresize := NetUnparser.resize_of_le (n := 4 * h.hlen.toNat) (hfields.trans_le (by
    rw [LENGTH]
    omega))
  rw [hfields] at hresize
  rw [serialize, if_neg (not_not.mpr hh.ver_eq), if_neg (by rw [LENGTH]; omega)]
  simp only [NetUnparser.u8_eq, NetUnparser.u16_eq, NetUnparser.u32_eq, List.nil_append]
  rw [← front, hresize, back]
  simp only [List.append_assoc]

theorem Writable.setCksum (hh : h.Writable) (cksum : UInt16) : (h.setCksum cksum).Writable :=
  { hh with }

@[simp] theorem setCksum_setCksum (h : IPv4Header) (cksum cksum' : UInt16) :
    (h.setCksum cksum).setCksum cksum' = h.setCksum cksum' := rfl

theorem serialize_setCksum (hh : h.Writable) (cksum : UInt16) :
    (h.setCksum cksum).serialize =
      .ok (h.front ++ BigEndian.bytes 2 cksum.toNat ++ h.back) :=
  serialize_eq (hh.setCksum cksum)

theorem firstByte_fields (hh : h.Writable) :
    h.firstByte >>> 4 = h.ver ∧ h.firstByte &&& 0x0f = h.hlen := by
  have hall : ∀ n < 16, ((4 : UInt8) <<< 4 ||| (UInt8.ofNat n &&& 0xf)) >>> 4 = 4 ∧
      ((4 : UInt8) <<< 4 ||| (UInt8.ofNat n &&& 0xf)) &&& 0x0f = UInt8.ofNat n := by decide
  have hfields := hall h.hlen.toNat (Nat.lt_succ_of_le hh.hlen_le)
  rw [UInt8.ofNat_toNat] at hfields
  rw [firstByte, hh.ver_eq]
  exact hfields

theorem or_or_and (a b c mask : UInt16) :
    (a ||| b ||| c) &&& mask = (a &&& mask) ||| (b &&& mask) ||| (c &&& mask) := by
  rw [← UInt16.toBitVec_inj]
  exact BitVec.and_or_distrib_right.trans (congrArg (· ||| _) BitVec.and_or_distrib_right)

/-- The flags have bits of their own, above those of the offset. -/
theorem foVal_fields (hh : h.Writable) : (h.foVal &&& 0x4000 != 0) = h.df ∧
    (h.foVal &&& 0x2000 != 0) = h.mf ∧ h.foVal &&& 0x1fff = h.offset := by
  have hoffset : h.offset &&& 0x1fff = h.offset := by
    rw [← UInt16.toNat_inj, UInt16.toNat_and]
    exact (Nat.and_two_pow_sub_one_eq_mod _ 13).trans (Nat.mod_eq_of_lt hh.offset_lt)
  have hfirst : (0x1fff &&& 0x4000 : UInt16) = 0 := by decide
  have hsecond : (0x1fff &&& 0x2000 : UInt16) = 0 := by decide
  rw [foVal, or_or_and, or_or_and, or_or_and, UInt16.and_assoc, UInt16.and_assoc,
    UInt16.and_assoc, hfirst, hsecond, UInt16.and_self, hoffset, UInt16.and_zero]
  refine ⟨?_, ?_, ?_⟩
  · generalize h.df = df, h.mf = mf
    revert df mf
    decide
  · generalize h.df = df, h.mf = mf
    revert df mf
    decide
  · have hflags : ((if h.df then 0x4000 else 0) &&& 0x1fff |||
        (if h.mf then 0x2000 else 0) &&& 0x1fff : UInt16) = 0 := by
      generalize h.df = df, h.mf = mf
      revert df mf
      decide
    rw [hflags, UInt16.zero_or]

/-- What was written is read, if it is as long as it says and sums up to nothing. -/
theorem parse_bytes (hh : h.Writable) (old : IPv4Header) (rest : Buffer)
    (hlen : h.len.toNat = 4 * h.hlen.toNat + rest.length)
    (hcksum : (InternetChecksum.add {} (h.front ++ BigEndian.bytes 2 h.cksum.toNat ++
      h.back)).value = 0) :
    parse old ⟨h.front ++ BigEndian.bytes 2 h.cksum.toNat ++ h.back ++ rest, .noError⟩ =
      (.noError, h, ⟨rest, .noError⟩) := by
  have hge := hh.hlen_ge
  have hback := length_back hh
  have hheader : (h.front ++ BigEndian.bytes 2 h.cksum.toNat ++ h.back).length =
      4 * h.hlen.toNat := by
    simp [hback]
    omega
  have hdata : (h.front ++ BigEndian.bytes 2 h.cksum.toNat ++ h.back ++ rest).length =
      h.len.toNat := by
    rw [List.length_append, hheader, hlen]
  have hpad : (List.replicate (4 * h.hlen.toNat - LENGTH) (0 : UInt8)).length =
      h.hlen.toNat * 4 - LENGTH := by
    rw [List.length_replicate, mul_comm]
  obtain ⟨hver, hhlen⟩ := firstByte_fields hh
  obtain ⟨hdf, hmf, hoffset⟩ := foVal_fields hh
  have hfour : (h.ver = 4) = True := eq_true hh.ver_eq
  have hfive : ¬ h.hlen < 5 := Nat.not_lt.mpr hge
  have hsummed : (InternetChecksum.add {} ((h.front ++ BigEndian.bytes 2 h.cksum.toNat ++
      h.back ++ rest).take (4 * h.hlen.toNat))).value = 0 := by
    rw [List.take_left' hheader, hcksum]
  have htwenty : ¬ h.len.toNat < LENGTH := by
    rw [LENGTH]
    omega
  have hshort : ¬ h.len.toNat < 4 * h.hlen.toNat := by omega
  rw [parse]
  simp only [hdata, if_neg htwenty]
  rw [front, back] at hsummed ⊢
  simp only [List.append_assoc] at hsummed
  simp only [List.append_assoc, NetParser.u16_append, NetParser.u32_append, NetParser.u8_append]
  simp only [hver, hhlen, hdf, hmf, hoffset, if_neg hshort, hfour, if_neg hfive, ne_eq,
    not_true_eq_false, if_false, NetParser.removePrefix_append hpad, NetParser.error_mk,
    Bool.false_eq_true, hsummed]

end

end IPv4Header

structure IPv4Datagram where
  header : IPv4Header := {}
  payload : BufferList := []
  deriving DecidableEq

namespace IPv4Datagram

/-- The result of the header is not looked at. -/
def parse (d : IPv4Datagram) (buffer : Buffer) : ParseResult × IPv4Datagram :=
  let (_, header, p) := d.header.parse { buffer := buffer }
  let d : IPv4Datagram := { header := header, payload := [p.buffer] }
  if d.payload.size ≠ d.header.payloadLength.toNat then (.packetTooShort, d)
  else (p.getError, d)

def serialize (d : IPv4Datagram) : Except String BufferList :=
  if d.payload.size ≠ d.header.payloadLength.toNat then
    .error "IPv4Datagram::serialize: payload is wrong size"
  else do
    let headerOut := d.header.setCksum 0
    let headerZeroChecksum ← headerOut.serialize
    let check : InternetChecksum := {}
    let check := check.add headerZeroChecksum
    let headerOut := headerOut.setCksum check.value
    let header ← headerOut.serialize
    return header :: d.payload

theorem toNat_payloadLength {h : IPv4Header} (hh : h.Writable) {n : ℕ}
    (hlen : h.len.toNat = 4 * h.hlen.toNat + n) : h.payloadLength.toNat = n := by
  have hle := hh.hlen_le
  have hlt := h.len.toNat_lt
  rw [IPv4Header.payloadLength, UInt16.toNat_sub, UInt16.toNat_mul, UInt8.toNat_toUInt16]
  change (2 ^ 16 - 4 * h.hlen.toNat % 2 ^ 16 + h.len.toNat) % 2 ^ 16 = n
  omega

/-- What is sent is received, with some checksum, and in one piece. -/
theorem exists_parse_serialize {d : IPv4Datagram} (hh : d.header.Writable)
    (hlen : d.header.len.toNat = 4 * d.header.hlen.toNat + d.payload.size) :
    ∃ out cksum, d.serialize = .ok out ∧ ∀ old : IPv4Datagram,
      old.parse out.concatenate = (.noError, {
        header := d.header.setCksum cksum, payload := [d.payload.concatenate] }) := by
  obtain ⟨cksum, hcksum⟩ : ∃ cksum, cksum = (InternetChecksum.add {} (d.header.front ++
    BigEndian.bytes 2 0 ++ d.header.back)).value := ⟨_, rfl⟩
  have hle := hh.hlen_le
  have hpayload := toNat_payloadLength hh hlen
  refine ⟨(d.header.front ++ BigEndian.bytes 2 cksum.toNat ++ d.header.back) :: d.payload, cksum,
    ?_, ?_⟩
  · rw [serialize, if_neg (not_not.mpr hpayload.symm)]
    simp only [IPv4Header.setCksum_setCksum, IPv4Header.serialize_setCksum hh]
    exact congrArg (fun c : UInt16 => Except.ok
      ((d.header.front ++ BigEndian.bytes 2 c.toNat ++ d.header.back) :: d.payload)) hcksum.symm
  · intro old
    have hvalue := InternetChecksum.value_complement 0 d.header.front d.header.back cksum
      (by rw [IPv4Header.length_front]) (by
        rw [IPv4Header.length_front, IPv4Header.length_back hh]
        change 0 + _ < _
        omega) hcksum
    have hsize := d.payload.length_concatenate
    have hparse : old.header.parse ⟨d.header.front ++ BigEndian.bytes 2 cksum.toNat ++
        d.header.back ++ d.payload.concatenate, .noError⟩ =
        (.noError, d.header.setCksum cksum, ⟨d.payload.concatenate, .noError⟩) :=
      IPv4Header.parse_bytes (hh.setCksum cksum) old.header d.payload.concatenate
        (hlen.trans (congrArg (4 * d.header.hlen.toNat + ·) hsize.symm)) hvalue
    have hclaimed : ¬ BufferList.size [d.payload.concatenate] ≠
        (d.header.setCksum cksum).payloadLength.toNat := by
      rw [BufferList.size, List.map_singleton, List.sum_singleton, hsize]
      exact not_not.mpr hpayload.symm
    rw [BufferList.concatenate_cons, parse]
    simp only [hparse, if_neg hclaimed]

end IPv4Datagram

end NetworkLabs
