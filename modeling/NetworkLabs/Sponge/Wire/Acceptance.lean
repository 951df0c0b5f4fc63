import NetworkLabs.Sponge.Wire.IPv4Datagram
import NetworkLabs.Sponge.Wire.TCPSegment

/-!
# What the parsers accept

A string is a well-formed segment or datagram if its lengths fit together and its
checksum verifies; this is said of the bytes alone. The parsers of the headers make
all of these tests, but a segment and a datagram drop the result of their header and
look at the error of the reader, which only knows when the bytes ran out. So a header
that claims to be too short passes in a segment. In a datagram everything passes that
leaves as many bytes as the header claims.
-/

namespace NetworkLabs

namespace TCPHeader

/-- The data offset of a string, in words of 32 bits. -/
def dataOffset (b : Buffer) : ℕ := (b.getD 12 0).toNat / 16

/-- The reader behind the fields. -/
def readFields (p : NetParser) : NetParser :=
  p.u16.2.u16.2.u32.2.u32.2.u8.2.u8.2.u16.2.u16.2.u16.2

/-- The data offset as it is read. -/
def readDoff (p : NetParser) : UInt8 := p.u16.2.u16.2.u32.2.u32.2.u8.1 >>> 4

/-- The reader that `parse` leaves. -/
theorem parse_reader (p : NetParser) : (parse p).2.2 =
    if readDoff p < 5 then readFields p
    else (readFields p).removePrefix ((readDoff p).toNat * 4 - LENGTH) := by
  rw [parse, readDoff, readFields]
  simp only
  split_ifs
  · simp only
  · simp only
  · simp only

theorem reads_readFields (p : NetParser) : NetParser.Reads p LENGTH (readFields p) :=
  ((((((((p.reads_u16).trans (NetParser.reads_u16 _)).trans (NetParser.reads_u32 _)).trans
    (NetParser.reads_u32 _)).trans (NetParser.reads_u8 _)).trans (NetParser.reads_u8 _)).trans
    (NetParser.reads_u16 _)).trans (NetParser.reads_u16 _)).trans (NetParser.reads_u16 _)

theorem toNat_readDoff {b : Buffer} (h : LENGTH ≤ b.length) :
    (readDoff { buffer := b }).toNat = dataOffset b := by
  have hlength : 20 ≤ b.length := h
  have hreads := (((NetParser.reads_u16 { buffer := b }).trans (NetParser.reads_u16 _)).trans
    (NetParser.reads_u32 _)).trans (NetParser.reads_u32 _)
  rw [readDoff, hreads.eq_drop (by omega), NetParser.u8_eq (by omega), UInt8.toNat_shiftRight,
    dataOffset]
  exact Nat.shiftRight_eq_div_pow _ 4

/-- The reader of a header fails exactly if the fields or the options are cut off. -/
theorem getError_parse_iff (b : Buffer) :
    (parse { buffer := b }).2.2.getError = .noError ↔
      LENGTH ≤ b.length ∧ (dataOffset b < 5 ∨ 4 * dataOffset b ≤ b.length) := by
  have hfields := reads_readFields { buffer := b }
  rw [parse_reader]
  by_cases hlength : LENGTH ≤ b.length
  · have hdoff := toNat_readDoff hlength
    have hlt : readDoff { buffer := b } < 5 ↔ dataOffset b < 5 := by
      rw [← hdoff]
      exact Iff.rfl
    rw [and_iff_right hlength, hfields.eq_drop hlength, hdoff]
    split_ifs with hshort
    · exact iff_of_true rfl (Or.inl (hlt.mp hshort))
    · have hfive : ¬ dataOffset b < 5 := fun h => hshort (hlt.mpr h)
      have hskip := NetParser.reads_removePrefix ⟨b.drop LENGTH, .noError⟩
        (dataOffset b * 4 - LENGTH)
      rw [hskip.getError_iff, and_iff_right rfl, or_iff_right hfive, List.length_drop]
      change dataOffset b * 4 - 20 ≤ b.length - 20 ↔ _
      change 20 ≤ b.length at hlength
      omega
  · have hfail : (readFields { buffer := b }).getError ≠ .noError := by
      rw [ne_eq, hfields.getError_iff]
      exact fun h => hlength h.2
    refine iff_of_false ?_ fun h => hlength h.1
    split_ifs
    · exact hfail
    · rw [(NetParser.reads_removePrefix _ _).getError_iff]
      exact fun h => hfail h.1

/-- What the reader of a header leaves are the bytes behind the options. -/
theorem buffer_parse {b : Buffer} (hoffset : 5 ≤ dataOffset b)
    (h : (parse { buffer := b }).2.2.getError = .noError) :
    (parse { buffer := b }).2.2.buffer = b.drop (4 * dataOffset b) := by
  obtain ⟨hlength, -⟩ := (getError_parse_iff b).mp h
  have hdoff := toNat_readDoff hlength
  have hnot : ¬ readDoff { buffer := b } < 5 := by
    intro hlt
    have hlt' : (readDoff { buffer := b }).toNat < 5 := hlt
    omega
  rw [parse_reader, if_neg hnot, (reads_readFields _).eq_drop hlength] at h ⊢
  rw [(NetParser.reads_removePrefix _ _).buffer_eq h, List.drop_drop, hdoff]
  congr 1
  change 20 + (dataOffset b * 4 - 20) = 4 * dataOffset b
  omega

end TCPHeader

namespace TCPSegment

/-- The sum of the pseudo-header and the string verifies. -/
def Verifies (datagramLayerChecksum : UInt32) (b : Buffer) : Prop :=
  OnesComplement.fold (datagramLayerChecksum.toNat + InternetChecksum.wordSum false b) = 65535

instance : DecidableRel Verifies := fun datagramLayerChecksum b =>
  inferInstanceAs (Decidable (OnesComplement.fold
    (datagramLayerChecksum.toNat + InternetChecksum.wordSum false b) = 65535))

/-- A string that is a segment. -/
structure WellFormed (datagramLayerChecksum : UInt32) (b : Buffer) : Prop where
  length_ge : TCPHeader.LENGTH ≤ b.length
  offset_ge : 5 ≤ TCPHeader.dataOffset b
  offset_le : 4 * TCPHeader.dataOffset b ≤ b.length
  verifies : Verifies datagramLayerChecksum b

/-- The well-formed strings are accepted and no others, and the payload is what stands
behind the header. -/
structure Judges (seg : TCPSegment) (datagramLayerChecksum : UInt32) (b : Buffer) : Prop where
  accepts_iff : (seg.parse b datagramLayerChecksum).1 = .noError ↔
    WellFormed datagramLayerChecksum b
  payload_eq : (seg.parse b datagramLayerChecksum).1 = .noError →
    (seg.parse b datagramLayerChecksum).2.payload = b.drop (4 * TCPHeader.dataOffset b)

theorem parse_noError_iff (seg : TCPSegment) {datagramLayerChecksum : UInt32} {b : Buffer}
    (h : datagramLayerChecksum.toNat + 65280 * b.length < 2 ^ 32) :
    (seg.parse b datagramLayerChecksum).1 = .noError ↔
      Verifies datagramLayerChecksum b ∧ TCPHeader.LENGTH ≤ b.length ∧
        (TCPHeader.dataOffset b < 5 ∨ 4 * TCPHeader.dataOffset b ≤ b.length) := by
  rw [parse, Verifies, ← InternetChecksum.value_add_eq_zero_iff _ _ h,
    ← TCPHeader.getError_parse_iff]
  simp only
  split_ifs with hbad
  · exact iff_of_false (by decide) fun h => hbad h.1
  · simp only
    rw [and_iff_right (not_not.mp hbad)]

/-- A string is judged right exactly if it is no string of at least twenty bytes, with a
sum that verifies, whose data offset lies below five. -/
theorem judges_segment_iff (seg : TCPSegment) (datagramLayerChecksum : UInt32) (b : Buffer)
    (hlength : b.length ≤ 65535) (hsum : datagramLayerChecksum.toNat ≤ 4 * 65535) :
    Judges seg datagramLayerChecksum b ↔
      ¬ (TCPHeader.LENGTH ≤ b.length ∧ TCPHeader.dataOffset b < 5 ∧
        Verifies datagramLayerChecksum b) := by
  have haccepts := @parse_noError_iff seg datagramLayerChecksum b (by omega)
  constructor
  · rintro h ⟨hlong, hoffset, hverifies⟩
    have hwell := h.accepts_iff.mp (haccepts.mpr ⟨hverifies, hlong, Or.inl hoffset⟩)
    exact absurd hwell.offset_ge (not_le.mpr hoffset)
  · intro hnot
    have hiff : (seg.parse b datagramLayerChecksum).1 = .noError ↔
        WellFormed datagramLayerChecksum b := by
      rw [haccepts]
      constructor
      · rintro ⟨hverifies, hlong, hoffset⟩
        have hfive : ¬ TCPHeader.dataOffset b < 5 := fun h => hnot ⟨hlong, h, hverifies⟩
        exact ⟨hlong, not_lt.mp hfive, hoffset.resolve_left hfive, hverifies⟩
      · intro h
        exact ⟨h.verifies, h.length_ge, Or.inr h.offset_le⟩
    refine ⟨hiff, fun hok => ?_⟩
    have hwell := hiff.mp hok
    have hvalue := (InternetChecksum.value_add_eq_zero_iff _ b (by omega)).mpr hwell.verifies
    have hread := (TCPHeader.getError_parse_iff b).mpr ⟨hwell.length_ge, Or.inr hwell.offset_le⟩
    rw [parse]
    simp only
    rw [if_neg (not_not.mpr hvalue)]
    simp only
    rw [TCPHeader.buffer_parse hwell.offset_ge hread]

/-- The header of 24 bytes with four bytes of options, and two bytes of payload. -/
theorem judges_segment_iff_options :
    Judges {} 0 [0, 1, 0, 2, 0, 0, 0, 0, 0, 0, 0, 0, 0x60, 0, 0, 0, 0x9f, 0xfc, 0, 0, 0, 0, 0, 0,
      0, 0] :=
  (judges_segment_iff {} 0 _ (by decide) (by decide)).mpr (by decide)

/-- A data offset of four passes. -/
theorem not_judges_short : ¬ ∀ (seg : TCPSegment) (datagramLayerChecksum : UInt32) (b : Buffer),
    b.length ≤ 65535 → datagramLayerChecksum.toNat ≤ 4 * 65535 →
    Judges seg datagramLayerChecksum b := by
  intro h
  have hjudges := h {} 0 [0, 0, 0, 0, 0, 0, 0, 0, 0, 0, 0, 0, 0x40, 0, 0, 0, 0xbf, 0xff, 0, 0]
    (by decide) (by decide)
  have hwell := hjudges.accepts_iff.mp (by decide +kernel)
  exact absurd hwell.offset_ge (by decide)

end TCPSegment

namespace IPv4Header

/-- The version of a string. -/
def version (b : Buffer) : ℕ := (b.getD 0 0).toNat / 16

/-- The length of the header, in words of 32 bits. -/
def headerLength (b : Buffer) : ℕ := (b.getD 0 0).toNat % 16

def totalLength (b : Buffer) : ℕ := (b.getD 2 0).toNat * 256 + (b.getD 3 0).toNat

/-- The version and the lengths are those of a datagram. -/
def Sound (b : Buffer) : Prop :=
  version b = 4 ∧ 5 ≤ headerLength b ∧ 4 * headerLength b ≤ b.length ∧ totalLength b = b.length

instance : DecidablePred Sound := fun b =>
  inferInstanceAs (Decidable (version b = 4 ∧ 5 ≤ headerLength b ∧
    4 * headerLength b ≤ b.length ∧ totalLength b = b.length))

/-- The reader behind the fields. -/
def readFields (p : NetParser) : NetParser :=
  p.u8.2.u8.2.u16.2.u16.2.u16.2.u8.2.u8.2.u16.2.u32.2.u32.2

theorem reads_readFields (p : NetParser) : NetParser.Reads p LENGTH (readFields p) :=
  (((((((((p.reads_u8).trans (NetParser.reads_u8 _)).trans (NetParser.reads_u16 _)).trans
    (NetParser.reads_u16 _)).trans (NetParser.reads_u16 _)).trans (NetParser.reads_u8 _)).trans
    (NetParser.reads_u8 _)).trans (NetParser.reads_u16 _)).trans (NetParser.reads_u32 _)).trans
    (NetParser.reads_u32 _)

/-- The version, the length of the header and the total length as they are read. -/
def readVer (p : NetParser) : UInt8 := p.u8.1 >>> 4

def readHlen (p : NetParser) : UInt8 := p.u8.1 &&& 0x0f

def readLen (p : NetParser) : UInt16 := p.u8.2.u8.2.u16.1

/-- The reader that `parse` leaves, and the lengths that it notes. -/
theorem parse_reader (old : IPv4Header) {p : NetParser} (h : LENGTH ≤ p.buffer.length) :
    (parse old p).2.1.hlen = readHlen p ∧ (parse old p).2.1.len = readLen p ∧
    (parse old p).2.2 =
      if p.buffer.length < 4 * (readHlen p).toNat ∨ readVer p ≠ 4 ∨ readHlen p < 5 ∨
          p.buffer.length ≠ (readLen p).toNat then readFields p
      else (readFields p).removePrefix ((readHlen p).toNat * 4 - LENGTH) := by
  rw [parse, if_neg (not_lt.mpr h), readHlen, readVer, readLen, readFields]
  simp only
  split_ifs
  all_goals simp_all only [true_or, or_true, not_true_eq_false, not_false_eq_true, and_self,
    or_self, ne_eq]

section

variable {b : Buffer}

theorem toNat_readHlen (h : LENGTH ≤ b.length) :
    (readHlen { buffer := b }).toNat = headerLength b := by
  have hlength : 20 ≤ b.length := h
  have hfirst : ({ buffer := b } : NetParser).u8.1 = b.getD 0 0 :=
    NetParser.u8_eq (n := 0) (by omega)
  rw [readHlen, hfirst, UInt8.toNat_and, headerLength]
  exact Nat.and_two_pow_sub_one_eq_mod _ 4

theorem toNat_readVer (h : LENGTH ≤ b.length) :
    (readVer { buffer := b }).toNat = version b := by
  have hlength : 20 ≤ b.length := h
  have hfirst : ({ buffer := b } : NetParser).u8.1 = b.getD 0 0 :=
    NetParser.u8_eq (n := 0) (by omega)
  rw [readVer, hfirst, UInt8.toNat_shiftRight, version]
  exact Nat.shiftRight_eq_div_pow _ 4

theorem toNat_readLen (h : LENGTH ≤ b.length) :
    (readLen { buffer := b }).toNat = totalLength b := by
  have hlength : 20 ≤ b.length := h
  have hreads := (NetParser.reads_u8 { buffer := b }).trans (NetParser.reads_u8 _)
  rw [readLen, hreads.eq_drop (by omega), NetParser.toNat_u16 (by omega), totalLength]

/-- What the reader of a header leaves: everything behind the header, or behind its
fields if the version and the lengths are not those of a datagram. -/
theorem reader_parse (old : IPv4Header) (h : LENGTH ≤ b.length) :
    (parse old { buffer := b }).2.2 =
      ⟨b.drop (if Sound b then 4 * headerLength b else LENGTH), .noError⟩ := by
  have hhlen := toNat_readHlen h
  have hver := toNat_readVer h
  have hlen := toNat_readLen h
  have hlength : 20 ≤ b.length := h
  have hfields := (reads_readFields { buffer := b }).eq_drop h
  have hfour : readVer { buffer := b } = 4 ↔ version b = 4 := by
    rw [← hver, ← UInt8.toNat_inj]
    exact Iff.rfl
  have hfive : readHlen { buffer := b } < 5 ↔ headerLength b < 5 := by
    rw [← hhlen]
    exact Iff.rfl
  rw [(parse_reader old (by exact h)).2.2]
  by_cases hsound : Sound b
  · have hparts := hsound
    obtain ⟨hversion, hge, hle, htotal⟩ := hparts
    have htwenty : LENGTH = 20 := rfl
    have hskip := NetParser.reads_removePrefix ⟨b.drop LENGTH, .noError⟩
      (headerLength b * 4 - LENGTH)
    have hleft : headerLength b * 4 - LENGTH ≤ (b.drop LENGTH).length := by
      rw [List.length_drop]
      omega
    have hsum : LENGTH + (headerLength b * 4 - LENGTH) = 4 * headerLength b := by omega
    rw [if_pos hsound, if_neg, hfields, hhlen, hskip.eq_drop hleft, List.drop_drop, hsum]
    rw [hhlen, hlen, ne_eq, hfour, hfive]
    change ¬ (b.length < _ ∨ _ ∨ _ ∨ b.length ≠ _)
    omega
  · rw [if_neg hsound, if_pos, hfields]
    rw [hhlen, hlen, ne_eq, hfour, hfive]
    rw [Sound] at hsound
    change b.length < _ ∨ _ ∨ _ ∨ b.length ≠ _
    omega

theorem totalLength_lt (b : Buffer) : totalLength b < 65536 := by
  have hfirst := (b.getD 2 0).toNat_lt
  have hsecond := (b.getD 3 0).toNat_lt
  rw [totalLength]
  omega

/-- The length of the payload that a header claims, modulo `2 ^ 16`. -/
theorem toNat_payloadLength_parse (old : IPv4Header) (h : LENGTH ≤ b.length) :
    (parse old { buffer := b }).2.1.payloadLength.toNat =
      (65536 - 4 * headerLength b + totalLength b) % 65536 := by
  obtain ⟨hhlen, hlen, -⟩ := parse_reader old (p := { buffer := b }) h
  have hlt : headerLength b < 16 := Nat.mod_lt _ (by decide)
  rw [payloadLength, UInt16.toNat_sub, UInt16.toNat_mul, UInt8.toNat_toUInt16, hhlen, hlen,
    toNat_readHlen h, toNat_readLen h]
  have hsmall : 4 * headerLength b % 65536 = 4 * headerLength b := Nat.mod_eq_of_lt (by omega)
  change (65536 - 4 * headerLength b % 65536 + totalLength b) % 65536 = _
  rw [hsmall]

end

end IPv4Header

namespace IPv4Datagram

open IPv4Header

/-- The sum of the header verifies. -/
def Verifies (b : Buffer) : Prop :=
  OnesComplement.fold (InternetChecksum.wordSum false (b.take (4 * headerLength b))) = 65535

instance : DecidablePred Verifies := fun b =>
  inferInstanceAs (Decidable (OnesComplement.fold
    (InternetChecksum.wordSum false (b.take (4 * headerLength b))) = 65535))

/-- A string that is a datagram. -/
structure WellFormed (b : Buffer) : Prop where
  length_ge : LENGTH ≤ b.length
  sound : Sound b
  verifies : Verifies b

/-- The well-formed strings are accepted and no others, and the payload is what stands
behind the header. -/
structure Judges (d : IPv4Datagram) (b : Buffer) : Prop where
  accepts_iff : (d.parse b).1 = .noError ↔ WellFormed b
  payload_eq : (d.parse b).1 = .noError →
    (d.parse b).2.payload.concatenate = b.drop (4 * headerLength b)

/-- The string is too short for the fields and as long as the payload of the datagram
in which it is read; or its header sums up wrong; or it is no datagram, but as many
bytes follow the fields as the header claims for the payload. -/
def SlipsThrough (d : IPv4Datagram) (b : Buffer) : Prop :=
  if b.length < LENGTH then b.length = d.header.payloadLength.toNat
  else if Sound b then ¬ Verifies b
  else (b.length - LENGTH + 4 * headerLength b) % 65536 = totalLength b

instance : DecidableRel SlipsThrough := fun d b =>
  inferInstanceAs (Decidable (
    if b.length < LENGTH then b.length = d.header.payloadLength.toNat
    else if Sound b then ¬ Verifies b
    else (b.length - LENGTH + 4 * headerLength b) % 65536 = totalLength b))

section

variable {b : Buffer}

/-- What a datagram makes of a string that holds the fields. -/
theorem parse_long (d : IPv4Datagram) (h : LENGTH ≤ b.length) :
    (d.parse b).2.payload = [b.drop (if Sound b then 4 * headerLength b else LENGTH)] ∧
    ((d.parse b).1 = .noError ↔
      (b.drop (if Sound b then 4 * headerLength b else LENGTH)).length =
        (65536 - 4 * headerLength b + totalLength b) % 65536) := by
  have hreader := reader_parse d.header h
  have hlength := toNat_payloadLength_parse d.header h
  generalize (if Sound b then 4 * headerLength b else LENGTH) = n at hreader ⊢
  rw [parse]
  simp only
  rw [hreader, hlength, BufferList.size, List.map_singleton, List.sum_singleton]
  split_ifs with hwrong
  · exact ⟨rfl, iff_of_false (by decide) hwrong⟩
  · exact ⟨rfl, iff_of_true rfl (not_not.mp hwrong)⟩

/-- A string that is too short for the fields leaves the header as it was. -/
theorem parse_short (d : IPv4Datagram) (h : b.length < LENGTH) :
    (d.parse b).1 = .noError ↔ b.length = d.header.payloadLength.toNat := by
  rw [parse, IPv4Header.parse, if_pos h]
  simp only
  rw [BufferList.size, List.map_singleton, List.sum_singleton]
  split_ifs with hwrong
  · exact iff_of_false (by decide) hwrong
  · exact iff_of_true rfl (not_not.mp hwrong)

theorem parse_noError_iff (d : IPv4Datagram) (hlong : LENGTH ≤ b.length)
    (hlength : b.length ≤ 65535) : (d.parse b).1 = .noError ↔
      Sound b ∨ (b.length - LENGTH + 4 * headerLength b) % 65536 = totalLength b := by
  have htotal := totalLength_lt b
  have hlt : headerLength b < 16 := Nat.mod_lt _ (by decide)
  rw [(parse_long d hlong).2, List.length_drop]
  by_cases hsound : Sound b
  · have hparts := hsound
    obtain ⟨-, -, hle, heq⟩ := hparts
    rw [if_pos hsound]
    exact iff_of_true (by omega) (Or.inl hsound)
  · rw [if_neg hsound, or_iff_right hsound]
    omega

/-- A string that is no datagram is judged right if it is rejected. -/
theorem judges_of_not_wellFormed (d : IPv4Datagram) (h : ¬ WellFormed b) :
    Judges d b ↔ (d.parse b).1 ≠ .noError := by
  constructor
  · exact fun hjudges haccepts => h (hjudges.accepts_iff.mp haccepts)
  · exact fun hrejects => ⟨iff_of_false hrejects h, fun haccepts => absurd haccepts hrejects⟩

end

/-- A string is judged right exactly if it does not slip through. -/
theorem judges_datagram_iff (d : IPv4Datagram) (b : Buffer) (hlength : b.length ≤ 65535) :
    Judges d b ↔ ¬ SlipsThrough d b := by
  rw [SlipsThrough]
  split_ifs with hshort hsound
  · have haccepts := parse_short d hshort
    have hill : ¬ WellFormed b := fun h => absurd h.length_ge (not_le.mpr hshort)
    rw [judges_of_not_wellFormed d hill, ne_eq, haccepts]
  · have hlong := not_lt.mp hshort
    have haccepts := (parse_noError_iff d hlong hlength).mpr (Or.inl hsound)
    rw [not_not]
    constructor
    · exact fun h => (h.accepts_iff.mp haccepts).verifies
    · intro hverifies
      refine ⟨iff_of_true haccepts ⟨hlong, hsound, hverifies⟩, fun _ => ?_⟩
      rw [(parse_long d hlong).1, if_pos hsound]
      exact List.append_nil _
  · have hill : ¬ WellFormed b := fun h => hsound h.sound
    have haccepts := parse_noError_iff d (not_lt.mp hshort) hlength
    rw [or_iff_right hsound] at haccepts
    rw [judges_of_not_wellFormed d hill, ne_eq, haccepts]

/-- A header whose checksum verifies, with a word of options, and two bytes of
payload. -/
theorem judges_datagram_iff_options :
    Judges {} [0x46, 0, 0, 26, 0, 0, 0x40, 0, 0x80, 6, 0xe5, 0xdb, 10, 0, 0, 1, 10, 0, 0, 2,
      0, 0, 0, 0, 1, 2] :=
  (judges_datagram_iff {} _ (by decide)).mpr (by decide)

/-- A wrong checksum passes. -/
theorem not_judges_wrong_checksum : ¬ ∀ (d : IPv4Datagram) (b : Buffer), b.length ≤ 65535 →
    Judges d b := by
  intro h
  have hjudges := h {} [0x45, 0, 0, 20, 0, 0, 0x40, 0, 0x80, 6, 0, 0, 10, 0, 0, 1, 10, 0, 0, 2]
    (by decide)
  have hwell := hjudges.accepts_iff.mp (by decide +kernel)
  exact absurd hwell.verifies (by decide)

end IPv4Datagram

end NetworkLabs
