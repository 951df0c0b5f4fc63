import NetworkLabs.AddressTranslation.Table
import NetworkLabs.Router.Checksum
import NetworkLabs.Sponge.Wire.InternetChecksum

/-!
# The checksums of a translated packet

The checksum of the IP header is right. That of TCP starts from the pseudo header,
whose addresses are added as words of 32 bits, and a carry out of the topmost bit is
lost. The sum is right exactly if there is no such carry.

The words are added as the machine reads them. In the order of the network the sum is
256 times as large, modulo `2 ^ 16 - 1`, so both orders verify the same packets.
-/

namespace NetworkLabs

/-! ## The value -/

theorem fold_addCarries (rounds : ℕ) (sum : UInt32) :
    OnesComplement.fold (addCarries rounds sum).toNat = OnesComplement.fold sum.toNat := by
  induction rounds generalizing sum with
  | zero => rfl
  | succ rounds ih =>
      rw [addCarries]
      split_ifs
      · rw [ih, OnesComplement.toNat_addCarry, OnesComplement.fold_addCarry]
      · rfl

theorem toNat_checksum (buf : List UInt8) (sum : UInt32) :
    (checksum buf sum).toNat =
      65535 - OnesComplement.fold ((sum.toNat + Router.wordSum buf) % 2 ^ 32) := by
  have hlt := addCarries_lt (addWords buf sum)
  have hfold := fold_addCarries 2 (addWords buf sum)
  rw [OnesComplement.fold_of_lt hlt, Router.toNat_addWords] at hfold
  rw [checksum, UInt16.toNat_not, UInt32.toNat_toUInt16, Nat.mod_eq_of_lt hlt, hfold]
  rfl

/-- The router folds twice, and the translator until no carry is left. -/
theorem checksum_eq_router (buf : List UInt8) (sum : UInt32) :
    checksum buf sum = Router.checksum buf sum := by
  rw [← UInt16.toNat_inj, toNat_checksum, Router.toNat_checksum]

/-- A buffer that is not long has a full sum if its checksum vanishes. -/
theorem fold_wordSum_of_checksum_eq_zero {buf : List UInt8} (hlength : buf.length ≤ 2 ^ 16)
    (h : Router.checksum buf 0 = 0) : OnesComplement.fold (Router.wordSum buf) = 65535 := by
  have hlt := OnesComplement.fold_lt (Router.wordSum buf)
  have hvalue := Router.toNat_checksum_of_le buf hlength
  rw [h, UInt16.toNat_zero] at hvalue
  omega

/-! ## The order of the bytes -/

theorem wordSum_network_cons (lo hi : UInt8) (l : List UInt8) :
    InternetChecksum.wordSum false (lo :: hi :: l) =
      lo.toNat * 256 + (hi.toNat + InternetChecksum.wordSum false l) := rfl

/-- The sum of the words in the order of the network. -/
theorem wordSum_network (l : List UInt8) :
    InternetChecksum.wordSum false l % 65535 = 256 * Router.wordSum l % 65535 := by
  induction l using Router.wordSum.induct with
  | case1 lo hi l ih =>
      rw [wordSum_network_cons, Router.wordSum, LittleEndian.value, LittleEndian.value,
        LittleEndian.value]
      omega
  | case2 last =>
      rw [InternetChecksum.wordSum, InternetChecksum.wordSum, Router.wordSum]
      simp [Nat.mul_comm]
  | case3 => rfl

theorem wordSum_network_eq_zero_iff (l : List UInt8) :
    InternetChecksum.wordSum false l = 0 ↔ Router.wordSum l = 0 := by
  induction l using Router.wordSum.induct with
  | case1 lo hi l ih =>
      rw [wordSum_network_cons, Router.wordSum, LittleEndian.value, LittleEndian.value,
        LittleEndian.value]
      omega
  | case2 last =>
      rw [InternetChecksum.wordSum, InternetChecksum.wordSum, Router.wordSum]
      simp
  | case3 => exact Iff.rfl

/-- A sum is full in both orders. -/
theorem fold_wordSum_network (l : List UInt8) :
    OnesComplement.fold (InternetChecksum.wordSum false l) = 65535 ↔
      OnesComplement.fold (Router.wordSum l) = 65535 := by
  have hmod := wordSum_network l
  have hzero := wordSum_network_eq_zero_iff l
  rw [OnesComplement.fold_eq_max_iff, OnesComplement.fold_eq_max_iff, ne_eq, ne_eq, hzero]
  omega

theorem toNat_htons (x : UInt16) : (htons x).toNat = LittleEndian.swap 2 x.toNat := by
  have hlt : LittleEndian.swap 2 x.toNat < 2 ^ 16 := LittleEndian.swap_lt 2 x.toNat
  rw [htons, ntohs, UInt16.toNat_ofNat', Nat.mod_eq_of_lt hlt]

theorem wordSum_bytes_network (x : UInt16) :
    Router.wordSum (BigEndian.bytes 2 x.toNat) = (htons x).toNat := by
  rw [toNat_htons, LittleEndian.swap]
  simp only [BigEndian.bytes, LittleEndian.bytes, List.reverse_cons, List.reverse_nil,
    List.nil_append, List.cons_append, Router.wordSum, Nat.add_zero, pow_one, pow_zero,
    Nat.div_one]

/-- A word of 32 bits counts as two words of 16 bits. -/
theorem wordSum_bytes_four (x : UInt32) : Router.wordSum (LittleEndian.bytes 4 x.toNat) =
    x.toNat % 2 ^ 16 + x.toNat / 2 ^ 16 := by
  have hlt := x.toNat_lt
  simp only [LittleEndian.bytes, Router.wordSum, LittleEndian.value, UInt8.toNat_ofNat']
  omega

namespace Packet

/-! ## The sums of a packet -/

def tcpLen (p : Packet) : UInt16 := ntohs p.ip.totLen - UInt16.ofNat p.ip.hdrSize

/-- The TCP header and the data that belong to the packet. -/
def segment (p : Packet) : List UInt8 := (p.tcp.bytes ++ p.data).take p.tcpLen.toNat

/-- The addresses, the protocol and the length of the segment as the checksum of TCP
takes them in. -/
def pseudoHeader (p : Packet) : List UInt8 :=
  LittleEndian.bytes 4 p.ip.saddr.toNat ++ LittleEndian.bytes 4 p.ip.daddr.toNat ++
    [0, p.ip.protocol] ++ BigEndian.bytes 2 p.tcpLen.toNat

/-- The one's complement sum over the pseudo header and the segment is full. -/
def TcpVerifies (p : Packet) : Prop :=
  OnesComplement.fold (InternetChecksum.wordSum false (p.pseudoHeader ++ p.segment)) = 65535

def IpVerifies (p : Packet) : Prop :=
  OnesComplement.fold (InternetChecksum.wordSum false (p.ip.bytes ++ p.options)) = 65535

instance (p : Packet) : Decidable p.TcpVerifies := inferInstanceAs (Decidable (_ = _))

/-- What is added for the checksum of TCP, with all carries. -/
def wideSum (p : Packet) : ℕ :=
  p.ip.saddr.toNat + p.ip.daddr.toNat + (htons p.ip.protocol.toUInt16).toNat +
    (htons p.tcpLen).toNat +
    Router.wordSum ({ p with tcp := { p.tcp with checksum := 0 } } : Packet).segment

theorem toNat_tcpLen (p : Packet) :
    p.tcpLen.toNat = (ntohs p.ip.totLen).toNat - p.ip.hdrSize := by
  have hle := p.le_totLen
  have hihl := p.ip.ihl.isLt
  have hsize : (UInt16.ofNat p.ip.hdrSize).toNat = p.ip.hdrSize := by
    rw [UInt16.toNat_ofNat', Iphdr.hdrSize]
    exact Nat.mod_eq_of_lt (by omega)
  have hno : UInt16.ofNat p.ip.hdrSize ≤ ntohs p.ip.totLen := by
    rw [UInt16.le_iff_toNat_le, hsize, Iphdr.hdrSize]
    omega
  rw [tcpLen, UInt16.toNat_sub_of_le _ _ hno, hsize]

/-- The bytes of the segment before and behind the checksum. -/
theorem exists_segment_eq (p : Packet) : ∃ front back : List UInt8,
    front.length % 2 = 0 ∧ front.length + 2 + back.length < 2 ^ 16 ∧
    ∀ c : UInt16, ({ p with tcp := { p.tcp with checksum := c } } : Packet).segment =
      front ++ LittleEndian.bytes 2 c.toNat ++ back := by
  have hle := p.le_totLen
  have htotal := (ntohs p.ip.totLen).toNat_lt
  have hlen : 20 ≤ p.tcpLen.toNat := by
    rw [toNat_tcpLen, Iphdr.hdrSize]
    omega
  have hlt := p.tcpLen.toNat_lt
  let front : List UInt8 := LittleEndian.bytes 2 p.tcp.sport.toNat ++
    LittleEndian.bytes 2 p.tcp.dport.toNat ++ LittleEndian.bytes 4 p.tcp.seq.toNat ++
    LittleEndian.bytes 4 p.tcp.ack.toNat ++
    [UInt8.ofNat (p.tcp.x2.toNat + 16 * p.tcp.off.toNat), p.tcp.flags] ++
    LittleEndian.bytes 2 p.tcp.rwnd.toNat
  let rest : List UInt8 := LittleEndian.bytes 2 p.tcp.urp.toNat ++ p.data
  have hfront : front.length = 16 := by simp [front]
  refine ⟨front, rest.take (p.tcpLen.toNat - 18), by rw [hfront], ?_, ?_⟩
  · rw [hfront, List.length_take]
    omega
  · intro c
    have hbytes : ({ p.tcp with checksum := c } : Tcphdr).bytes ++ p.data =
        front ++ LittleEndian.bytes 2 c.toNat ++ rest := by
      simp only [Tcphdr.bytes, front, rest, List.append_assoc]
    have hlength : (front ++ LittleEndian.bytes 2 c.toNat).length = 18 := by
      rw [List.length_append, hfront, LittleEndian.length_bytes]
    change (({ p.tcp with checksum := c } : Tcphdr).bytes ++ p.data).take p.tcpLen.toNat = _
    rw [hbytes, List.take_append, List.take_of_length_le (by omega), hlength]

/-- What the pseudo header adds to the sum of 16-bit words. -/
theorem wordSum_pseudoHeader (p : Packet) : Router.wordSum p.pseudoHeader =
    p.ip.saddr.toNat % 2 ^ 16 + p.ip.saddr.toNat / 2 ^ 16 +
      (p.ip.daddr.toNat % 2 ^ 16 + p.ip.daddr.toNat / 2 ^ 16) +
      (htons p.ip.protocol.toUInt16).toNat + (htons p.tcpLen).toNat := by
  have hproto : Router.wordSum [0, p.ip.protocol] = (htons p.ip.protocol.toUInt16).toNat := by
    have hlt := p.ip.protocol.toNat_lt
    rw [← wordSum_bytes_network, UInt8.toNat_toUInt16]
    simp only [BigEndian.bytes, Router.wordSum, LittleEndian.value, UInt8.toNat_ofNat']
    rw [Nat.div_eq_of_lt (by simpa using hlt)]
    simp
  rw [pseudoHeader, Router.wordSum_append, Router.wordSum_append, Router.wordSum_append,
    wordSum_bytes_four, wordSum_bytes_four, hproto, wordSum_bytes_network]
  · simp
  · simp
  · simp

/-! ## Calculated checksums -/

theorem toNat_tcpChecksum (p : Packet) :
    p.tcpChecksum.toNat = 65535 - OnesComplement.fold (p.wideSum % 2 ^ 32) := by
  have hstart : (p.ip.saddr + p.ip.daddr + (htons p.ip.protocol.toUInt16).toUInt32 +
      (htons p.tcpLen).toUInt32).toNat = (p.ip.saddr.toNat + p.ip.daddr.toNat +
        (htons p.ip.protocol.toUInt16).toNat + (htons p.tcpLen).toNat) % 2 ^ 32 := by
    simp only [UInt32.toNat_add, UInt16.toNat_toUInt32]
    omega
  have hchecksum : p.tcpChecksum = checksum
      ({ p with tcp := { p.tcp with checksum := 0 } } : Packet).segment
      (p.ip.saddr + p.ip.daddr + (htons p.ip.protocol.toUInt16).toUInt32 +
        (htons p.tcpLen).toUInt32) := rfl
  rw [hchecksum, toNat_checksum, hstart, wideSum, Nat.mod_add_mod]

/-- The checksum of TCP verifies exactly if no carry is lost. -/
theorem tcpVerifies_updateChecksums_iff (p : Packet) :
    p.updateChecksums.TcpVerifies ↔ p.wideSum < 2 ^ 32 := by
  obtain ⟨front, back, heven, hlength, hsegment⟩ := p.exists_segment_eq
  have hsum : ∀ c : UInt16, Router.wordSum
      ({ p with tcp := { p.tcp with checksum := c } } : Packet).segment =
      Router.wordSum front + c.toNat + Router.wordSum back := by
    intro c
    rw [hsegment, Router.wordSum_append, Router.wordSum_append _ _ heven,
      Router.wordSum_bytes_two c.toNat_lt]
    rw [List.length_append, LittleEndian.length_bytes]
    omega
  have hwide : p.wideSum = p.ip.saddr.toNat + p.ip.daddr.toNat +
      (htons p.ip.protocol.toUInt16).toNat + (htons p.tcpLen).toNat +
      (Router.wordSum front + Router.wordSum back) := by
    rw [wideSum, hsum]
    rfl
  have hcheck := p.toNat_tcpChecksum
  have htotal : Router.wordSum (p.updateChecksums.pseudoHeader ++ p.updateChecksums.segment) =
      Router.wordSum p.pseudoHeader +
        (Router.wordSum front + p.tcpChecksum.toNat + Router.wordSum back) := by
    rw [Router.wordSum_append _ _ (by simp [pseudoHeader])]
    exact congrArg (Router.wordSum p.pseudoHeader + ·) (hsum p.tcpChecksum)
  rw [TcpVerifies, fold_wordSum_network, htotal, OnesComplement.fold_eq_max_iff,
    wordSum_pseudoHeader, hcheck]
  have hfront := Router.wordSum_le front
  have hback := Router.wordSum_le back
  have hsaddr := p.ip.saddr.toNat_lt
  have hdaddr := p.ip.daddr.toNat_lt
  have hproto := (htons p.ip.protocol.toUInt16).toNat_lt
  have hlen := (htons p.tcpLen).toNat_lt
  have hmod := OnesComplement.fold_mod (p.wideSum % 2 ^ 32)
  have hzero := OnesComplement.fold_eq_zero_iff (p.wideSum % 2 ^ 32)
  have hlt := OnesComplement.fold_lt (p.wideSum % 2 ^ 32)
  omega

theorem ipVerifies_updateChecksums (p : Packet) : p.updateChecksums.IpVerifies := by
  obtain ⟨front, back, hfront, hback, hbytes⟩ := Router.Frame.exists_ipHeader_eq p.ip p.options
  have hoptions := p.options_length
  have hihl := p.ip.ihl.isLt
  have hheader : p.updateChecksums.ip.bytes ++ p.updateChecksums.options =
      front ++ LittleEndian.bytes 2 p.ipChecksum.toNat ++ back := hbytes p.ipChecksum
  have hcheck : p.ipChecksum =
      Router.checksum (front ++ LittleEndian.bytes 2 0 ++ back) 0 := by
    rw [ipChecksum, hbytes 0, checksum_eq_router]
    rfl
  rw [IpVerifies, fold_wordSum_network, hheader]
  apply fold_wordSum_of_checksum_eq_zero
  · rw [List.length_append, List.length_append, LittleEndian.length_bytes]
    omega
  · exact Router.checksum_complement front back _ (by rw [hfront]) (by omega) hcheck

end Packet

/-! ## Translated packets -/

namespace NatTable

/-- The mapping that a packet is translated by: the first one that fits, or a new
one. -/
def mappingFor (nat : NatTable) (p : Packet) (dir : PacketDir) : NatMapping :=
  if dir = .dirIn then
    FirstMatch.entry (fun m => m.isExternal (ntohl p.ip.daddr) (ntohs p.tcp.dport))
      { externalIp := ntohl p.ip.daddr, externalPort := ntohs p.tcp.dport, created := .dirIn }
      (nat.natMappingList (hashI (ntohl p.ip.saddr)))
  else
    FirstMatch.entry (fun m => m.isInternal (ntohl p.ip.saddr) (ntohs p.tcp.sport))
      { internalIp := ntohl p.ip.saddr, internalPort := ntohs p.tcp.sport
        externalIp := nat.externalIface.ip, externalPort := (assignPort nat.assignedPorts).2
        created := .dirOut }
      (nat.natMappingList (hashI (ntohl p.ip.daddr)))

/-- The packet with the address and the port of its mapping, and with the checksums it
has come with. -/
def addressed (nat : NatTable) (p : Packet) (dir : PacketDir) : Packet :=
  if dir = .dirIn then
    { p with
      tcp := { p.tcp with dport := htons (nat.mappingFor p dir).internalPort }
      ip := { p.ip with daddr := htonl (nat.mappingFor p dir).internalIp } }
  else
    { p with
      tcp := { p.tcp with sport := htons (nat.mappingFor p dir).externalPort }
      ip := { p.ip with saddr := htonl (nat.mappingFor p dir).externalIp } }

theorem doTranslation_snd (nat : NatTable) (p : Packet) (dir : PacketDir) (now : ℤ) :
    (nat.doTranslation p dir now).2 = (nat.addressed p dir).updateChecksums := by
  rw [doTranslation, addressed, mappingFor]
  split_ifs
  · rfl
  · rfl

/-- Both checksums of a translated packet verify exactly if the addresses, the protocol,
the length and the words of the segment add up to less than `2 ^ 32`. -/
theorem doTranslation_verifies_iff (nat : NatTable) (p : Packet) (dir : PacketDir) (now : ℤ) :
    (nat.doTranslation p dir now).2.TcpVerifies ∧ (nat.doTranslation p dir now).2.IpVerifies ↔
      (nat.addressed p dir).wideSum < 2 ^ 32 := by
  rw [doTranslation_snd, Packet.tcpVerifies_updateChecksums_iff]
  exact and_iff_left (Packet.ipVerifies_updateChecksums _)

/-- Both hosts have addresses whose last byte is 200, and these are the topmost bytes of
the words that are added. -/
theorem not_verifies_carry :
    ¬ ∀ (nat : NatTable) (p : Packet) (dir : PacketDir) (now : ℤ),
      (nat.doTranslation p dir now).2.TcpVerifies ∧
        (nat.doTranslation p dir now).2.IpVerifies := by
  intro h
  have hcarry := (h (natInit ⟨0x9fe227c8⟩ []) (Packet.bare 0x0a150001 4000 0x080808c8 80 TCP_SYN)
    .dirOut 0).1
  exact absurd hcarry (by decide +kernel)

end NatTable

end NetworkLabs
