import NetworkLabs.Router.Checksum
import NetworkLabs.Router.PendingPackets
import NetworkLabs.Router.Relocking

/-!
# Messages byte by byte

A message is written into its memory in several stores, of which later ones cover
earlier ones. Here it is put together from what remains: the type and the code,
the checksum, and all that stands behind it. Sending it changes no more than its
Ethernet header.
-/

namespace NetworkLabs

namespace Router

/-! ## Stores -/

/-- A store behind some bytes keeps them. -/
theorem store_append (front buf bytes : List UInt8) :
    store (front ++ buf) front.length bytes = front ++ bytes ++ buf.drop bytes.length := by
  rw [store, List.take_left, List.drop_length_add_append]

theorem store_zero (buf bytes : List UInt8) :
    store buf 0 bytes = bytes ++ buf.drop bytes.length := store_append [] buf bytes

/-- A store covers an earlier one in its place that is not longer. -/
theorem store_covered (front buf first second : List UInt8) (hle : first.length ≤ second.length) :
    store (store (front ++ buf) front.length first) front.length second =
      front ++ second ++ buf.drop second.length := by
  rw [store_append, List.append_assoc, store_append, List.drop_append,
    List.drop_eq_nil_of_le hle, List.nil_append, List.drop_drop, Nat.add_sub_cancel' hle]

/-- A store of two bytes behind two others. -/
theorem store_two (front old bytes back : List UInt8) (hfront : front.length = 2)
    (hold : old.length = 2) (hbytes : bytes.length = 2) :
    store (front ++ old ++ back) 2 bytes = front ++ bytes ++ back := by
  have hdrop : (old ++ back).drop bytes.length = back := by
    rw [hbytes, ← hold]
    exact List.drop_left
  rw [← hfront, List.append_assoc front old back, store_append, hdrop]

/-- The checksum is stored behind the type and the code. -/
theorem store_checksum (front old back : List UInt8) (hfront : front.length = 2)
    (hold : old.length = 2) (hback : 4 + back.length ≤ 2 ^ 16) :
    ∃ ck : UInt16, store (front ++ old ++ back) 2 (LittleEndian.bytes 2
        (checksum (store (front ++ old ++ back) 2 [0, 0]) 0).toNat) =
      front ++ LittleEndian.bytes 2 ck.toNat ++ back ∧
      checksum (front ++ LittleEndian.bytes 2 ck.toNat ++ back) 0 = 0 := by
  refine ⟨checksum (store (front ++ old ++ back) 2 [0, 0]) 0, ?_, ?_⟩
  · exact store_two front old _ back hfront hold (LittleEndian.length_bytes 2 _)
  · apply checksum_complement
    · rw [hfront]
    · omega
    · rw [store_two front old [0, 0] back hfront hold rfl]
      rfl

/-- The first bytes of some memory. -/
theorem map_range_add (memory : ℕ → UInt8) (m n : ℕ) :
    (List.range (m + n)).map memory =
      (List.range m).map memory ++ (List.range n).map fun i => memory (m + i) := by
  rw [List.range_add, List.map_append, List.map_map]
  rfl

/-! ## The header and the data -/

theorem length_ipHeader (frame : Frame) : frame.ipHeader.length = frame.ip.hdrSize := by
  have hoptions := frame.options_length
  rw [Frame.ipHeader, List.length_append, Iphdr.hdrSize, hoptions, Nat.add_right_cancel_iff]
  simp [Iphdr.bytes]

/-- The IP header of a message verifies. -/
theorem checksum_icmpFrame (fresh : Fresh) (ifaceIp : UInt32) (inPkt : Frame)
    (type code : UInt8) :
    checksum (icmpFrame fresh ifaceIp inPkt type code).ipHeader 0 = 0 := by
  obtain ⟨front, back, hfront, hback, hbytes⟩ := Frame.exists_ipHeader_eq
    (icmpFrame fresh ifaceIp inPkt type code).ip []
  have hheader : (icmpFrame fresh ifaceIp inPkt type code).ipHeader =
      front ++ LittleEndian.bytes 2
        (icmpFrame fresh ifaceIp inPkt type code).ip.checksum.toNat ++ back := hbytes _
  rw [hheader]
  apply checksum_complement
  · rw [hfront]
  · rw [hfront, hback]
    decide
  · have hzero := hbytes 0
    rw [List.append_nil] at hzero
    exact congrArg (fun bytes => checksum bytes 0) hzero

/-- The bytes of the ICMP header behind the checksum, before anything is stored
there. -/
def Fresh.restOfHeader (fresh : Fresh) : List UInt8 :=
  (List.range 4).map fun i => fresh.memory (4 + i)

/-- The memory of the checksum, before anything is stored there. -/
def Fresh.checksumField (fresh : Fresh) : List UInt8 :=
  (List.range 2).map fun i => fresh.memory (2 + i)

/-- The memory of an error message is as long as the header and the quotation. -/
theorem map_range_icmpLength_error (fresh : Fresh) (inPkt : Frame) (type : UInt8)
    (htype : type ≠ ICMP_ECHOREPLY) :
    (List.range (icmpLength inPkt type)).map fresh.memory =
      (List.range 2).map fresh.memory ++ (fresh.checksumField ++ (fresh.restOfHeader ++
        (List.range (inPkt.ip.hdrSize + 8)).map fun i => fresh.memory (8 + i))) := by
  have hlength : icmpLength inPkt type = 2 + (2 + (4 + (inPkt.ip.hdrSize + 8))) := by
    rw [icmpLength, if_neg htype, ICMP_HDR_SIZE, ICMP_COPIED_DATA_LEN]
    omega
  rw [hlength, map_range_add, map_range_add, map_range_add]
  simp only [← Nat.add_assoc]
  rfl

/-- The zeros are stored where the quotation follows, and it covers them. -/
theorem store_quotation (fresh : Fresh) (inPkt : Frame) (type code : UInt8)
    (htype : type ≠ ICMP_ECHOREPLY) {quoted : List UInt8}
    (hquoted : quoted.length = inPkt.ip.hdrSize + 8) :
    store (store (store ((List.range (icmpLength inPkt type)).map fresh.memory) 0
        [type, code]) ICMP_HDR_SIZE (List.replicate ICMP_COPIED_DATA_LEN 0)) ICMP_HDR_SIZE quoted =
      [type, code] ++ fresh.checksumField ++ (fresh.restOfHeader ++ quoted) := by
  have hfirst : store ((List.range (icmpLength inPkt type)).map fresh.memory) 0 [type, code] =
      ([type, code] ++ fresh.checksumField ++ fresh.restOfHeader) ++
        (List.range (inPkt.ip.hdrSize + 8)).map fun i => fresh.memory (8 + i) := by
    rw [map_range_icmpLength_error fresh inPkt type htype, store_zero]
    simp [List.range_succ]
  have hheader : ([type, code] ++ fresh.checksumField ++ fresh.restOfHeader).length =
      ICMP_HDR_SIZE := by
    simp [Fresh.checksumField, Fresh.restOfHeader, ICMP_HDR_SIZE]
  rw [hfirst, ← hheader, store_covered, List.drop_eq_nil_of_le, List.append_nil,
    List.append_assoc]
  · rw [List.length_map, List.length_range, hquoted]
  · rw [List.length_replicate, hquoted, ICMP_COPIED_DATA_LEN]
    exact Nat.le_add_left 8 _

/-- What an error message quotes stands behind four bytes that nothing is written
to. -/
theorem icmpData_error (fresh : Fresh) (inPkt : Frame) (type code : UInt8)
    (htype : type ≠ ICMP_ECHOREPLY) (hdata : 8 ≤ inPkt.data.length) :
    ∃ ck : UInt16, icmpData fresh inPkt type code = [type, code] ++
        LittleEndian.bytes 2 ck.toNat ++
          (fresh.restOfHeader ++ (inPkt.ipHeader ++ inPkt.data.take 8)) ∧
      checksum (icmpData fresh inPkt type code) 0 = 0 := by
  let quoted : List UInt8 := inPkt.ipHeader ++ inPkt.data.take 8
  have hquoted : quoted.length = inPkt.ip.hdrSize + 8 := by
    rw [List.length_append, length_ipHeader, List.length_take, Nat.min_eq_left hdata]
  have hcopied : (inPkt.data ++ (List.range ICMP_COPIED_DATA_LEN).map fresh.behind).take
      ICMP_COPIED_DATA_LEN = inPkt.data.take 8 := List.take_append_of_le_length hdata
  have hback : 4 + (fresh.restOfHeader ++ quoted).length ≤ 2 ^ 16 := by
    have hihl := inPkt.ip.ihl.isLt
    rw [List.length_append, hquoted, Fresh.restOfHeader, List.length_map, List.length_range,
      Iphdr.hdrSize]
    omega
  obtain ⟨ck, hck, hverifies⟩ := store_checksum [type, code] fresh.checksumField
    (fresh.restOfHeader ++ quoted) rfl (by simp [Fresh.checksumField]) hback
  have hall : icmpData fresh inPkt type code =
      [type, code] ++ LittleEndian.bytes 2 ck.toNat ++ (fresh.restOfHeader ++ quoted) := by
    simp only [icmpData, if_neg htype]
    rw [hcopied, store_quotation fresh inPkt type code htype hquoted]
    exact hck
  exact ⟨ck, hall, hall ▸ hverifies⟩

/-- What the memory of an echo reply holds behind the data of the request. -/
def Fresh.behindReply (fresh : Fresh) (inPkt : Frame) : List UInt8 :=
  (List.range (inPkt.ip.hdrSize - 20)).map fun i => fresh.memory (inPkt.data.length + i)

/-- An echo reply is the request, from its type on, but for the checksum. Behind it
stands memory that is as long as the options of the request. -/
theorem icmpData_reply (fresh : Fresh) (inPkt : Frame) (code : UInt8)
    (hdata : 4 ≤ inPkt.data.length) (hlength : inPkt.ip.hdrSize + inPkt.data.length < 2 ^ 16) :
    ∃ ck : UInt16, icmpData fresh inPkt ICMP_ECHOREPLY code = inPkt.data.take 2 ++
        LittleEndian.bytes 2 ck.toNat ++ (inPkt.data.drop 4 ++ fresh.behindReply inPkt) ∧
      checksum (icmpData fresh inPkt ICMP_ECHOREPLY code) 0 = 0 := by
  have hoptions : inPkt.ip.hdrSize = 20 + inPkt.options.length := inPkt.options_length
  have hbuf : store (store ((List.range (icmpLength inPkt ICMP_ECHOREPLY)).map fresh.memory) 0
      [ICMP_ECHOREPLY, code]) 0 inPkt.data = inPkt.data ++ fresh.behindReply inPkt := by
    have hlength : icmpLength inPkt ICMP_ECHOREPLY =
        inPkt.data.length + (inPkt.ip.hdrSize - 20) := by
      rw [icmpLength, if_pos rfl]
      omega
    have htype : [ICMP_ECHOREPLY, code].length ≤ inPkt.data.length := by
      rw [List.length_cons, List.length_singleton]
      omega
    have hcovered := store_covered [] ((List.range (inPkt.data.length +
      (inPkt.ip.hdrSize - 20))).map fresh.memory) _ inPkt.data htype
    rw [List.nil_append, map_range_add, List.drop_left'] at hcovered
    · rw [hlength, map_range_add]
      exact hcovered
    · rw [List.length_map, List.length_range]
  have hsplit : inPkt.data ++ fresh.behindReply inPkt = inPkt.data.take 2 ++
      (inPkt.data.drop 2).take 2 ++ (inPkt.data.drop 4 ++ fresh.behindReply inPkt) := by
    have htail := List.take_append_drop 2 (inPkt.data.drop 2)
    rw [List.drop_drop] at htail
    rw [← List.append_assoc, List.append_assoc (inPkt.data.take 2), htail, List.take_append_drop]
  have hback : 4 + (inPkt.data.drop 4 ++ fresh.behindReply inPkt).length ≤ 2 ^ 16 := by
    rw [List.length_append, List.length_drop, Fresh.behindReply, List.length_map,
      List.length_range]
    omega
  obtain ⟨ck, hck, hverifies⟩ := store_checksum (inPkt.data.take 2) ((inPkt.data.drop 2).take 2)
    (inPkt.data.drop 4 ++ fresh.behindReply inPkt)
    (by rw [List.length_take]; omega) (by rw [List.length_take, List.length_drop]; omega) hback
  have hall : icmpData fresh inPkt ICMP_ECHOREPLY code = inPkt.data.take 2 ++
      LittleEndian.bytes 2 ck.toNat ++ (inPkt.data.drop 4 ++ fresh.behindReply inPkt) := by
    simp only [icmpData, if_true]
    rw [hbuf, hsplit]
    exact hck
  exact ⟨ck, hall, hall ▸ hverifies⟩

/-! ## Sending -/

section

variable {ι : Type*}

def Emission.transmitted : Emission ι → Option Packet
  | transmit _ packet => some packet
  | arpRequest _ _ => none
  | icmp _ _ _ => none

def Record.packet : Record ι → Packet
  | queued _ _ packet => packet
  | transmitted _ packet => packet
  | answered packet _ _ => packet

namespace Thread

def transmitted (s : Thread ι) : List Packet := s.emitted.filterMap Emission.transmitted

@[simp] theorem transmitted_emit (s : Thread ι) (emissions : List (Emission ι)) :
    (s.emit emissions).transmitted =
      s.transmitted ++ emissions.filterMap Emission.transmitted := List.filterMap_append

/-- The packets that have been transmitted, and those that wait for an address. -/
def outgoing (s : Thread ι) : List Packet := s.transmitted ++ s.cache.records.map Record.packet

/-- One more packet has been sent, and it is a good one. -/
def HasSent (s s' : Thread ι) (good : Frame → Prop) : Prop :=
  ∃ out, s'.outgoing.Perm (out :: s.outgoing) ∧ good out.frame

theorem outgoing_transmit (s : Thread ι) (cache : ArpCache ι) (iface : ι) (packet : Packet)
    (hcache : cache.records = s.cache.records) :
    (s.after (cache, [.transmit iface packet])).outgoing.Perm (packet :: s.outgoing) := by
  rw [outgoing, transmitted, after, List.filterMap_append, hcache, outgoing]
  exact ((List.perm_append_singleton packet _).append_right _)

theorem outgoing_appendPacket [DecidableEq ι] (s : Thread ι) (iface : ι) (ip4 : UInt32)
    (packet : Packet) (now : ℤ) :
    (s.after (s.cache.appendPacket iface ip4 packet now)).outgoing.Perm
      (packet :: s.outgoing) := by
  have hsent : (s.cache.appendPacket iface ip4 packet now).2.filterMap
      Emission.transmitted = [] := by
    rw [ArpCache.appendPacket]
    split_ifs
    · rfl
    · rfl
  have hrecords := (records_upsert iface ip4 packet now s.cache.reqList).map Record.packet
  rw [outgoing, transmitted, after, List.filterMap_append, hsent, List.append_nil, outgoing]
  exact (hrecords.append_left _).trans List.perm_middle

/-- The last packet that has been sent is determined. -/
theorem hasSent_iff {s s' : Thread ι} {out : Packet} (good : Frame → Prop)
    (h : s'.outgoing.Perm (out :: s.outgoing)) : HasSent s s' good ↔ good out.frame := by
  constructor
  · rintro ⟨out', hout', hgood⟩
    have hsame := Multiset.coe_eq_coe.mpr (hout'.symm.trans h)
    rw [← Multiset.cons_coe, ← Multiset.cons_coe, Multiset.cons_inj_left] at hsame
    rwa [← hsame]
  · exact fun hgood => ⟨out, h, hgood⟩

end Thread

/-- The frames carry the same packet. -/
structure Frame.SamePacket (a b : Frame) : Prop where
  ip_eq : b.ip = a.ip
  options_eq : b.options = a.options
  data_eq : b.data = a.data

variable [DecidableEq ι] (ifaces : Ifaces ι) (rtable : List (RtEntry ι)) (fresh : Packet → Fresh)

/-- A packet that the router sends leaves, or waits for an address. -/
theorem Thread.exists_outgoing_ipSendPacket {s s' : Thread ι} {packet : Packet} {now : ℤ}
    (h : s.ipSendPacket ifaces rtable packet now = .ok s') :
    ∃ out, s'.outgoing.Perm (out :: s.outgoing) ∧ packet.frame.SamePacket out.frame := by
  rw [ipSendPacket] at h
  cases hroute : longestPrefixMatch rtable (ntohl packet.frame.ip.daddr) with
  | none => simp [hroute] at h
  | some rt =>
      by_cases hgw : rt.gw = 0
      · simp only [hroute, hgw, ne_eq, not_true_eq_false, if_false, Except.ok.injEq] at h
        rw [← h]
        exact ⟨packet, s.outgoing_transmit s.cache rt.iface packet rfl, rfl, rfl, rfl⟩
      · simp only [hroute, hgw, ne_eq, not_false_eq_true, if_true] at h
        cases hheld : s.held with
        | true =>
            rw [ifaceSendPacketByArp_of_held ifaces hheld] at h
            exact absurd h (by simp)
        | false =>
            rw [ifaceSendPacketByArp_of_free ifaces hheld, Except.ok.injEq,
              Router.ifaceSendPacketByArp] at h
            rw [← h]
            cases s.cache.lookup rt.gw with
            | some mac =>
                exact ⟨_, s.outgoing_transmit s.cache rt.iface _ rfl, rfl, rfl, rfl⟩
            | none =>
                exact ⟨_, s.outgoing_appendPacket rt.iface rt.gw _ now, rfl, rfl, rfl⟩

/-- A message that is sent carries the packet that `icmp_send_packet` has built. -/
theorem Thread.exists_outgoing_icmpSendPacket {s s' : Thread ι} {inPkt : Packet}
    {type code : UInt8} {now : ℤ}
    (h : s.icmpSendPacket ifaces rtable fresh inPkt type code now = .ok s') :
    ∃ rt out, longestPrefixMatch rtable (ntohl inPkt.frame.ip.saddr) = some rt ∧
      s'.outgoing.Perm (out :: s.outgoing) ∧
      (icmpFrame (fresh inPkt) (ifaces.ip rt.iface) inPkt.frame type code).SamePacket
        out.frame := by
  rw [icmpSendPacket] at h
  cases hroute : longestPrefixMatch rtable (ntohl inPkt.frame.ip.saddr) with
  | none => simp [hroute] at h
  | some rt =>
      rw [hroute] at h
      obtain ⟨out, hout, hsame⟩ := exists_outgoing_ipSendPacket ifaces rtable h
      exact ⟨rt, out, rfl, hout, hsame⟩

end

/-! ## A router with one interface -/

/-- The interface has the address 10.0.1.9. -/
def oneIface : Ifaces Unit where
  mac := fun _ => Vector.replicate ETH_ALEN 1
  ip := fun _ => 0x0a000109

/-- The route to the network 10.0.1.0/24 of the interface. -/
def localRoute : RtEntry Unit := { dest := 0x0a000100, mask := 0xffffff00, gw := 0, iface := () }

theorem longestPrefixMatch_localRoute {dst : UInt32} (h : localRoute.matches dst = true) :
    longestPrefixMatch [localRoute] dst = some localRoute := by
  rw [longestPrefixMatch, List.foldl_cons, List.foldl_nil, matchRound, h]
  rfl

def Thread.init : Thread Unit where
  held := false
  cache := .init
  emitted := []
  replies := []

/-- All memory holds the same byte. -/
def Fresh.filled (b : UInt8) (packet : Packet) : Fresh where
  serial := packet.serial
  ipId := 0
  memory := fun _ => b
  behind := fun _ => b

end Router

end NetworkLabs
