import NetworkLabs.Router.Messages

/-!
# Error messages

A message about a packet should be determined by it. Four bytes of its ICMP
header are not: the store that should clear them begins behind the header and is
covered by the quotation, so that they are what the memory held before.
-/

namespace NetworkLabs

namespace Router

/-- The message about a packet: the type and the code, four zero bytes, the IP
header of the packet with its options, and the first 8 bytes of its data. -/
structure IsErrorMessage (type code : UInt8) (inPkt message : Frame) : Prop where
  data_eq : ∃ ck : UInt16, message.data = [type, code] ++ LittleEndian.bytes 2 ck.toNat ++
    (List.replicate 4 0 ++ (inPkt.ipHeader ++ inPkt.data.take 8))
  hdrSize_eq : message.ip.hdrSize = 20
  totLen_eq : (ntohs message.ip.totLen).toNat = 20 + 8 + 4 * inPkt.ip.ihl.toNat + 8
  protocol_eq : message.ip.protocol = IPPROTO_ICMP
  daddr_eq : message.ip.daddr = inPkt.ip.saddr
  ip_verifies : checksum message.ipHeader 0 = 0
  icmp_verifies : checksum message.data 0 = 0

/-- It is no matter of the Ethernet header. -/
theorem Frame.SamePacket.isErrorMessage_iff {a b : Frame} (h : a.SamePacket b) (type code : UInt8)
    (inPkt : Frame) : IsErrorMessage type code inPkt b ↔ IsErrorMessage type code inPkt a := by
  obtain ⟨hip, hoptions, hdata⟩ := h
  have hheader : b.ipHeader = a.ipHeader := by
    rw [Frame.ipHeader, Frame.ipHeader, hip, hoptions]
  constructor
  · intro hb
    exact {
      data_eq := hdata ▸ hb.data_eq
      hdrSize_eq := hip ▸ hb.hdrSize_eq
      totLen_eq := hip ▸ hb.totLen_eq
      protocol_eq := hip ▸ hb.protocol_eq
      daddr_eq := hip ▸ hb.daddr_eq
      ip_verifies := hheader ▸ hb.ip_verifies
      icmp_verifies := hdata ▸ hb.icmp_verifies }
  · intro ha
    exact {
      data_eq := hdata.symm ▸ ha.data_eq
      hdrSize_eq := hip.symm ▸ ha.hdrSize_eq
      totLen_eq := hip.symm ▸ ha.totLen_eq
      protocol_eq := hip.symm ▸ ha.protocol_eq
      daddr_eq := hip.symm ▸ ha.daddr_eq
      ip_verifies := hheader.symm ▸ ha.ip_verifies
      icmp_verifies := hdata.symm ▸ ha.icmp_verifies }

theorem restOfHeader_eq_zero_iff (fresh : Fresh) :
    fresh.restOfHeader = List.replicate 4 0 ↔ ∀ i, 4 ≤ i → i < 8 → fresh.memory i = 0 := by
  rw [Fresh.restOfHeader, List.eq_replicate_iff]
  simp only [List.length_map, List.length_range, true_and, List.mem_map, List.mem_range]
  constructor
  · intro h i hle hlt
    exact h _ ⟨i - 4, by omega, by rw [Nat.add_sub_cancel' hle]⟩
  · rintro h b ⟨i, hi, rfl⟩
    exact h _ (Nat.le_add_right 4 i) (by omega)

/-- The message is right exactly if the four bytes were zero before. -/
theorem isErrorMessage_icmpFrame_iff (fresh : Fresh) (ifaceIp : UInt32) (inPkt : Frame)
    (type code : UInt8) (htype : type ≠ ICMP_ECHOREPLY) (hdata : 8 ≤ inPkt.data.length) :
    IsErrorMessage type code inPkt (icmpFrame fresh ifaceIp inPkt type code) ↔
      ∀ i, 4 ≤ i → i < 8 → fresh.memory i = 0 := by
  obtain ⟨ck, hck, hverifies⟩ := icmpData_error fresh inPkt type code htype hdata
  rw [← restOfHeader_eq_zero_iff]
  constructor
  · intro h
    obtain ⟨ck', hck'⟩ := h.data_eq
    have hsame := hck.symm.trans hck'
    have hrest := (List.append_inj hsame (by simp)).2
    exact (List.append_inj hrest (by simp [Fresh.restOfHeader])).1
  · intro hzero
    rw [hzero] at hck
    exact {
      data_eq := ⟨ck, hck⟩
      hdrSize_eq := rfl
      totLen_eq := by
        have hihl := inPkt.ip.ihl.isLt
        change (ntohs (htons (UInt16.ofNat (20 + icmpLength inPkt type)))).toNat = _
        rw [ntohs_htons, icmpLength, if_neg htype, ICMP_HDR_SIZE, ICMP_COPIED_DATA_LEN,
          Iphdr.hdrSize, UInt16.toNat_ofNat', Nat.mod_eq_of_lt (by omega)]
        omega
      protocol_eq := rfl
      daddr_eq := htonl_ntohl _
      ip_verifies := checksum_icmpFrame fresh ifaceIp inPkt type code
      icmp_verifies := hverifies }

/-! ## What triggers a message -/

section

variable {ι : Type*} [DecidableEq ι] (ifaces : Ifaces ι) (rtable : List (RtEntry ι))
  (fresh : Packet → Fresh)

/-- A call in which a packet triggers an error message: it is handled and has come
to its last hop or has no route, or it is among those that the sweep gives up,
and its turn has come. -/
inductive Triggers (s : Thread ι) :
    Except Halt (Thread ι) → Packet → UInt8 → UInt8 → Prop where
  | timeExceeded (iface : ι) (packet : Packet) (now : ℤ)
      (hecho : isEchoRequest ifaces iface packet.frame = false)
      (hroute : longestPrefixMatch rtable (ntohl packet.frame.ip.daddr) ≠ none)
      (httl : packet.frame.ip.ttl ≤ 1) :
      Triggers s (s.handleIpPacket ifaces rtable fresh iface packet now) packet
        ICMP_TIME_EXCEEDED ICMP_EXC_TTL
  | netUnreach (iface : ι) (packet : Packet) (now : ℤ)
      (hecho : isEchoRequest ifaces iface packet.frame = false)
      (hroute : longestPrefixMatch rtable (ntohl packet.frame.ip.daddr) = none) :
      Triggers s (s.handleIpPacket ifaces rtable fresh iface packet now) packet
        ICMP_DEST_UNREACH ICMP_NET_UNREACH
  | hostUnreach (packet : Packet) (now : ℤ) (hgivenUp : packet ∈ Thread.givenUp s.cache) :
      Triggers s
        (s.icmpSendPacket ifaces rtable fresh packet ICMP_DEST_UNREACH ICMP_HOST_UNREACH now)
        packet ICMP_DEST_UNREACH ICMP_HOST_UNREACH

variable {ifaces rtable fresh} {s s' : Thread ι} {result : Except Halt (Thread ι)}
  {packet : Packet} {type code : UInt8}

theorem handleIpPacket_of_lastHop (s : Thread ι) (iface : ι) (packet : Packet) (now : ℤ)
    (hecho : isEchoRequest ifaces iface packet.frame = false)
    (hroute : longestPrefixMatch rtable (ntohl packet.frame.ip.daddr) ≠ none)
    (httl : packet.frame.ip.ttl ≤ 1) :
    s.handleIpPacket ifaces rtable fresh iface packet now =
      s.icmpSendPacket ifaces rtable fresh packet ICMP_TIME_EXCEEDED ICMP_EXC_TTL now := by
  obtain ⟨rt, hrt⟩ := Option.ne_none_iff_exists'.mp hroute
  rw [Thread.handleIpPacket, hecho, if_neg Bool.false_ne_true, hrt]
  exact if_pos httl

theorem Triggers.type_ne (h : Triggers ifaces rtable fresh s result packet type code) :
    type ≠ ICMP_ECHOREPLY := by
  cases h with
  | timeExceeded => decide
  | netUnreach => decide
  | hostUnreach => decide

/-- The message is sent by `icmp_send_packet`. -/
theorem Triggers.eq_icmpSendPacket (h : Triggers ifaces rtable fresh s result packet type code) :
    ∃ now, result = s.icmpSendPacket ifaces rtable fresh packet type code now := by
  cases h with
  | timeExceeded iface packet now hecho hroute httl =>
      exact ⟨now, handleIpPacket_of_lastHop s iface packet now hecho hroute httl⟩
  | netUnreach iface packet now hecho hroute =>
      refine ⟨now, ?_⟩
      rw [Thread.handleIpPacket, hecho, if_neg Bool.false_ne_true, hroute]
  | hostUnreach packet now hgivenUp => exact ⟨now, rfl⟩

/-- The message that a packet triggers is determined by the packet exactly if four
bytes of the memory for it were zero. -/
theorem Triggers.hasSent_errorMessage_iff
    (h : Triggers ifaces rtable fresh s result packet type code) (hresult : result = .ok s')
    (hdata : 8 ≤ packet.frame.data.length) :
    s.HasSent s' (IsErrorMessage type code packet.frame) ↔
      ∀ i, 4 ≤ i → i < 8 → (fresh packet).memory i = 0 := by
  obtain ⟨now, rfl⟩ := h.eq_icmpSendPacket
  obtain ⟨rt, out, -, hout, hsame⟩ :=
    Thread.exists_outgoing_icmpSendPacket ifaces rtable fresh hresult
  rw [Thread.hasSent_iff _ hout, hsame.isErrorMessage_iff]
  exact isErrorMessage_icmpFrame_iff (fresh packet) _ packet.frame type code h.type_ne hdata

/-- A message to a host of the network of an interface. -/
theorem icmpSendPacket_of_direct (s : Thread ι) (packet : Packet) (type code : UInt8) (now : ℤ)
    {rt : RtEntry ι} (hroute : longestPrefixMatch rtable (ntohl packet.frame.ip.saddr) = some rt)
    (hgw : rt.gw = 0) :
    s.icmpSendPacket ifaces rtable fresh packet type code now = .ok (s.emit [.transmit rt.iface {
      serial := (fresh packet).serial
      frame := icmpFrame (fresh packet) (ifaces.ip rt.iface) packet.frame type code }]) := by
  simp only [Thread.icmpSendPacket, hroute, Thread.ipSendPacket, daddr_icmpFrame, hgw, ne_eq,
    not_true_eq_false, if_false]

/-! ## The messages of a sweep -/

variable (ifaces rtable fresh) in
/-- The packet is the host-unreachable message about another one. -/
def Reports (inPkt message : Packet) : Prop :=
  ∃ rt, longestPrefixMatch rtable (ntohl inPkt.frame.ip.saddr) = some rt ∧
    message.frame = icmpFrame (fresh inPkt) (ifaces.ip rt.iface) inPkt.frame
      ICMP_DEST_UNREACH ICMP_HOST_UNREACH

/-- The thread holds the lock, and has reported the packets. -/
structure HasReported (ifaces : Ifaces ι) (rtable : List (RtEntry ι)) (fresh : Packet → Fresh)
    (s : Thread ι) (packets : List Packet) (s' : Thread ι) : Prop where
  held : s'.held = true
  messages : ∃ messages, List.Forall₂ (Reports ifaces rtable fresh) packets messages ∧
    s'.transmitted = s.transmitted ++ messages

theorem HasReported.report {s mid s' : Thread ι} {packets : List Packet} {now : ℤ}
    (h : HasReported ifaces rtable fresh s packets mid)
    (hok : mid.icmpSendPacket ifaces rtable fresh packet ICMP_DEST_UNREACH ICMP_HOST_UNREACH now =
      .ok s') :
    HasReported ifaces rtable fresh s (packets ++ [packet]) s' := by
  obtain ⟨messages, hall, hsent⟩ := h.messages
  have hends := Thread.endsAs_icmpSendPacket_of_held ifaces rtable fresh h.held packet
    ICMP_DEST_UNREACH ICMP_HOST_UNREACH now
  cases hroute : longestPrefixMatch rtable (ntohl packet.frame.ip.saddr) with
  | none =>
      rw [Thread.icmpSendPacket, hroute] at hok
      exact absurd hok (by simp)
  | some rt =>
      by_cases hgw : rt.gw = 0
      · rw [icmpSendPacket_of_direct mid packet _ _ now hroute hgw, Except.ok.injEq] at hok
        let message : Packet := {
          serial := (fresh packet).serial
          frame := icmpFrame (fresh packet) (ifaces.ip rt.iface) packet.frame
            ICMP_DEST_UNREACH ICMP_HOST_UNREACH }
        have hreports : Reports ifaces rtable fresh packet message := ⟨rt, hroute, rfl⟩
        refine ⟨hok ▸ h.held, messages ++ [message],
          List.rel_append hall (.cons hreports .nil), ?_⟩
        rw [← hok, Thread.transmitted_emit, hsent, List.append_assoc]
        rfl
      · rw [Thread.haltOfHeld, hroute] at hends
        simp only [hgw, ne_eq, not_false_eq_true, if_true] at hends
        rw [(hends.eq_error_iff .relocked).mpr rfl] at hok
        exact absurd hok (by simp)

/-- The packets of a request that is given up. -/
def ArpReq.givenUp (req : ArpReq ι) : List Packet :=
  if req.retries > ARP_REQUEST_MAX_RETRIES then req.cachedPackets else []

/-- A round of the sweep reports the packets of a request that is given up. -/
theorem HasReported.sweepRound {s : Thread ι} {packets : List Packet} {now : ℤ}
    {st st' : Thread ι × List (ArpReq ι)} {req : ArpReq ι}
    (h : HasReported ifaces rtable fresh s packets st.1)
    (hok : Thread.sweepRound ifaces rtable fresh now st req = .ok st') :
    HasReported ifaces rtable fresh s (packets ++ req.givenUp) st'.1 := by
  rw [Thread.sweepRound] at hok
  rw [ArpReq.givenUp]
  by_cases hretries : req.retries > ARP_REQUEST_MAX_RETRIES
  · rw [if_pos hretries] at hok ⊢
    cases hloop : req.cachedPackets.foldlM (fun s packet => s.icmpSendPacket ifaces rtable fresh
        packet ICMP_DEST_UNREACH ICMP_HOST_UNREACH now) st.1 with
    | error e =>
        rw [hloop] at hok
        exact absurd hok (by simp [bind, Except.bind])
    | ok mid =>
        rw [hloop] at hok
        cases hok
        exact Halting.foldlM_of_ok (fun _ _ _ _ hdone hround => hdone.report hround) _ packets h
          hloop
  · rw [if_neg hretries] at hok ⊢
    rw [List.append_nil]
    split_ifs at hok
    · cases hok
      obtain ⟨messages, hall, hsent⟩ := h.messages
      refine ⟨h.held, messages, hall, ?_⟩
      rw [Thread.transmitted_emit, ← hsent]
      exact List.append_nil _
    · cases hok
      exact h

/-- A sweep that comes to its end has transmitted one message for each packet that
it gives up, in their order, and nothing else. -/
theorem arpcacheSweep_reports {now : ℤ}
    (hok : s.arpcacheSweep ifaces rtable fresh now = .ok s') :
    ∃ messages, List.Forall₂ (Reports ifaces rtable fresh) (Thread.givenUp s.cache) messages ∧
      s'.transmitted = s.transmitted ++ messages := by
  cases hheld : s.held with
  | true =>
      rw [Thread.arpcacheSweep, Thread.lock_of_held hheld] at hok
      exact absurd hok (by simp [bind, Except.bind])
  | false =>
      rw [Thread.arpcacheSweep, Thread.lock_of_free hheld] at hok
      let start : Thread ι := { s with
        held := true
        cache := { s.cache with entries := fun i => sweepEntry now (s.cache.entries i) } }
      let inv : List (ArpReq ι) → Thread ι × List (ArpReq ι) → Prop := fun done st =>
        HasReported ifaces rtable fresh s (done.flatMap ArpReq.givenUp) st.1
      have hstart : inv [] (start, []) := ⟨rfl, [], .nil, (List.append_nil _).symm⟩
      have hround : ∀ done st req st', inv done st →
          Thread.sweepRound ifaces rtable fresh now st req = .ok st' → inv (done ++ [req]) st' := by
        intro done st req st' hst hround
        change HasReported ifaces rtable fresh s _ st'.1
        rw [List.flatMap_append, List.flatMap_singleton]
        exact HasReported.sweepRound hst hround
      change (s.cache.reqList.foldlM (Thread.sweepRound ifaces rtable fresh now)
        (start, []) >>= _) = _ at hok
      cases hloop : s.cache.reqList.foldlM (Thread.sweepRound ifaces rtable fresh now)
          (start, []) with
      | error e =>
          rw [hloop] at hok
          exact absurd hok (by simp [bind, Except.bind])
      | ok st =>
          rw [hloop] at hok
          cases hok
          have hdone : inv s.cache.reqList st :=
            Halting.foldlM_of_ok hround s.cache.reqList [] hstart hloop
          exact hdone.messages

/-- Where related elements satisfy `Q` exactly if the left one satisfies `P`, all
pairs do exactly if all on the left do. -/
theorem forall₂_iff_forall {α β : Type*} {R Q : α → β → Prop} {P : α → Prop} {l : List α}
    {u : List β} (h : List.Forall₂ R l u) (hiff : ∀ a ∈ l, ∀ b, R a b → (Q a b ↔ P a)) :
    List.Forall₂ Q l u ↔ ∀ a ∈ l, P a := by
  induction h with
  | nil => simp
  | cons hab htail ih =>
      rw [List.forall₂_cons, List.forall_mem_cons, hiff _ List.mem_cons_self _ hab,
        ih fun a ha => hiff a (List.mem_cons_of_mem _ ha)]

/-- The messages of a sweep are determined by the packets that it gives up exactly
if the memory for each was zero in its place. -/
theorem arpcacheSweep_errorMessages_iff {now : ℤ}
    (hok : s.arpcacheSweep ifaces rtable fresh now = .ok s')
    (hdata : ∀ packet ∈ Thread.givenUp s.cache, 8 ≤ packet.frame.data.length) :
    (∃ messages, s'.transmitted = s.transmitted ++ messages ∧
      List.Forall₂ (fun packet message : Packet => IsErrorMessage ICMP_DEST_UNREACH
        ICMP_HOST_UNREACH packet.frame message.frame) (Thread.givenUp s.cache) messages) ↔
      ∀ packet ∈ Thread.givenUp s.cache, ∀ i, 4 ≤ i → i < 8 → (fresh packet).memory i = 0 := by
  obtain ⟨messages, hreports, hsent⟩ := arpcacheSweep_reports hok
  have hright : ∀ packet ∈ Thread.givenUp s.cache, ∀ message,
      Reports ifaces rtable fresh packet message →
      (IsErrorMessage ICMP_DEST_UNREACH ICMP_HOST_UNREACH packet.frame message.frame ↔
        ∀ i, 4 ≤ i → i < 8 → (fresh packet).memory i = 0) := by
    rintro packet hmem message ⟨rt, -, hframe⟩
    rw [hframe]
    exact isErrorMessage_icmpFrame_iff (fresh packet) _ packet.frame _ _ (by decide)
      (hdata packet hmem)
  rw [← forall₂_iff_forall hreports hright]
  constructor
  · rintro ⟨messages', hsent', hall⟩
    rwa [List.append_cancel_left (hsent.symm.trans hsent')]
  · exact fun hall => ⟨messages, hsent, hall⟩

end

/-- A packet from 10.0.1.1 to 10.0.1.2 that has come to its last hop. -/
def lastHopFrame : Frame :=
  let frame := Frame.bare (Vector.replicate ETH_ALEN 1) (Vector.replicate ETH_ALEN 2) 0x0a000102
  { frame with
    ip := { frame.ip with ttl := 1, totLen := htons 28, saddr := htonl 0x0a000101 }
    data := [1, 2, 3, 4, 5, 6, 7, 8] }

theorem triggers_lastHop (fresh : Packet → Fresh) (s : Thread Unit) :
    Triggers oneIface [localRoute] fresh s
      (s.handleIpPacket oneIface [localRoute] fresh () ⟨0, lastHopFrame⟩ 0) ⟨0, lastHopFrame⟩
      ICMP_TIME_EXCEEDED ICMP_EXC_TTL := by
  apply Triggers.timeExceeded
  · rfl
  · rw [longestPrefixMatch_localRoute (by decide +kernel)]
    simp
  · decide

/-- The message about the packet. -/
def lastHopMessage (fresh : Packet → Fresh) : Packet where
  serial := (fresh ⟨0, lastHopFrame⟩).serial
  frame := icmpFrame (fresh ⟨0, lastHopFrame⟩) (oneIface.ip ()) lastHopFrame
    ICMP_TIME_EXCEEDED ICMP_EXC_TTL

theorem handleIpPacket_lastHop (fresh : Packet → Fresh) (s : Thread Unit) :
    s.handleIpPacket oneIface [localRoute] fresh () ⟨0, lastHopFrame⟩ 0 =
      .ok (s.emit [.transmit () (lastHopMessage fresh)]) := by
  rw [handleIpPacket_of_lastHop]
  · exact icmpSendPacket_of_direct s _ _ _ 0
      (longestPrefixMatch_localRoute (by decide +kernel)) rfl
  · rfl
  · rw [longestPrefixMatch_localRoute (by decide +kernel)]
    simp
  · decide

/-- The memory was zero. -/
theorem Triggers.hasSent_errorMessage_iff_lastHop :
    Thread.init.HasSent (Thread.init.emit [.transmit () (lastHopMessage (Fresh.filled 0))])
        (IsErrorMessage ICMP_TIME_EXCEEDED ICMP_EXC_TTL lastHopFrame) ↔
      ∀ i, 4 ≤ i → i < 8 → (Fresh.filled 0 ⟨0, lastHopFrame⟩).memory i = 0 :=
  (triggers_lastHop (Fresh.filled 0) .init).hasSent_errorMessage_iff
    (handleIpPacket_lastHop (Fresh.filled 0) .init) (by decide)

/-- The memory was not zero. -/
theorem not_errorMessage_lastHop :
    ¬ ∀ (ifaces : Ifaces Unit) (rtable : List (RtEntry Unit)) (fresh : Packet → Fresh)
      (s s' : Thread Unit) (result : Except Halt (Thread Unit)) (packet : Packet)
      (type code : UInt8), Triggers ifaces rtable fresh s result packet type code →
      result = .ok s' → 8 ≤ packet.frame.data.length →
      s.HasSent s' (IsErrorMessage type code packet.frame) := by
  intro h
  have hmessage := h _ _ _ _ _ _ _ _ _ (triggers_lastHop (Fresh.filled 1) .init)
    (handleIpPacket_lastHop (Fresh.filled 1) .init) (by decide)
  have hout := Thread.init.outgoing_transmit .init () (lastHopMessage (Fresh.filled 1)) rfl
  have hzero := (isErrorMessage_icmpFrame_iff _ _ lastHopFrame _ _ (by decide) (by decide)).mp
    ((Thread.hasSent_iff _ hout).mp hmessage) 4 (by decide) (by decide)
  exact absurd hzero (by decide)

end Router

end NetworkLabs
