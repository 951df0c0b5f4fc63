import NetworkLabs.Router.Messages

/-!
# Echo replies

The type and the code of a reply are stored first, and then the request is copied
over them. So the reply is another request. In all else it is right if the
request is without options, without padding behind it, and with the code 0, and
has come in on the interface to which the route to its source leads.
-/

namespace NetworkLabs

namespace Router

/-- The ICMP message in a frame, without the padding behind the IP packet. -/
def Frame.icmpMessage (frame : Frame) : List UInt8 :=
  frame.data.take ((ntohs frame.ip.totLen).toNat - frame.ip.hdrSize)

/-- The frame echoes a request with a message of some type and the code 0: the
identifier, the sequence number and the data are those of the request, and
nothing else follows. -/
structure IsEchoOf (type : UInt8) (address : UInt32) (request reply : Frame) : Prop where
  data_eq : ∃ ck : UInt16,
    reply.data = [type, 0] ++ LittleEndian.bytes 2 ck.toNat ++ request.icmpMessage.drop 4
  totLen_eq : (ntohs reply.ip.totLen).toNat = reply.ip.hdrSize + reply.data.length
  protocol_eq : reply.ip.protocol = IPPROTO_ICMP
  saddr_eq : ntohl reply.ip.saddr = address
  daddr_eq : reply.ip.daddr = request.ip.saddr
  ip_verifies : checksum reply.ipHeader 0 = 0
  icmp_verifies : checksum reply.data 0 = 0

/-! ## The type -/

/-- The type of a reply is that of the request. -/
theorem head?_icmpData_reply (fresh : Fresh) (inPkt : Frame) (code type : UInt8)
    (h : inPkt.data.head? = some type) :
    (icmpData fresh inPkt ICMP_ECHOREPLY code).head? = some type := by
  obtain ⟨data, hdata⟩ := List.head?_eq_some_iff.mp h
  simp only [icmpData, if_true]
  rw [hdata, store_zero _ (type :: data), store]
  rfl

theorem IsEchoOf.head?_data {type : UInt8} {address : UInt32} {request reply : Frame}
    (h : IsEchoOf type address request reply) : reply.data.head? = some type := by
  obtain ⟨ck, hck⟩ := h.data_eq
  rw [hck]
  rfl

section

variable {ι : Type*} [DecidableEq ι] (ifaces : Ifaces ι) (rtable : List (RtEntry ι))
  (fresh : Packet → Fresh)

/-- What answers an echo request is an echo request. -/
theorem exists_outgoing_of_isEchoRequest {s s' : Thread ι} {iface : ι} {packet : Packet} {now : ℤ}
    (h : isEchoRequest ifaces iface packet.frame = true)
    (hsent : s.handleIpPacket ifaces rtable fresh iface packet now = .ok s') :
    ∃ out, s'.outgoing.Perm (out :: s.outgoing) ∧
      out.frame.data.head? = some ICMP_ECHOREQUEST := by
  rw [Thread.handleIpPacket, if_pos h] at hsent
  obtain ⟨rt, out, -, hout, hsame⟩ :=
    Thread.exists_outgoing_icmpSendPacket ifaces rtable fresh hsent
  refine ⟨out, hout, ?_⟩
  rw [isEchoRequest, Bool.and_eq_true, Bool.and_eq_true] at h
  rw [hsame.data_eq]
  exact head?_icmpData_reply (fresh packet) packet.frame 0 _ (beq_iff_eq.mp h.1.2)

/-- No echo request is answered with an echo reply. -/
theorem handleIpPacket_never_replies (s : Thread ι) (iface : ι) (packet : Packet) (now : ℤ)
    (h : isEchoRequest ifaces iface packet.frame = true) :
    ¬ ∃ s', s.handleIpPacket ifaces rtable fresh iface packet now = .ok s' ∧
      s.HasSent s' (IsEchoOf ICMP_ECHOREPLY (ifaces.ip iface) packet.frame) := by
  rintro ⟨s', hsent, hreply⟩
  obtain ⟨out, hout, htype⟩ := exists_outgoing_of_isEchoRequest ifaces rtable fresh h hsent
  rw [((Thread.hasSent_iff _ hout).mp hreply).head?_data] at htype
  exact absurd htype (by decide)

end

/-- A request from 10.0.1.1 to the interface 10.0.1.9. -/
def pingFrame : Frame :=
  let frame := Frame.bare (Vector.replicate ETH_ALEN 1) (Vector.replicate ETH_ALEN 2) 0x0a000109
  { frame with
    ip := { frame.ip with
      protocol := IPPROTO_ICMP
      totLen := htons 28
      saddr := htonl 0x0a000101 }
    data := [ICMP_ECHOREQUEST, 0, 0xf5, 0xff, 0, 1, 0, 1] }

/-- The request is answered with itself. -/
theorem handleIpPacket_never_replies_ping :
    ¬ ∃ s', Thread.init.handleIpPacket oneIface [localRoute] (Fresh.filled 0) () ⟨0, pingFrame⟩ 0 =
        .ok s' ∧
      Thread.init.HasSent s' (IsEchoOf ICMP_ECHOREPLY (oneIface.ip ()) pingFrame) :=
  handleIpPacket_never_replies oneIface [localRoute] (Fresh.filled 0) .init () ⟨0, pingFrame⟩ 0
    (by decide +kernel)

/-- It should be answered with a reply. -/
theorem not_replies_ping :
    ¬ ∀ (ifaces : Ifaces Unit) (rtable : List (RtEntry Unit)) (fresh : Packet → Fresh)
      (s : Thread Unit) (packet : Packet) (now : ℤ),
      isEchoRequest ifaces () packet.frame = true →
      ∃ s', s.handleIpPacket ifaces rtable fresh () packet now = .ok s' ∧
        s.HasSent s' (IsEchoOf ICMP_ECHOREPLY (ifaces.ip ()) packet.frame) := by
  intro h
  have hecho : isEchoRequest oneIface () pingFrame = true := by decide +kernel
  obtain ⟨s', hsent, hreply⟩ :=
    h oneIface [localRoute] (Fresh.filled 0) .init ⟨0, pingFrame⟩ 0 hecho
  obtain ⟨out, hout, htype⟩ := exists_outgoing_of_isEchoRequest oneIface _ _ hecho hsent
  rw [((Thread.hasSent_iff _ hout).mp hreply).head?_data] at htype
  exact absurd htype (by decide)

/-! ## All else -/

theorem exists_code {request : Frame} (htype : request.data.head? = some ICMP_ECHOREQUEST)
    (hlength : 2 ≤ request.data.length) :
    ∃ code, request.data.take 2 = [ICMP_ECHOREQUEST, code] ∧ request.data[1]? = some code := by
  obtain ⟨rest, hrest⟩ := List.head?_eq_some_iff.mp htype
  cases rest with
  | nil =>
      rw [hrest, List.length_singleton] at hlength
      omega
  | cons code rest => exact ⟨code, by rw [hrest]; rfl, by rw [hrest]; rfl⟩

/-- A request with the code 0 that fills its frame is copied without loss. -/
theorem icmpData_of_code_zero (fresh : Fresh) {request : Frame}
    (htype : request.data.head? = some ICMP_ECHOREQUEST) (hcode : request.data[1]? = some 0)
    (hsize : request.ip.hdrSize = 20) (h8 : 8 ≤ request.data.length)
    (hall : (ntohs request.ip.totLen).toNat = request.ip.hdrSize + request.data.length)
    (hlength : request.ip.hdrSize + request.data.length < 2 ^ 16) :
    ∃ ck : UInt16, icmpData fresh request ICMP_ECHOREPLY 0 =
      [ICMP_ECHOREQUEST, 0] ++ LittleEndian.bytes 2 ck.toNat ++
        request.icmpMessage.drop 4 := by
  obtain ⟨ck, hdata, -⟩ := icmpData_reply fresh request 0 (by omega) hlength
  obtain ⟨code, htake, hget⟩ := exists_code htype (by omega)
  have hbehind : fresh.behindReply request = [] := by
    rw [Fresh.behindReply, hsize]
    rfl
  have hmessage : request.icmpMessage = request.data := by
    rw [Frame.icmpMessage, hall, Nat.add_sub_cancel_left, List.take_length]
  rw [hget, Option.some.injEq] at hcode
  rw [hbehind, List.append_nil, htake, hcode] at hdata
  exact ⟨ck, hmessage ▸ hdata⟩

/-- The length in the header of a reply to a request without options. -/
theorem totLen_icmpFrame_reply (fresh : Fresh) (ifaceIp : UInt32) {request : Frame}
    (hsize : request.ip.hdrSize = 20) :
    (icmpFrame fresh ifaceIp request ICMP_ECHOREPLY 0).ip.totLen =
      htons (UInt16.ofNat (20 + request.data.length)) := by
  have hsum : icmpLength request ICMP_ECHOREPLY = request.data.length := by
    rw [icmpLength, if_pos rfl, hsize, Nat.add_sub_cancel_left]
  exact congrArg (fun n => htons (UInt16.ofNat (20 + n))) hsum

/-- In all but its type the message is right exactly in these cases. -/
theorem isEchoOf_request_iff (fresh : Fresh) (ifaceIp address : UInt32) (request : Frame)
    (htype : request.data.head? = some ICMP_ECHOREQUEST)
    (hle : request.ip.hdrSize + 8 ≤ (ntohs request.ip.totLen).toNat)
    (htotal : (ntohs request.ip.totLen).toNat ≤ request.ip.hdrSize + request.data.length)
    (hlength : request.ip.hdrSize + request.data.length < 2 ^ 16) :
    IsEchoOf ICMP_ECHOREQUEST address request
        (icmpFrame fresh ifaceIp request ICMP_ECHOREPLY 0) ↔
      request.ip.hdrSize = 20 ∧
        (ntohs request.ip.totLen).toNat = request.ip.hdrSize + request.data.length ∧
        request.data[1]? = some 0 ∧ ifaceIp = address := by
  obtain ⟨ck, hdata, hverifies⟩ := icmpData_reply fresh request 0 (by omega) hlength
  constructor
  · intro h
    have hoptions : request.ip.hdrSize = 20 + request.options.length := request.options_length
    obtain ⟨code, htake, hget⟩ := exists_code htype (by omega)
    obtain ⟨ck', hck⟩ := h.data_eq
    have hsame := hdata.symm.trans hck
    have hlen := congrArg List.length hsame
    simp only [List.length_append, List.length_take, List.length_drop, LittleEndian.length_bytes,
      Fresh.behindReply, List.length_map, List.length_range, Frame.icmpMessage,
      List.length_cons, List.length_nil] at hlen
    have hcode := congrArg (fun data => data[1]?) hsame
    rw [htake] at hcode
    refine ⟨by omega, by omega, hget.trans hcode, ?_⟩
    have hsaddr := h.saddr_eq
    change ntohl (htonl ifaceIp) = address at hsaddr
    rwa [ntohl_htonl] at hsaddr
  · rintro ⟨hsize, hall, hcode, rfl⟩
    have hdataLength : (icmpData fresh request ICMP_ECHOREPLY 0).length =
        request.data.length := by
      rw [hdata, Fresh.behindReply, hsize]
      simp only [List.length_append, List.length_take, List.length_drop,
        LittleEndian.length_bytes, List.length_map, List.length_range]
      omega
    exact {
      data_eq := icmpData_of_code_zero fresh htype hcode hsize (by omega) hall hlength
      totLen_eq := by
        rw [totLen_icmpFrame_reply fresh ifaceIp hsize, ntohs_htons, UInt16.toNat_ofNat',
          Nat.mod_eq_of_lt (by omega)]
        exact congrArg (20 + ·) hdataLength.symm
      protocol_eq := rfl
      saddr_eq := ntohl_htonl _
      daddr_eq := htonl_ntohl _
      ip_verifies := checksum_icmpFrame fresh _ request _ _
      icmp_verifies := hverifies }

end Router

end NetworkLabs
