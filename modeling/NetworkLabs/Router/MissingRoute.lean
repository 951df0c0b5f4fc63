import NetworkLabs.AddressTranslation.Sending
import NetworkLabs.Router.Messages
import NetworkLabs.Router.PrefixMatch

/-!
# Routes that are missing

The search for a route may find none. Only `handle_ip_packet` asks whether it has
found one, and only for the destination of the packet. The route back to the
source, which every message needs, and the route of a packet that the router
sends itself are taken for granted.
-/

namespace NetworkLabs

namespace Router

variable {ι : Type*}

/-! ## Calls that use routes -/

inductive RouteCall (ι : Type*) where
  | handleIpPacket (iface : ι) (packet : Packet) (now : ℤ)
  | icmpSendPacket (inPkt : Packet) (type code : UInt8) (now : ℤ)
  | ipSendPacket (packet : Packet) (now : ℤ)
  | sweep (now : ℤ)
  | natTranslatePacket (iface : ι) (datagram : Datagram) (now : ℤ)

section

variable [DecidableEq ι] (ifaces : Ifaces ι) (rtable : List (RtEntry ι)) (fresh : Packet → Fresh)
  (internalIface : ι)

/-- The calls other than those of the translator leave its table alone. -/
def Thread.performRoute (s : Thread ι) (nat : NatTable) :
    RouteCall ι → Except Halt (Thread ι × NatTable)
  | .handleIpPacket iface packet now => do
      let s ← s.handleIpPacket ifaces rtable fresh iface packet now
      return (s, nat)
  | .icmpSendPacket inPkt type code now => do
      let s ← s.icmpSendPacket ifaces rtable fresh inPkt type code now
      return (s, nat)
  | .ipSendPacket packet now => do
      let s ← s.ipSendPacket ifaces rtable packet now
      return (s, nat)
  | .sweep now => do
      let s ← s.arpcacheSweep ifaces rtable fresh now
      return (s, nat)
  | .natTranslatePacket iface datagram now =>
      s.natTranslatePacket ifaces rtable fresh internalIface nat iface now datagram

/-- The addresses to which the translator uses a route. -/
def Datagram.usedRoutes (nat : NatTable) : Datagram → List UInt32
  | .tcp _ p =>
      ntohl p.ip.saddr :: match longestPrefixMatch rtable (ntohl p.ip.saddr) with
        | none => []
        | some rt =>
            if p.ip.protocol = IPPROTO_TCP then [nat.destination p (rt.iface = internalIface)]
            else []
  | .other packet _ => [ntohl packet.frame.ip.saddr]

/-- The packet is answered by a message. -/
def isAnswered (iface : ι) (packet : Packet) : Bool :=
  isEchoRequest ifaces iface packet.frame ||
    (longestPrefixMatch rtable (ntohl packet.frame.ip.daddr)).isNone ||
    decide (packet.frame.ip.ttl ≤ 1)

/-- The addresses to which a call uses a route: the source of a packet that is
answered, and the destination of one that is sent. -/
def RouteCall.usedRoutes (cache : ArpCache ι) (nat : NatTable) : RouteCall ι → List UInt32
  | .handleIpPacket iface packet _ =>
      if isAnswered ifaces rtable iface packet then [ntohl packet.frame.ip.saddr]
      else [ntohl packet.frame.ip.daddr]
  | .icmpSendPacket inPkt _ _ _ => [ntohl inPkt.frame.ip.saddr]
  | .ipSendPacket packet _ => [ntohl packet.frame.ip.daddr]
  | .sweep _ => (Thread.givenUp cache).map fun packet => ntohl packet.frame.ip.saddr
  | .natTranslatePacket _ datagram _ => datagram.usedRoutes rtable internalIface nat

end

/-! ## What should become of them -/

/-- No route is looked at that is missing, and if one is missing then the call
comes to its end and nothing more is sent there. -/
structure DropsUnrouted (rtable : List (RtEntry ι)) (used : List UInt32) (s : Thread ι)
    (result : Except Halt (Thread ι × NatTable)) : Prop where
  ne_missingRoute : result ≠ .error .missingRoute
  dropped : ∀ dst ∈ used, longestPrefixMatch rtable dst = none →
    ∃ s' nat', result = .ok (s', nat') ∧
      ∀ out ∈ s'.outgoing, out ∈ s.outgoing ∨ ntohl out.frame.ip.daddr ≠ dst

/-- A call that stops where a route is missing, and only there, meets the demand
exactly if all routes that it uses are there. -/
theorem dropsUnrouted_iff {rtable : List (RtEntry ι)} {used : List UInt32} {s : Thread ι}
    {result : Except Halt (Thread ι × NatTable)}
    (hstop : ∀ dst ∈ used, longestPrefixMatch rtable dst = none → ∀ done, result ≠ .ok done)
    (hgo : (∀ dst ∈ used, longestPrefixMatch rtable dst ≠ none) → result ≠ .error .missingRoute) :
    DropsUnrouted rtable used s result ↔ ∀ dst ∈ used, HasRoute rtable dst := by
  simp only [← longestPrefixMatch_ne_none_iff]
  constructor
  · intro h dst hdst hmissing
    obtain ⟨s', nat', hdone, -⟩ := h.dropped dst hdst hmissing
    exact hstop dst hdst hmissing _ hdone
  · intro h
    exact ⟨hgo h, fun dst hdst hmissing => absurd hmissing (h dst hdst)⟩

/-- The same for a call that says so with its error. -/
theorem dropsUnrouted_iff_of_error {rtable : List (RtEntry ι)} {used : List UInt32} {s : Thread ι}
    {result : Except Halt (Thread ι × NatTable)}
    (h : result = .error .missingRoute ↔ ∃ dst ∈ used, longestPrefixMatch rtable dst = none) :
    DropsUnrouted rtable used s result ↔ ∀ dst ∈ used, HasRoute rtable dst := by
  apply dropsUnrouted_iff
  · intro dst hdst hmissing done hdone
    rw [h.mpr ⟨dst, hdst, hmissing⟩] at hdone
    exact absurd hdone (by simp)
  · intro hall hresult
    obtain ⟨dst, hdst, hmissing⟩ := h.mp hresult
    exact hall dst hdst hmissing

/-! ## Where the calls stop -/

namespace Thread

theorem haltOfHeld_eq_missingRoute_iff (rtable : List (RtEntry ι)) (dst : UInt32) :
    haltOfHeld rtable dst = some .missingRoute ↔ longestPrefixMatch rtable dst = none := by
  rw [haltOfHeld]
  cases longestPrefixMatch rtable dst with
  | none => exact iff_of_true rfl rfl
  | some rt =>
      refine iff_of_false ?_ (by simp)
      by_cases hgw : rt.gw = 0
      · simp [hgw]
      · simp [hgw]

variable [DecidableEq ι] (ifaces : Ifaces ι) (rtable : List (RtEntry ι)) (fresh : Packet → Fresh)
  (internalIface : ι) (s : Thread ι)

/-- The cache may be locked, but needs no route. -/
theorem ifaceSendPacketByArp_ne_missingRoute (iface : ι) (dstIp : UInt32) (packet : Packet)
    (now : ℤ) : s.ifaceSendPacketByArp ifaces iface dstIp packet now ≠ .error .missingRoute := by
  cases hheld : s.held with
  | false =>
      rw [ifaceSendPacketByArp_of_free ifaces hheld]
      simp
  | true =>
      rw [ifaceSendPacketByArp_of_held ifaces hheld, ne_eq, Except.error.injEq]
      decide

theorem ipSendPacket_eq_missingRoute_iff (packet : Packet) (now : ℤ) :
    s.ipSendPacket ifaces rtable packet now = .error .missingRoute ↔
      longestPrefixMatch rtable (ntohl packet.frame.ip.daddr) = none := by
  rw [ipSendPacket]
  cases hroute : longestPrefixMatch rtable (ntohl packet.frame.ip.daddr) with
  | none => exact iff_of_true rfl rfl
  | some rt =>
      refine iff_of_false ?_ (by simp)
      by_cases hgw : rt.gw = 0
      · simp [hgw]
      · simpa [hgw] using s.ifaceSendPacketByArp_ne_missingRoute ifaces rt.iface rt.gw packet now

/-- The message goes back to the source, so the second route is the first. -/
theorem icmpSendPacket_eq_missingRoute_iff (inPkt : Packet) (type code : UInt8) (now : ℤ) :
    s.icmpSendPacket ifaces rtable fresh inPkt type code now = .error .missingRoute ↔
      longestPrefixMatch rtable (ntohl inPkt.frame.ip.saddr) = none := by
  rw [icmpSendPacket]
  cases hroute : longestPrefixMatch rtable (ntohl inPkt.frame.ip.saddr) with
  | none => exact iff_of_true rfl rfl
  | some rt =>
      have hsend := s.ipSendPacket_eq_missingRoute_iff ifaces rtable {
        serial := (fresh inPkt).serial
        frame := icmpFrame (fresh inPkt) (ifaces.ip rt.iface) inPkt.frame type code } now
      rw [daddr_icmpFrame, hroute] at hsend
      exact hsend

theorem handleIpPacket_eq_missingRoute_iff (iface : ι) (packet : Packet) (now : ℤ) :
    s.handleIpPacket ifaces rtable fresh iface packet now = .error .missingRoute ↔
      isAnswered ifaces rtable iface packet = true ∧
        longestPrefixMatch rtable (ntohl packet.frame.ip.saddr) = none := by
  have hmessage := s.icmpSendPacket_eq_missingRoute_iff ifaces rtable fresh packet
  rw [handleIpPacket, isAnswered]
  by_cases hecho : isEchoRequest ifaces iface packet.frame = true
  · rw [if_pos hecho, hecho, hmessage]
    simp
  · rw [if_neg hecho, Bool.not_eq_true] at *
    rw [hecho]
    cases hroute : longestPrefixMatch rtable (ntohl packet.frame.ip.daddr) with
    | none => simp [hmessage]
    | some rt =>
        by_cases httl : packet.frame.ip.ttl ≤ 1
        · simp [httl, hmessage]
        · refine iff_of_false ?_ (by simp [httl])
          by_cases hgw : rt.gw = 0
          · simp [httl, hgw]
          · simpa [httl, hgw] using s.ifaceSendPacketByArp_ne_missingRoute ifaces rt.iface rt.gw
              { packet with frame := packet.frame.decrementTtl } now

/-- A sweep that has all routes may still wait for itself. -/
theorem arpcacheSweep_ne_missingRoute (now : ℤ)
    (h : ∀ packet ∈ givenUp s.cache,
      longestPrefixMatch rtable (ntohl packet.frame.ip.saddr) ≠ none) :
    s.arpcacheSweep ifaces rtable fresh now ≠ .error .missingRoute := by
  cases hheld : s.held with
  | false =>
      rw [ne_eq, (endsAs_arpcacheSweep ifaces rtable fresh hheld now).eq_error_iff, haltOf]
      intro hfirst
      obtain ⟨packet, hmem, hmissing⟩ := List.exists_of_findSome?_eq_some hfirst
      exact h packet hmem ((haltOfHeld_eq_missingRoute_iff rtable _).mp hmissing)
  | true =>
      rw [arpcacheSweep, lock_of_held hheld]
      change (Except.error Halt.relocked : Except Halt (Thread ι)) ≠ _
      rw [ne_eq, Except.error.injEq]
      decide

/-- A sweep that gives up a packet without a route back stops there or before. -/
theorem arpcacheSweep_stops (now : ℤ) {packet : Packet} (hmem : packet ∈ givenUp s.cache)
    (hmissing : longestPrefixMatch rtable (ntohl packet.frame.ip.saddr) = none) :
    ∃ e, s.arpcacheSweep ifaces rtable fresh now = .error e := by
  cases hheld : s.held with
  | false =>
      have hends := endsAs_arpcacheSweep ifaces rtable fresh hheld now
      have hhalt := (haltOfHeld_eq_missingRoute_iff rtable _).mpr hmissing
      cases hstop : haltOf ifaces rtable s.cache (.sweep now) with
      | none =>
          rw [haltOf, List.findSome?_eq_none_iff] at hstop
          rw [hstop packet hmem] at hhalt
          exact absurd hhalt (by simp)
      | some e => exact ⟨e, (hends.eq_error_iff e).mpr hstop⟩
  | true =>
      rw [arpcacheSweep, lock_of_held hheld]
      exact ⟨.relocked, rfl⟩

/-- The translator stops at the first of its two routes that is missing. -/
theorem natTranslatePacket_eq_missingRoute_iff (nat : NatTable) (iface : ι) (now : ℤ)
    (datagram : Datagram) :
    s.natTranslatePacket ifaces rtable fresh internalIface nat iface now datagram =
        .error .missingRoute ↔
      ∃ dst ∈ datagram.usedRoutes rtable internalIface nat,
        longestPrefixMatch rtable dst = none := by
  cases datagram with
  | other packet hprotocol =>
      rw [natTranslatePacket, Datagram.usedRoutes]
      cases hroute : longestPrefixMatch rtable (ntohl packet.frame.ip.saddr) with
      | none => simp [hroute]
      | some rt => simp [hroute]
  | tcp envelope p =>
      rw [natTranslatePacket, Datagram.usedRoutes]
      cases hroute : longestPrefixMatch rtable (ntohl p.ip.saddr) with
      | none => simp [NatTable.natTranslatePacket, NatTable.getPacketDirection, hroute]
      | some rt =>
          rw [NatTable.natTranslatePacket_of_route rtable internalIface nat iface p now hroute]
          by_cases hprotocol : p.ip.protocol = IPPROTO_TCP
          · have hdaddr := nat.daddr_doTranslation p (rt.iface = internalIface) now
            have hsend := s.ipSendPacket_eq_missingRoute_iff ifaces rtable (envelope.seal
              (nat.doTranslation p (if rt.iface = internalIface then .dirOut else .dirIn) now).2)
              now
            have hseal : ∀ q, (envelope.seal q).frame.ip.daddr = q.ip.daddr := fun q => rfl
            rw [hseal, hdaddr] at hsend
            simp only [hprotocol, ne_eq, not_true_eq_false, if_false, if_true]
            rw [Halting.bind_pure_eq_error_iff, hsend]
            simp [hroute]
          · simp [hprotocol, hroute]

end Thread

/-! ## When no missing route is looked at -/

section

variable [DecidableEq ι] (ifaces : Ifaces ι) (rtable : List (RtEntry ι)) (fresh : Packet → Fresh)
  (internalIface : ι)

end

end Router

end NetworkLabs
