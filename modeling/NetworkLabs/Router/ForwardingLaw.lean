import NetworkLabs.Router.ArpTable
import NetworkLabs.Router.Checksum
import NetworkLabs.Router.Forwarding
import NetworkLabs.Router.PendingPackets

/-!
# What becomes of a packet that is forwarded

The route of a packet is the first of those with the longest mask that match its
destination. The next hop is the gateway of the route, or the destination itself
if there is none. A packet that is forwarded leaves on the interface of the
route, or waits there for the next hop, and only its time to live and the
checksum of its header have changed.

A route for every destination has the mask 0, which the search never takes. To a
host of its own network the router sends without asking for the address, and
with the Ethernet header that has come in.
-/

namespace NetworkLabs

namespace Router

variable {ι : Type*}

/-! ## Routes -/

/-- The route is the first with the longest mask among those that match. -/
def IsMatchedRoute (rtable : List (RtEntry ι)) (dst : UInt32) (rt : RtEntry ι) : Prop :=
  ∃ before after, rtable = before ++ rt :: after ∧ rt.matches dst = true ∧
    (∀ r ∈ before, r.matches dst = true → r.mask < rt.mask) ∧
    ∀ r ∈ after, r.matches dst = true → r.mask ≤ rt.mask

theorem foldl_matchRound_of_le (dst : UInt32) (routes : List (RtEntry ι))
    (st : UInt32 × Option (RtEntry ι)) (h : ∀ r ∈ routes, r.matches dst = true → r.mask ≤ st.1) :
    routes.foldl (matchRound dst) st = st := by
  induction routes with
  | nil => rfl
  | cons r routes ih =>
      have hround : matchRound dst st r = st := by
        rw [matchRound, if_neg]
        intro hboth
        rw [Bool.and_eq_true, decide_eq_true_eq] at hboth
        exact absurd (h r List.mem_cons_self hboth.2) (UInt32.not_le.mpr hboth.1)
      rw [List.foldl_cons, hround]
      exact ih fun r' hr' => h r' (List.mem_cons_of_mem r hr')

theorem foldl_matchRound_lt (dst : UInt32) (routes : List (RtEntry ι))
    (st : UInt32 × Option (RtEntry ι)) (bound : UInt32) (hst : st.1 < bound)
    (h : ∀ r ∈ routes, r.matches dst = true → r.mask < bound) :
    (routes.foldl (matchRound dst) st).1 < bound := by
  induction routes generalizing st with
  | nil => exact hst
  | cons r routes ih =>
      rw [List.foldl_cons]
      apply ih
      · rw [matchRound]
        split_ifs with hboth
        · rw [Bool.and_eq_true] at hboth
          exact h r List.mem_cons_self hboth.2
        · exact hst
      · exact fun r' hr' => h r' (List.mem_cons_of_mem r hr')

/-- The search finds the matched route, unless its mask is 0. -/
theorem longestPrefixMatch_eq (rtable : List (RtEntry ι)) (dst : UInt32) (rt : RtEntry ι)
    (h : IsMatchedRoute rtable dst rt) :
    longestPrefixMatch rtable dst = if rt.mask = 0 then none else some rt := by
  obtain ⟨before, after, rfl, hmatches, hbefore, hafter⟩ := h
  rw [longestPrefixMatch]
  split_ifs with hmask
  · rw [foldl_matchRound_of_le]
    intro r hr hr'
    rw [hmask] at hbefore hafter
    rcases List.mem_append.mp hr with hr | hr
    · exact UInt32.le_of_lt (hbefore r hr hr')
    · rcases List.mem_cons.mp hr with rfl | hr
      · rw [hmask]
        exact UInt32.le_refl 0
      · exact hafter r hr hr'
  · have hpos : 0 < rt.mask := UInt32.pos_iff_ne_zero.mpr hmask
    have hlt := foldl_matchRound_lt dst before (0, none) rt.mask hpos hbefore
    have hround : ∀ st : UInt32 × Option (RtEntry ι), st.1 < rt.mask →
        matchRound dst st rt = (rt.mask, some rt) := by
      intro st hst
      rw [matchRound, if_pos]
      rw [Bool.and_eq_true, decide_eq_true_eq]
      exact ⟨hst, hmatches⟩
    rw [List.foldl_append, List.foldl_cons, hround _ hlt, foldl_matchRound_of_le]
    exact hafter

def nextHop (rt : RtEntry ι) (dst : UInt32) : UInt32 := if rt.gw = 0 then dst else rt.gw

/-- The address that has been resolved for a host, if there is one. -/
def resolve (cache : ArpCache ι) (ip4 : UInt32) : Option Mac :=
  (slots.find? fun i => (cache.entries i).isFor ip4).map fun i => (cache.entries i).mac

/-! ## The law -/

/-- The packet is another one only in the time to live, the checksum, which
verifies, and the Ethernet header. -/
structure IsForwardOf (packet out : Packet) : Prop where
  serial_eq : out.serial = packet.serial
  ip_eq : out.frame.ip =
    { packet.frame.ip with
      ttl := packet.frame.ip.ttl - 1
      checksum := out.frame.ip.checksum }
  options_eq : out.frame.options = packet.frame.options
  data_eq : out.frame.data = packet.frame.data
  verifies : checksum out.frame.ipHeader 0 = 0

/-- One copy of the packet has been transmitted on the interface of the route,
between the right Ethernet addresses, and nothing is queued. -/
def IsTransmitted (ifaces : Ifaces ι) (cache : ArpCache ι) (rt : RtEntry ι) (packet : Packet)
    (result : ArpCache ι × List (Emission ι)) : Prop :=
  ∃ out, IsForwardOf packet out ∧ result.2 = [.transmit rt.iface out] ∧
    result.1.records = cache.records ∧
    out.frame.etherShost = ifaces.mac rt.iface ∧
    resolve cache (nextHop rt (ntohl packet.frame.ip.daddr)) = some out.frame.etherDhost

/-- One copy of the packet has been queued on the interface of the route, to be
sent from its address to the one that is inserted for the next hop, and nothing
is transmitted. -/
def IsQueued (ifaces : Ifaces ι) (cache : ArpCache ι) (rt : RtEntry ι) (packet : Packet)
    (result : ArpCache ι × List (Emission ι)) : Prop :=
  ∃ out, IsForwardOf packet out ∧ result.2.filterMap Emission.record = [] ∧
    result.1.records.Perm
      (.queued rt.iface (nextHop rt (ntohl packet.frame.ip.daddr)) out :: cache.records) ∧
    out.frame.etherShost = ifaces.mac rt.iface ∧
    ∀ mac now later, Emission.transmit rt.iface (out.setDhost mac) ∈
      (result.1.insert (nextHop rt (ntohl packet.frame.ip.daddr)) mac now later).2

def IsForwarded (ifaces : Ifaces ι) (cache : ArpCache ι) (rt : RtEntry ι) (packet : Packet)
    (result : ArpCache ι × List (Emission ι)) : Prop :=
  IsTransmitted ifaces cache rt packet result ∨ IsQueued ifaces cache rt packet result

/-- The route has a mask. If it has a gateway other than 0.0.0.1, nothing more is
needed; the lookup of that one must answer with its own mapping. If it has none,
then the frame must have come in with the addresses with which it leaves. -/
def ForwardsWell (ifaces : Ifaces ι) (cache : ArpCache ι) (rt : RtEntry ι) (frame : Frame) : Prop :=
  rt.mask ≠ 0 ∧
    if rt.gw = 0 then
      frame.etherShost = ifaces.mac rt.iface ∧
        resolve cache (ntohl frame.ip.daddr) = some frame.etherDhost
    else rt.gw = 1 → ∀ mac, firstMac cache = some mac → resolve cache 1 = some mac

theorem isForwardOf_decrementTtl (packet : Packet) :
    IsForwardOf packet { packet with frame := packet.frame.decrementTtl } where
  serial_eq := rfl
  ip_eq := rfl
  options_eq := rfl
  data_eq := rfl
  verifies := packet.frame.checksum_decrementTtl

/-- The Ethernet header is no part of the law. -/
theorem IsForwardOf.withEthernet {packet out : Packet} (h : IsForwardOf packet out)
    (dhost shost : Mac) (type : UInt16) :
    IsForwardOf packet { out with frame := { out.frame with
      etherDhost := dhost, etherShost := shost, etherType := type } } where
  serial_eq := h.serial_eq
  ip_eq := h.ip_eq
  options_eq := h.options_eq
  data_eq := h.data_eq
  verifies := h.verifies

/-- What is queued for an address is transmitted when it is inserted. -/
theorem mem_insert_of_queued (cache : ArpCache ι) {iface : ι} {ip4 : UInt32} {packet : Packet}
    (h : .queued iface ip4 packet ∈ cache.records) (mac : Mac) (now later : ℤ) :
    Emission.transmit iface (packet.setDhost mac) ∈ (cache.insert ip4 mac now later).2 := by
  obtain ⟨req, hreq, hrecord⟩ := List.mem_flatMap.mp h
  obtain ⟨p, hp, heq⟩ := List.mem_map.mp hrecord
  injection heq with hiface hip hpacket
  subst hiface hip hpacket
  refine List.mem_flatMap.mpr ⟨req, hreq, ?_⟩
  rw [flushReq, if_pos rfl]
  exact List.mem_map_of_mem hp

/-- A packet that is transmitted is not queued. -/
theorem isForwarded_transmit_iff (ifaces : Ifaces ι) (cache : ArpCache ι) (rt : RtEntry ι)
    {packet out : Packet} (h : IsForwardOf packet out) :
    IsForwarded ifaces cache rt packet (cache, [.transmit rt.iface out]) ↔
      out.frame.etherShost = ifaces.mac rt.iface ∧
        resolve cache (nextHop rt (ntohl packet.frame.ip.daddr)) = some out.frame.etherDhost := by
  constructor
  · rintro (⟨out', -, hsent, -, hshost, hdhost⟩ | ⟨out', -, hnothing, -⟩)
    · injection (List.cons.inj hsent).1 with _ hout
      rw [hout]
      exact ⟨hshost, hdhost⟩
    · exact absurd hnothing (List.cons_ne_nil _ _)
  · rintro ⟨hshost, hdhost⟩
    exact Or.inl ⟨out, h, rfl, rfl, hshost, hdhost⟩

/-- A packet that is answered by an ICMP message is not forwarded. -/
theorem not_isForwarded_icmp (ifaces : Ifaces ι) (cache : ArpCache ι) (rt : RtEntry ι)
    (packet p : Packet) (type code : UInt8) :
    ¬ IsForwarded ifaces cache rt packet (cache, [.icmp p type code]) := by
  rintro (⟨out, -, hsent, -⟩ | ⟨out, -, hnothing, -⟩)
  · exact absurd (List.cons.inj hsent).1 (by simp)
  · exact absurd hnothing (List.cons_ne_nil _ _)

/-- The lookup of a gateway answers with its own mapping, or not at all, exactly
if it is another address than 0.0.0.1 or the table happens to begin with its
mapping. -/
theorem lookup_resolves_iff (cache : ArpCache ι) (gw : UInt32) (hgw : gw ≠ 0) :
    (∀ mac, cache.lookup gw = some mac → resolve cache gw = some mac) ↔
      (gw = 1 → ∀ mac, firstMac cache = some mac → resolve cache 1 = some mac) := by
  by_cases h1 : gw = 1
  · subst h1
    rw [lookup_one]
    exact ⟨fun h _ => h, fun h => h rfl⟩
  · rw [lookup_eq_none cache gw hgw h1]
    exact iff_of_true (fun mac h => absurd h (by simp)) fun h => absurd h h1

section

variable [DecidableEq ι]

/-- What a packet with a route and enough time to live comes to. -/
theorem handleIpPacket_eq (ifaces : Ifaces ι) (rtable : List (RtEntry ι)) (cache : ArpCache ι)
    (iface : ι) (packet : Packet) (now : ℤ) (rt : RtEntry ι)
    (hroute : IsMatchedRoute rtable (ntohl packet.frame.ip.daddr) rt)
    (hecho : isEchoRequest ifaces iface packet.frame = false) (httl : 1 < packet.frame.ip.ttl) :
    handleIpPacket ifaces rtable cache iface packet now =
      if rt.mask = 0 then (cache, [.icmp packet ICMP_DEST_UNREACH ICMP_NET_UNREACH])
      else if rt.gw = 0 then
        (cache, [.transmit rt.iface { packet with frame := packet.frame.decrementTtl }])
      else ifaceSendPacketByArp ifaces cache rt.iface rt.gw
        { packet with frame := packet.frame.decrementTtl } now := by
  rw [handleIpPacket, hecho, if_neg Bool.false_ne_true, longestPrefixMatch_eq rtable _ rt hroute]
  by_cases hmask : rt.mask = 0
  · rw [if_pos hmask, if_pos hmask]
  · rw [if_neg hmask, if_neg hmask]
    exact if_neg (UInt8.not_le.mpr httl)

/-- A packet is left pending. -/
theorem isQueued_appendPacket (ifaces : Ifaces ι) (cache : ArpCache ι) (rt : RtEntry ι)
    {packet out : Packet} (now : ℤ) (h : IsForwardOf packet out)
    (hshost : out.frame.etherShost = ifaces.mac rt.iface) :
    IsQueued ifaces cache rt packet
      (cache.appendPacket rt.iface (nextHop rt (ntohl packet.frame.ip.daddr)) out now) := by
  have hrecords := records_upsert rt.iface (nextHop rt (ntohl packet.frame.ip.daddr)) out now
    cache.reqList
  refine ⟨out, h, filterMap_appendPacket cache _ _ _ now, hrecords, hshost, ?_⟩
  intro mac now' later
  exact mem_insert_of_queued _ (hrecords.symm.subset List.mem_cons_self) mac now' later

theorem isForwarded_byArp_iff (ifaces : Ifaces ι) (cache : ArpCache ι) (rt : RtEntry ι)
    (packet : Packet) (now : ℤ) (hgw : rt.gw ≠ 0) :
    IsForwarded ifaces cache rt packet (ifaceSendPacketByArp ifaces cache rt.iface rt.gw
      { packet with frame := packet.frame.decrementTtl } now) ↔
      ∀ mac, cache.lookup rt.gw = some mac → resolve cache rt.gw = some mac := by
  have hhop : nextHop rt (ntohl packet.frame.ip.daddr) = rt.gw := if_neg hgw
  have hforward := isForwardOf_decrementTtl packet
  rw [ifaceSendPacketByArp]
  cases hlookup : cache.lookup rt.gw with
  | some mac =>
      have hout := hforward.withEthernet mac (ifaces.mac rt.iface) (htons ETH_P_IP)
      refine (isForwarded_transmit_iff ifaces cache rt hout).trans ?_
      rw [hhop]
      constructor
      · rintro ⟨-, hresolve⟩ mac' hmac
        rw [← Option.some.inj hmac]
        exact hresolve
      · intro hall
        exact ⟨rfl, hall mac rfl⟩
  | none =>
      have hout := hforward.withEthernet packet.frame.etherDhost (ifaces.mac rt.iface)
        (htons ETH_P_IP)
      have hqueued := isQueued_appendPacket ifaces cache rt now hout rfl
      rw [hhop] at hqueued
      exact iff_of_true (Or.inr hqueued) fun mac h => absurd h (by simp)

/-- A packet with a route, enough time to live, and another purpose than to test
the interface is forwarded as it should be exactly in these cases. -/
theorem handleIpPacket_forwards_iff (ifaces : Ifaces ι) (rtable : List (RtEntry ι))
    (cache : ArpCache ι) (iface : ι) (packet : Packet) (now : ℤ) (rt : RtEntry ι)
    (hroute : IsMatchedRoute rtable (ntohl packet.frame.ip.daddr) rt)
    (hecho : isEchoRequest ifaces iface packet.frame = false) (httl : 1 < packet.frame.ip.ttl) :
    IsForwarded ifaces cache rt packet
        (handleIpPacket ifaces rtable cache iface packet now) ↔
      ForwardsWell ifaces cache rt packet.frame := by
  rw [handleIpPacket_eq ifaces rtable cache iface packet now rt hroute hecho httl, ForwardsWell]
  by_cases hmask : rt.mask = 0
  · rw [if_pos hmask]
    exact iff_of_false (not_isForwarded_icmp ifaces cache rt packet _ _ _) fun h => h.1 hmask
  · rw [if_neg hmask, and_iff_right hmask]
    by_cases hgw : rt.gw = 0
    · rw [if_pos hgw, if_pos hgw,
        isForwarded_transmit_iff ifaces cache rt (isForwardOf_decrementTtl packet), nextHop,
        if_pos hgw]
      exact Iff.rfl
    · rw [if_neg hgw, if_neg hgw, isForwarded_byArp_iff ifaces cache rt packet now hgw,
        lookup_resolves_iff cache rt.gw hgw]

end

/-- A packet for a host behind a gateway whose address is not known yet. -/
theorem handleIpPacket_forwards_gateway :
    IsForwarded { mac := fun _ => Vector.replicate ETH_ALEN 1, ip := fun _ => 9 } .init
      { dest := 5, mask := 0xffffffff, gw := 7, iface := () }
      { serial := 0
        frame := .bare (Vector.replicate ETH_ALEN 1) (Vector.replicate ETH_ALEN 2) 5 }
      (handleIpPacket { mac := fun _ => Vector.replicate ETH_ALEN 1, ip := fun _ => 9 }
        [{ dest := 5, mask := 0xffffffff, gw := 7, iface := () }] .init ()
        { serial := 0
          frame := .bare (Vector.replicate ETH_ALEN 1) (Vector.replicate ETH_ALEN 2) 5 } 0) :=
  (handleIpPacket_forwards_iff _ _ _ _ _ 0 { dest := 5, mask := 0xffffffff, gw := 7, iface := () }
    ⟨[], [], rfl, by decide +kernel, by simp, by simp⟩ (by decide +kernel) (by decide)).mpr
    ⟨by decide, fun h => absurd h (by decide)⟩

/-- A packet for a host of the network of an interface keeps its Ethernet
addresses. -/
theorem not_forwards_directly :
    ¬ ∀ (ifaces : Ifaces Unit) (rtable : List (RtEntry Unit)) (cache : ArpCache Unit)
      (packet : Packet) (now : ℤ) (rt : RtEntry Unit),
      IsMatchedRoute rtable (ntohl packet.frame.ip.daddr) rt →
      isEchoRequest ifaces () packet.frame = false → 1 < packet.frame.ip.ttl →
      IsForwarded ifaces cache rt packet (handleIpPacket ifaces rtable cache () packet now) := by
  intro h
  let ifaces : Ifaces Unit := { mac := fun _ => Vector.replicate ETH_ALEN 1, ip := fun _ => 9 }
  let rt : RtEntry Unit := { dest := 5, mask := 0xffffffff, gw := 0, iface := () }
  let packet : Packet := {
    serial := 0
    frame := .bare (Vector.replicate ETH_ALEN 1) (Vector.replicate ETH_ALEN 2) 5 }
  have hroute : IsMatchedRoute [rt] (ntohl packet.frame.ip.daddr) rt :=
    ⟨[], [], rfl, by decide +kernel, by simp, by simp⟩
  have hecho : isEchoRequest ifaces () packet.frame = false := by decide +kernel
  have httl : 1 < packet.frame.ip.ttl := by decide
  have hforwarded := h ifaces [rt] .init packet 0 rt hroute hecho httl
  rw [handleIpPacket_eq ifaces [rt] .init () packet 0 rt hroute hecho httl,
    if_neg (by decide), if_pos rfl,
    isForwarded_transmit_iff ifaces .init rt (isForwardOf_decrementTtl packet)] at hforwarded
  exact absurd hforwarded.1 (by decide)

end Router

end NetworkLabs
