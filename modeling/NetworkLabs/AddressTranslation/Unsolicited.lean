import NetworkLabs.AddressTranslation.Rules
import NetworkLabs.Router.Forwarding

/-!
# Packets that nobody has asked for

The direction of a packet is that of the route to its source. A packet from
outside may go to an endpoint that has neither a mapping for its sender nor a
rule. It is not refused: it leaves a mapping behind and is sent on to port 0 of
the address 0.0.0.0, or it is taken for a packet of a flow to another host that
shares the chain.
-/

namespace NetworkLabs

def IPPROTO_TCP : UInt8 := 6

namespace NatTable

variable {ι : Type*} [DecidableEq ι]

/-- There is none if the route that is looked at is missing. -/
def getPacketDirection (rtable : List (Router.RtEntry ι)) (internalIface : ι) (p : Packet) :
    Option PacketDir :=
  (Router.longestPrefixMatch rtable (ntohl p.ip.saddr)).map fun rt =>
    if rt.iface = internalIface then .dirOut else .dirIn

/-- What becomes of a packet. -/
inductive Outcome where
  | missingRoute
  | icmp (type code : UInt8)
  | dropped
  | sent (p : Packet)

/-- The interface on which the packet has come in is not looked at. -/
def natTranslatePacket (rtable : List (Router.RtEntry ι)) (internalIface : ι) (nat : NatTable)
    (_iface : ι) (p : Packet) (now : ℤ) : NatTable × Outcome :=
  match getPacketDirection rtable internalIface p with
  | none => (nat, .missingRoute)
  | some dir =>
      if dir = .dirInvalid then
        (nat, .icmp Router.ICMP_DEST_UNREACH Router.ICMP_HOST_UNREACH)
      else if p.ip.protocol ≠ IPPROTO_TCP then (nat, .dropped)
      else ((nat.doTranslation p dir now).1, .sent (nat.doTranslation p dir now).2)

/-- The packet is dropped, and the mappings and the ports are as before. -/
def Refused (nat : NatTable) (result : NatTable × Outcome) : Prop :=
  result.2 = .dropped ∧ result.1.natMappingList = nat.natMappingList ∧
    result.1.assignedPorts = nat.assignedPorts

end NatTable

namespace Ledger

open NatTable

/-- A TCP packet that has come in on another interface than the internal one, to
an endpoint without a mapping for its sender and without a rule. -/
structure Unsolicited {ι : Type*} (internalIface iface : ι) (t : Ledger) (p : Packet) : Prop where
  outside : iface ≠ internalIface
  protocol_eq : p.ip.protocol = IPPROTO_TCP
  no_mapping : ∀ i, ∀ f ∈ t.flows i, f.IsFor (ntohl p.ip.saddr) → isDestination p f.mapping = false
  no_rule : ∀ rule ∈ t.nat.rules,
    ¬ (rule.externalIp = ntohl p.ip.daddr ∧ rule.externalPort = ntohs p.tcp.dport)

/-- The packet has made a mapping for nowhere and is sent there. -/
def SentNowhere (t : Ledger) (p : Packet) (result : NatTable × Outcome) : Prop :=
  (∃ m : NatMapping, (m.internalIp = 0 ∧ m.internalPort = 0) ∧ isDestination p m = true ∧
    result.1.natMappingList = Function.update t.nat.natMappingList (hashI (ntohl p.ip.saddr))
      (t.nat.natMappingList (hashI (ntohl p.ip.saddr)) ++ [m])) ∧
  ∃ out, result.2 = .sent out ∧ out.ip.daddr = htonl 0 ∧ out.tcp.dport = htons 0

/-- The packet is sent to the internal endpoint of a flow that has nothing to do
with its sender. -/
def SentAstray (t : Ledger) (p : Packet) (result : NatTable × Outcome) : Prop :=
  ∃ f ∈ t.flows (hashI (ntohl p.ip.saddr)), ¬ f.IsFor (ntohl p.ip.saddr) ∧
    isDestination p f.mapping = true ∧ ∃ out, result.2 = .sent out ∧
      out.ip.daddr = htonl f.mapping.internalIp ∧ out.tcp.dport = htons f.mapping.internalPort

section

variable {ι : Type*} {internalIface iface : ι} {t : Ledger} {p : Packet}

/-- A translation from outside that no flow of the sender accounts for. -/
theorem Unsolicited.translated (h : Unsolicited internalIface iface t p) (ht : t.Tells)
    (now : ℤ) :
    let result := ((t.nat.doTranslation p .dirIn now).1,
      Outcome.sent (t.nat.doTranslation p .dirIn now).2)
    t.SentNowhere p result ∨ t.SentAstray p result := by
  intro result
  cases hfind : (t.flows (hashI (ntohl p.ip.saddr))).find?
      (fun f => isDestination p f.mapping) with
  | none =>
      have hfound : t.nat.found p .dirIn = false := by
        rw [found_inbound, ← ht, List.any_map, List.any_eq_false]
        exact List.find?_eq_none.mp hfind
      refine Or.inl ⟨⟨(newInbound p).noteInbound p.tcp now, ⟨rfl, rfl⟩, ?_,
        natMappingList_unmatched hfound now⟩, _, rfl, doTranslation_unmatched hfound now⟩
      exact (NatMapping.isExternal_iff _ _ _).mpr ⟨rfl, rfl⟩
  | some f =>
      have hf := List.mem_of_find?_eq_some hfind
      have hfits := List.find?_some hfind
      have hentry : FirstMatch.entry (isDestination p) (newInbound p)
          (t.nat.natMappingList (hashI (ntohl p.ip.saddr))) = f.mapping := by
        rw [FirstMatch.entry, ← ht, List.find?_map]
        change (((t.flows _).find? fun f => isDestination p f.mapping).map Flow.mapping).getD _ = _
        rw [hfind, Option.map_some, Option.getD_some]
      have htranslate : (t.nat.doTranslation p .dirIn now).2 =
          p.translateInbound (FirstMatch.entry (isDestination p) (newInbound p)
            (t.nat.natMappingList (hashI (ntohl p.ip.saddr)))) := rfl
      refine Or.inr ⟨f, hf, ?_, hfits, _, rfl, ?_⟩
      · intro hfor
        rw [h.no_mapping _ f hf hfor] at hfits
        exact absurd hfits (by decide)
      · rw [htranslate, hentry]
        exact ⟨rfl, rfl⟩

variable [DecidableEq ι]

/-- No TCP packet is dropped. -/
theorem not_refused (rtable : List (Router.RtEntry ι)) (nat : NatTable)
    (hprotocol : p.ip.protocol = IPPROTO_TCP) (now : ℤ) :
    ¬ nat.Refused (natTranslatePacket rtable internalIface nat iface p now) := by
  rintro ⟨hdropped, -⟩
  rw [natTranslatePacket] at hdropped
  cases hdir : getPacketDirection rtable internalIface p with
  | none => simp [hdir] at hdropped
  | some dir =>
      by_cases hinvalid : dir = .dirInvalid
      · simp [hdir, hinvalid] at hdropped
      · simp [hdir, hinvalid, hprotocol] at hdropped

end

/-- In no run is a packet refused that nobody has asked for. If its source is
outside, then it is sent nowhere or to somebody else. -/
theorem unsolicited_never_refused {ι : Type*} [DecidableEq ι] (rtable : List (Router.RtEntry ι))
    (internalIface : ι) (externalIface : IfaceInfo) (rules : List DnatRule) (events : List Event)
    (iface : ι) (p : Packet) (now : ℤ)
    (h : (run externalIface rules events).Unsolicited internalIface iface p) :
    let t := run externalIface rules events
    let result := natTranslatePacket rtable internalIface t.nat iface p now
    ¬ t.nat.Refused result ∧ (getPacketDirection rtable internalIface p = some .dirIn →
      t.SentNowhere p result ∨ t.SentAstray p result) := by
  intro t result
  refine ⟨not_refused rtable t.nat h.protocol_eq now, ?_⟩
  intro hdir
  have hresult : result = ((t.nat.doTranslation p .dirIn now).1,
      .sent (t.nat.doTranslation p .dirIn now).2) := by
    change natTranslatePacket rtable internalIface t.nat iface p now = _
    rw [natTranslatePacket, hdir]
    simp [h.protocol_eq]
  rw [hresult]
  exact h.translated (tells_run externalIface rules events) now

/-- A packet to the port of a mapping, from a host that shares the chain with the host that the
mapping was made for. -/
theorem unsolicited_never_refused_sameChain :
    let external : UInt32 := 0x9fe2272b
    let remote : UInt32 := 0x9fe2277b
    let other : UInt32 := 0x9fe27b27
    let events : List Event :=
      [.packet (Packet.bare 0x0a150001 4000 remote 80 TCP_SYN) .dirOut 0]
    let p := Packet.bare other 80 external 12345 TCP_SYN
    let rtable : List (Router.RtEntry Bool) :=
      [{ dest := 0x9fe20000, mask := 0xffff0000, gw := 0, iface := true }]
    let t := run ⟨external⟩ [] events
    let result := natTranslatePacket rtable false t.nat true p 0
    (t.nat.natMappingList (hashI other)).length = 1 ∧ ¬ t.nat.Refused result ∧
      (t.SentNowhere p result ∨ t.SentAstray p result) := by
  intro external remote other events p rtable t result
  have hchain : hashI (ntohl (htonl remote)) = hashI remote := by decide +kernel
  have hflows : ∀ i, i ≠ hashI remote → t.flows i = [] := fun i hi =>
    Function.update_of_ne (hchain ▸ hi) _ _
  have hmapping : ∀ f ∈ t.flows (hashI remote), f.IsFor (ntohl p.ip.saddr) →
      isDestination p f.mapping = false := by
    unfold Flow.IsFor
    decide +kernel
  have hboth := unsolicited_never_refused rtable false ⟨external⟩ [] events true p 0
    { outside := by decide
      protocol_eq := by decide
      no_mapping := by
        intro i f hf
        by_cases hi : i = hashI remote
        · subst hi
          exact hmapping f hf
        · rw [hflows i hi] at hf
          exact absurd hf List.not_mem_nil
      no_rule := fun _ hrule => absurd hrule List.not_mem_nil }
  exact ⟨by decide +kernel, hboth.1, hboth.2 (by decide +kernel)⟩

/-- A packet to an address that is not even that of the external interface. -/
theorem not_refused_elsewhere :
    let external : UInt32 := 0x9fe2272b
    let remote : UInt32 := 0x9fe2277b
    let p := Packet.bare remote 80 0x9fe22701 22 TCP_SYN
    let rtable : List (Router.RtEntry Bool) :=
      [{ dest := 0x9fe22700, mask := 0xffffff00, gw := 0, iface := true }]
    let t := run ⟨external⟩ [] []
    ¬ (t.Unsolicited false true p →
      t.nat.Refused (natTranslatePacket rtable false t.nat true p 0)) := by
  intro external remote p rtable t h
  have hrefused := h
    { outside := by decide
      protocol_eq := by decide
      no_mapping := fun _ _ hf => absurd hf List.not_mem_nil
      no_rule := fun _ hrule => absurd hrule List.not_mem_nil }
  have hsame := congrArg (fun lists => (lists (hashI remote)).length) hrefused.2.1
  exact absurd hsame (by decide +kernel)

end Ledger

end NetworkLabs
