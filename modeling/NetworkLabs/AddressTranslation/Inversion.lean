import NetworkLabs.AddressTranslation.Steps
import NetworkLabs.Library.Transition

/-!
# A translation and its replies

A reply is looked up by the external endpoint of its destination, a packet of
the flow by its internal endpoint, both in the chain of the remote host and both
for the first entry that fits. The two searches meet in the mapping of the flow
as long as it is the first entry with either endpoint. Later packets put their
entries behind it, and sweeps do not change the order, so what the chain holds
in front of the mapping when the flow is translated decides for all times.
-/

namespace NetworkLabs

namespace NatTable

/-- The mapping of the flow to which a packet from inside belongs. -/
def flowMapping (nat : NatTable) (p : Packet) : Option NatMapping :=
  (nat.chainOf p).find? (isSource p)

/-- No sweep removes the mapping of the flow. -/
def Unswept (p : Packet) (nat : NatTable) : Event → Prop
  | .timeout now => ∀ m, nat.flowMapping p = some m → isExpired now m = false
  | .packet _ _ _ => True

/-- The external endpoint of the flow: that of its mapping, or what a new mapping
would get. -/
def externalEndpoint (nat : NatTable) (p : Packet) : UInt32 × UInt16 :=
  match nat.flowMapping p with
  | some m => (m.externalIp, m.externalPort)
  | none => (nat.externalIface.ip, (freePort nat.assignedPorts).getD NAT_PORT_MAX)

/-- No entry in front of the mapping of the flow has the external endpoint of the
flow; for a new flow, no entry of the chain. -/
def NoTwin (nat : NatTable) (p : Packet) : Prop :=
  ∀ m ∈ (nat.chainOf p).takeWhile (fun m => !isSource p m),
    m.isExternal (nat.externalEndpoint p).1 (nat.externalEndpoint p).2 = false

/-- The translation of the packet is inverted by its replies: as long as the
mapping of the flow is not swept, what the remote host sends to the new source
goes to the old one, and the flow keeps its new source. Nothing else is changed
but the checksums. -/
def Inverted (nat : NatTable) (p : Packet) (now : ℤ) : Prop :=
  let t := nat.doTranslation p .dirOut now
  p.SourceTranslated t.2 ∧
    ∀ events, Transition.Along step (Unswept p) t.1 events → ∀ later,
      (∀ reply : Packet, reply.ip.saddr = p.ip.daddr → reply.ip.daddr = t.2.ip.saddr →
        reply.tcp.dport = t.2.tcp.sport →
        let back := ((run t.1 events).doTranslation reply .dirIn later).2
        (back.ip.daddr = p.ip.saddr ∧ back.tcp.dport = p.tcp.sport) ∧
          reply.DestinationTranslated back) ∧
      ∀ next : Packet, next.ip.saddr = p.ip.saddr → next.tcp.sport = p.tcp.sport →
        next.ip.daddr = p.ip.daddr →
        let out := ((run t.1 events).doTranslation next .dirOut later).2
        (out.ip.saddr = t.2.ip.saddr ∧ out.tcp.sport = t.2.tcp.sport) ∧
          next.SourceTranslated out

/-- The first entry of the chain that has the internal or the external endpoint
of the flow has both. -/
def Owns (nat : NatTable) (p : Packet) (e : UInt32 × UInt16) : Prop :=
  ∃ m, (nat.chainOf p).find? (fun m => isSource p m || m.isExternal e.1 e.2) = some m ∧
    isSource p m = true ∧ m.isExternal e.1 e.2 = true

section

variable {nat : NatTable} {p : Packet} {e : UInt32 × UInt16}

/-- The entry that a packet from inside is translated with. -/
def outEntry (nat : NatTable) (p : Packet) : NatMapping :=
  FirstMatch.entry (isSource p) {
    internalIp := ntohl p.ip.saddr
    internalPort := ntohs p.tcp.sport
    externalIp := nat.externalIface.ip
    externalPort := (assignPort nat.assignedPorts).2
    created := .dirOut } (nat.chainOf p)

theorem isSource_outEntry (nat : NatTable) (p : Packet) :
    isSource p (nat.outEntry p) = true := by
  apply FirstMatch.entry_satisfies
  rw [isSource, NatMapping.isInternal_iff]
  exact ⟨rfl, rfl⟩

theorem outEntry_external (nat : NatTable) (p : Packet) :
    ((nat.outEntry p).externalIp, (nat.outEntry p).externalPort) = nat.externalEndpoint p := by
  rw [outEntry, FirstMatch.entry, externalEndpoint, flowMapping]
  cases (nat.chainOf p).find? (isSource p) with
  | some m => rfl
  | none =>
      rw [Option.getD_none, assignPort_eq]
      cases freePort nat.assignedPorts with
      | some port => rfl
      | none => rfl

/-- A packet from inside gets the external endpoint of its flow as its
source. -/
theorem doTranslation_out (nat : NatTable) (p : Packet) (now : ℤ) :
    (nat.doTranslation p .dirOut now).2.ip.saddr = htonl (nat.externalEndpoint p).1 ∧
      (nat.doTranslation p .dirOut now).2.tcp.sport = htons (nat.externalEndpoint p).2 := by
  rw [← outEntry_external]
  exact ⟨rfl, rfl⟩

theorem chainOf_doTranslation_out (nat : NatTable) (p : Packet) (now : ℤ) :
    ∃ fresh, (nat.doTranslation p .dirOut now).1.chainOf p =
        FirstMatch.upsert (isSource p) (fun m => m.noteOutbound p.tcp now) fresh
          (nat.chainOf p) ∧
      FirstMatch.entry (isSource p) fresh (nat.chainOf p) = nat.outEntry p :=
  ⟨_, Function.update_self _ _ _, rfl⟩

/-- A packet leaves a chain alone, or updates an entry in it without a change of
its endpoints. -/
theorem natMappingList_doTranslation (nat : NatTable) (p : Packet) (dir : PacketDir) (now : ℤ)
    (i : UInt8) :
    (nat.doTranslation p dir now).1.natMappingList i = nat.natMappingList i ∨
    ∃ fits f fresh, (nat.doTranslation p dir now).1.natMappingList i =
        FirstMatch.upsert fits f fresh (nat.natMappingList i) ∧
      (∀ m ip port, (f m).isInternal ip port = m.isInternal ip port) ∧
      ∀ m ip port, (f m).isExternal ip port = m.isExternal ip port := by
  rw [doTranslation]
  split_ifs
  · by_cases hi : i = hashI (ntohl p.ip.saddr)
    · subst hi
      exact Or.inr ⟨_, _, _, Function.update_self _ _ _, fun _ _ _ => rfl, fun _ _ _ => rfl⟩
    · exact Or.inl (Function.update_of_ne hi _ _)
  · by_cases hi : i = hashI (ntohl p.ip.daddr)
    · subst hi
      exact Or.inr ⟨_, _, _, Function.update_self _ _ _, fun _ _ _ => rfl, fun _ _ _ => rfl⟩
    · exact Or.inl (Function.update_of_ne hi _ _)

theorem owns_doTranslation (h : nat.NoTwin p) (now : ℤ) :
    (nat.doTranslation p .dirOut now).1.Owns p (nat.externalEndpoint p) := by
  obtain ⟨fresh, hchain, hentry⟩ := chainOf_doTranslation_out nat p now
  have hexternal := outEntry_external nat p
  refine ⟨(nat.outEntry p).noteOutbound p.tcp now, ?_, isSource_outEntry nat p, ?_⟩
  · rw [hchain, ← hentry]
    apply FirstMatch.find?_or_upsert h
    rw [hentry]
    exact isSource_outEntry nat p
  · rw [NatMapping.isExternal_noteOutbound, NatMapping.isExternal_iff, ← hexternal]
    exact ⟨rfl, rfl⟩

theorem Owns.step (h : nat.Owns p e) (ev : Event) (hev : Unswept p nat ev) :
    (nat.step ev).Owns p e := by
  obtain ⟨m, hfind, hsource, hexternal⟩ := h
  cases ev with
  | packet p' dir now =>
      change ((nat.doTranslation p' dir now).1).Owns p e
      rcases natMappingList_doTranslation nat p' dir now (hashI (ntohl p.ip.daddr)) with
        heq | ⟨fits, f, fresh, heq, hint, hext⟩
      · refine ⟨m, ?_, hsource, hexternal⟩
        rw [chainOf, heq]
        exact hfind
      · have hkeep : ∀ b : NatMapping, (isSource p (f b) || (f b).isExternal e.1 e.2) =
            (isSource p b || b.isExternal e.1 e.2) := by
          intro b
          rw [isSource, isSource, hint, hext]
        rcases FirstMatch.find?_upsert fits fresh hkeep hfind with
          hfound | hfound
        · exact ⟨m, by rw [chainOf, heq]; exact hfound, hsource, hexternal⟩
        · refine ⟨f m, by rw [chainOf, heq]; exact hfound, ?_, ?_⟩
          · rw [isSource, hint]
            exact hsource
          · rw [hext]
            exact hexternal
  | timeout now =>
      have hflow : nat.flowMapping p = some m := FirstMatch.find?_of_find?_or hfind hsource
      refine ⟨m, ?_, hsource, hexternal⟩
      change ((nat.natTimeout now).natMappingList _).find? _ = some m
      rw [natMappingList_natTimeout]
      apply FirstMatch.find?_filter_of_keep hfind
      rw [hev m hflow]
      rfl

theorem Owns.run (h : nat.Owns p e) (events : List Event)
    (hevents : Transition.Along NatTable.step (Unswept p) nat events) :
    (nat.run events).Owns p e :=
  Transition.Along.invariant (fun s => s.Owns p e) (fun _ ev hs hev => hs.step ev hev) nat events
    h hevents

/-- A reply goes to the first entry of the chain with its destination. -/
theorem doTranslation_reply {m : NatMapping}
    (h : (nat.chainOf p).find? (fun b => b.isExternal e.1 e.2) = some m) (reply : Packet)
    (later : ℤ) (hsaddr : reply.ip.saddr = p.ip.daddr) (hdaddr : reply.ip.daddr = htonl e.1)
    (hdport : reply.tcp.dport = htons e.2) :
    (nat.doTranslation reply .dirIn later).2.ip.daddr = htonl m.internalIp ∧
      (nat.doTranslation reply .dirIn later).2.tcp.dport = htons m.internalPort := by
  have hentry : ∀ fresh, FirstMatch.entry (fun b : NatMapping =>
      b.isExternal (ntohl reply.ip.daddr) (ntohs reply.tcp.dport)) fresh
        (nat.natMappingList (hashI (ntohl reply.ip.saddr))) = m := by
    intro fresh
    rw [hsaddr, hdaddr, hdport, ntohl_htonl, ntohs_htons, FirstMatch.entry]
    change ((nat.chainOf p).find? _).getD fresh = m
    rw [h, Option.getD_some]
  obtain ⟨fresh, htranslate⟩ : ∃ fresh, (nat.doTranslation reply .dirIn later).2 =
      reply.translateInbound (FirstMatch.entry (fun b : NatMapping =>
        b.isExternal (ntohl reply.ip.daddr) (ntohs reply.tcp.dport)) fresh
          (nat.natMappingList (hashI (ntohl reply.ip.saddr)))) := ⟨_, rfl⟩
  rw [htranslate, hentry fresh]
  exact ⟨rfl, rfl⟩

/-- A reply to the flow finds its mapping. -/
theorem Owns.reply (h : nat.Owns p e) (reply : Packet) (later : ℤ)
    (hsaddr : reply.ip.saddr = p.ip.daddr) (hdaddr : reply.ip.daddr = htonl e.1)
    (hdport : reply.tcp.dport = htons e.2) :
    (nat.doTranslation reply .dirIn later).2.ip.daddr = p.ip.saddr ∧
      (nat.doTranslation reply .dirIn later).2.tcp.dport = p.tcp.sport := by
  obtain ⟨m, hfind, hsource, hexternal⟩ := h
  have hswap : (fun b : NatMapping => isSource p b || b.isExternal e.1 e.2) =
      fun b => b.isExternal e.1 e.2 || isSource p b := by
    funext b
    exact Bool.or_comm _ _
  rw [hswap] at hfind
  have hfits := FirstMatch.find?_of_find?_or hfind hexternal
  obtain ⟨hip, hport⟩ := (NatMapping.isInternal_iff _ _ _).mp hsource
  have hback := doTranslation_reply hfits reply later hsaddr hdaddr hdport
  rwa [hip, hport, htonl_ntohl, htons_ntohs] at hback

/-- A further packet of the flow keeps its external endpoint. -/
theorem Owns.next (h : nat.Owns p e) (next : Packet) (hsaddr : next.ip.saddr = p.ip.saddr)
    (hsport : next.tcp.sport = p.tcp.sport) (hdaddr : next.ip.daddr = p.ip.daddr) :
    nat.externalEndpoint next = e := by
  obtain ⟨m, hfind, hsource, hexternal⟩ := h
  have hflow : nat.flowMapping next = some m := by
    rw [flowMapping, chainOf, hdaddr]
    have hsame : isSource next = isSource p := by
      funext b
      rw [isSource, isSource, hsaddr, hsport]
    rw [hsame]
    exact FirstMatch.find?_of_find?_or hfind hsource
  obtain ⟨hip, hport⟩ := (NatMapping.isExternal_iff _ _ _).mp hexternal
  rw [externalEndpoint, hflow]
  exact Prod.ext hip hport

/-- An entry with the external endpoint of the flow in front of its mapping
takes the replies. -/
theorem noTwin_of_reply (nat : NatTable) (p : Packet) (now later : ℤ)
    (h : ∀ reply : Packet, reply.ip.saddr = p.ip.daddr →
      reply.ip.daddr = htonl (nat.externalEndpoint p).1 →
      reply.tcp.dport = htons (nat.externalEndpoint p).2 →
      let back := ((nat.doTranslation p .dirOut now).1.doTranslation reply .dirIn later).2
      back.ip.daddr = p.ip.saddr ∧ back.tcp.dport = p.tcp.sport) : nat.NoTwin p := by
  intro m hm
  by_contra htwin
  rw [Bool.not_eq_false] at htwin
  obtain ⟨fresh, hchain, -⟩ := chainOf_doTranslation_out nat p now
  obtain ⟨twin, hfind, hother⟩ := FirstMatch.find?_upsert_of_front
    (q := fun b => b.isExternal (nat.externalEndpoint p).1 (nat.externalEndpoint p).2)
    (fun b => b.noteOutbound p.tcp now) fresh hm htwin
  rw [← hchain] at hfind
  let reply : Packet := { p with
    ip := { p.ip with saddr := p.ip.daddr, daddr := htonl (nat.externalEndpoint p).1 }
    tcp := { p.tcp with dport := htons (nat.externalEndpoint p).2 } }
  have hback := doTranslation_reply hfind reply later rfl rfl rfl
  obtain ⟨hip, hport⟩ := h reply rfl rfl rfl
  have hsource : isSource p twin = true := by
    rw [isSource, NatMapping.isInternal_iff, ← hip, ← hport, hback.1, hback.2, ntohl_htonl,
      ntohs_htons]
    exact ⟨rfl, rfl⟩
  rw [hother] at hsource
  exact absurd hsource (by decide)

end

/-- A translation is inverted by its replies exactly when no other entry with the
same external endpoint stands in front of the mapping of the flow. -/
theorem inverted_iff_noTwin (nat : NatTable) (p : Packet) (now : ℤ) :
    nat.Inverted p now ↔ nat.NoTwin p := by
  obtain ⟨hsource, hport⟩ := doTranslation_out nat p now
  constructor
  · intro h
    apply noTwin_of_reply nat p now now
    intro reply hsaddr hdaddr hdport
    exact ((h.2 [] trivial now).1 reply hsaddr (hdaddr.trans hsource.symm)
      (hdport.trans hport.symm)).1
  · intro h
    refine ⟨p.sourceTranslated _, ?_⟩
    intro events hevents later
    have howns := (owns_doTranslation h now).run events hevents
    refine ⟨?_, ?_⟩
    · intro reply hsaddr hdaddr hdport
      exact ⟨howns.reply reply later hsaddr (hdaddr.trans hsource) (hdport.trans hport),
        reply.destinationTranslated _⟩
    · intro next hsaddr hsport hdaddr
      have hnext := doTranslation_out (run (nat.doTranslation p .dirOut now).1 events) next later
      rw [howns.next next hsaddr hsport hdaddr] at hnext
      exact ⟨⟨hnext.1.trans hsource.symm, hnext.2.trans hport.symm⟩, next.sourceTranslated _⟩

/-- A packet from outside to the first port of the pool leaves an entry behind,
which then takes the reply to a new flow to the same host. -/
theorem not_inverted_unsolicited :
    let external : UInt32 := 0x9fe2272b
    let remote : UInt32 := 0x9fe2277b
    let host : UInt32 := 0x0a150001
    ¬ (run (natInit ⟨external⟩ [])
        [.packet (Packet.bare remote 80 external 12345 0x02) .dirIn 0]).Inverted
      (Packet.bare host 4000 remote 80 0x02) 1 := by
  intro external remote host h
  have hback := ((h.2 [] trivial 1).1 (Packet.bare remote 80 external 12345 0x12) (by decide)
    (by decide) (by decide)).1.1
  exact absurd hback (by decide)

end NatTable

end NetworkLabs
