import NetworkLabs.AddressTranslation.Flows
import NetworkLabs.AddressTranslation.Inversion

/-!
# Rules for packets from outside

A rule is meant to send what arrives at an external endpoint to an internal one,
and what the internal endpoint answers out again under the external one. The
table keeps the rules, but no translation looks at them. A packet to the
endpoint of a rule is translated as any other, and if no mapping is for it then
it goes to port 0 of the address 0.0.0.0.
-/

namespace NetworkLabs

namespace NatTable

/-- The mapping with which a packet from outside is translated. -/
def inboundMapping (nat : NatTable) (p : Packet) : Option NatMapping :=
  (nat.natMappingList (hashI (ntohl p.ip.saddr))).find? (isDestination p)

/-- No sweep removes the mapping of the packet. -/
def UnsweptInbound (p : Packet) (nat : NatTable) : Event → Prop
  | .timeout now => ∀ m, nat.inboundMapping p = some m → isExpired now m = false
  | .packet _ _ _ => True

/-- The packet goes to the internal endpoint of the rule, and as long as its
mapping is not swept, what this endpoint sends back to the remote one comes from
the external endpoint of the rule. -/
def Honours (nat : NatTable) (rule : DnatRule) (p : Packet) (now : ℤ) : Prop :=
  let t := nat.doTranslation p .dirIn now
  (t.2.ip.daddr = htonl rule.internalIp ∧ t.2.tcp.dport = htons rule.internalPort) ∧
    ∀ events, Transition.Along step (UnsweptInbound p) t.1 events → ∀ (next : Packet) (later : ℤ),
      next.ip.saddr = htonl rule.internalIp → next.tcp.sport = htons rule.internalPort →
      next.ip.daddr = p.ip.saddr → next.tcp.dport = p.tcp.sport →
      let out := ((run t.1 events).doTranslation next .dirOut later).2
      out.ip.saddr = htonl rule.externalIp ∧ out.tcp.sport = htons rule.externalPort

/-- The packet goes to the external endpoint of the rule, and no mapping is for
it. -/
structure Calls (nat : NatTable) (p : Packet) (rule : DnatRule) : Prop where
  ip_eq : rule.externalIp = ntohl p.ip.daddr
  port_eq : rule.externalPort = ntohs p.tcp.dport
  unmatched : nat.found p .dirIn = false

def RulesHonoured (nat : NatTable) (p : Packet) (now : ℤ) : Prop :=
  ∀ rule ∈ nat.rules, nat.Calls p rule → nat.Honours rule p now

/-- The internal endpoint of the rule is port 0 of the address 0.0.0.0, and no
entry of the chain of the remote host has this endpoint yet. -/
def Nowhere (nat : NatTable) (p : Packet) (rule : DnatRule) : Prop :=
  (rule.internalIp = 0 ∧ rule.internalPort = 0) ∧
    ∀ m ∈ nat.natMappingList (hashI (ntohl p.ip.saddr)), m.isInternal 0 0 = false

/-- What port 0 of the address 0.0.0.0 would answer. -/
def answerFromNowhere (p : Packet) : Packet :=
  { p with
    ip := { p.ip with saddr := htonl 0, daddr := p.ip.saddr }
    tcp := { p.tcp with sport := htons 0, dport := p.tcp.sport } }

section

variable {nat : NatTable} {p : Packet} {rule : DnatRule}

theorem isSource_answerFromNowhere (p : Packet) (m : NatMapping) :
    isSource (answerFromNowhere p) m = m.isInternal 0 0 := by
  change m.isInternal (ntohl (htonl 0)) (ntohs (htons 0)) = _
  rw [ntohl_htonl, ntohs_htons]

theorem found_inbound (nat : NatTable) (p : Packet) : nat.found p .dirIn =
    (nat.natMappingList (hashI (ntohl p.ip.saddr))).any (isDestination p) := by
  rw [found, if_pos rfl]
  rfl

/-- A packet that no mapping is for leaves one behind. -/
theorem natMappingList_unmatched (h : nat.found p .dirIn = false) (now : ℤ) :
    (nat.doTranslation p .dirIn now).1.natMappingList =
      Function.update nat.natMappingList (hashI (ntohl p.ip.saddr))
        (nat.natMappingList (hashI (ntohl p.ip.saddr)) ++
          [(newInbound p).noteInbound p.tcp now]) := by
  rw [found_inbound] at h
  rw [doTranslation, if_pos rfl]
  exact congrArg (Function.update nat.natMappingList _) (FirstMatch.upsert_of_not_any h)

/-- It goes to port 0 of the address 0.0.0.0. -/
theorem doTranslation_unmatched (h : nat.found p .dirIn = false) (now : ℤ) :
    (nat.doTranslation p .dirIn now).2.ip.daddr = htonl 0 ∧
      (nat.doTranslation p .dirIn now).2.tcp.dport = htons 0 := by
  rw [found_inbound, List.any_eq_false] at h
  have hnone : (nat.natMappingList (hashI (ntohl p.ip.saddr))).find? (isDestination p) = none :=
    List.find?_eq_none.mpr h
  have hentry : FirstMatch.entry (isDestination p) (newInbound p)
      (nat.natMappingList (hashI (ntohl p.ip.saddr))) = newInbound p := by
    rw [FirstMatch.entry, hnone, Option.getD_none]
  have htranslate : (nat.doTranslation p .dirIn now).2 =
      p.translateInbound (FirstMatch.entry (isDestination p) (newInbound p)
        (nat.natMappingList (hashI (ntohl p.ip.saddr)))) := rfl
  rw [htranslate, hentry]
  exact ⟨rfl, rfl⟩

theorem chainOf_answerFromNowhere (h : nat.found p .dirIn = false) (now : ℤ) :
    (nat.doTranslation p .dirIn now).1.chainOf (answerFromNowhere p) =
      nat.natMappingList (hashI (ntohl p.ip.saddr)) ++ [(newInbound p).noteInbound p.tcp now] := by
  rw [chainOf, natMappingList_unmatched h]
  exact Function.update_self _ _ _

theorem not_isDestination_of_mem (h : nat.found p .dirIn = false) {m : NatMapping}
    (hm : m ∈ nat.natMappingList (hashI (ntohl p.ip.saddr))) : isDestination p m = false := by
  rw [found_inbound, List.any_eq_false] at h
  exact Bool.of_not_eq_true (h m hm)

/-- The new mapping is the first with either of its endpoints. -/
theorem owns_unmatched (h : nat.found p .dirIn = false) (hnowhere : nat.Nowhere p rule)
    (now : ℤ) : (nat.doTranslation p .dirIn now).1.Owns (answerFromNowhere p)
      (ntohl p.ip.daddr, ntohs p.tcp.dport) := by
  refine ⟨(newInbound p).noteInbound p.tcp now, ?_, ?_, ?_⟩
  · rw [chainOf_answerFromNowhere h, List.find?_append, List.find?_eq_none.mpr, Option.none_or]
    · apply List.find?_cons_of_pos
      rw [Bool.or_eq_true]
      exact Or.inr ((NatMapping.isExternal_iff _ _ _).mpr ⟨rfl, rfl⟩)
    · intro m hm
      rw [isSource_answerFromNowhere, hnowhere.2 m hm, Bool.false_or]
      change ¬ isDestination p m = true
      rw [not_isDestination_of_mem h hm]
      decide
  · rw [isSource_answerFromNowhere, NatMapping.isInternal_iff]
    exact ⟨rfl, rfl⟩
  · rw [NatMapping.isExternal_iff]
    exact ⟨rfl, rfl⟩

/-- While the mapping is the first with either of its endpoints, it is found from
both sides. -/
theorem Owns.unswept (h : nat.Owns (answerFromNowhere p) (ntohl p.ip.daddr, ntohs p.tcp.dport))
    {ev : Event} (hev : UnsweptInbound p nat ev) : Unswept (answerFromNowhere p) nat ev := by
  cases ev with
  | packet p' dir now => trivial
  | timeout now =>
      obtain ⟨m, hfind, hsource, hexternal⟩ := h
      have hflow : nat.flowMapping (answerFromNowhere p) = some m :=
        FirstMatch.find?_of_find?_or hfind hsource
      have hswap : (fun b : NatMapping => isSource (answerFromNowhere p) b ||
          b.isExternal (ntohl p.ip.daddr) (ntohs p.tcp.dport)) =
          fun b => b.isExternal (ntohl p.ip.daddr) (ntohs p.tcp.dport) ||
            isSource (answerFromNowhere p) b := by
        funext b
        exact Bool.or_comm _ _
      rw [hswap] at hfind
      have hinbound : nat.inboundMapping p = some m :=
        FirstMatch.find?_of_find?_or hfind hexternal
      intro m' hm'
      rw [hflow] at hm'
      rw [← Option.some.inj hm']
      exact hev m hinbound

/-- A rule for nowhere is honoured. -/
theorem Calls.honours (hcalls : nat.Calls p rule) (hnowhere : nat.Nowhere p rule) (now : ℤ) :
    nat.Honours rule p now := by
  obtain ⟨hip, hport⟩ := hnowhere.1
  have htranslate := doTranslation_unmatched hcalls.unmatched now
  refine ⟨?_, ?_⟩
  · rw [hip, hport]
    exact htranslate
  · intro events hevents next later hsaddr hsport hdaddr _
    rw [hip] at hsaddr
    rw [hport] at hsport
    have howns : (run (nat.doTranslation p .dirIn now).1 events).Owns (answerFromNowhere p)
        (ntohl p.ip.daddr, ntohs p.tcp.dport) :=
      Transition.Along.invariant
        (fun s : NatTable => s.Owns (answerFromNowhere p) (ntohl p.ip.daddr, ntohs p.tcp.dport))
        (fun _ ev hs hev => hs.step ev (hs.unswept hev)) _ events
        (owns_unmatched hcalls.unmatched hnowhere now) hevents
    have hnext := doTranslation_out (run (nat.doTranslation p .dirIn now).1 events) next later
    rw [howns.next next hsaddr hsport hdaddr] at hnext
    rw [hcalls.ip_eq, hcalls.port_eq]
    exact hnext

/-- If a rule is honoured then it is for nowhere. -/
theorem Calls.nowhere_of_honours (hcalls : nat.Calls p rule) {now : ℤ}
    (h : nat.Honours rule p now) : nat.Nowhere p rule := by
  obtain ⟨⟨hdaddr, hdport⟩, hback⟩ := h
  have htranslate := doTranslation_unmatched hcalls.unmatched now
  have hip : rule.internalIp = 0 := by
    have heq := congrArg ntohl (hdaddr.symm.trans htranslate.1)
    rwa [ntohl_htonl, ntohl_htonl] at heq
  have hport : rule.internalPort = 0 := by
    have heq := congrArg ntohs (hdport.symm.trans htranslate.2)
    rwa [ntohs_htons, ntohs_htons] at heq
  refine ⟨⟨hip, hport⟩, ?_⟩
  intro m hm
  by_contra hinternal
  rw [Bool.not_eq_false] at hinternal
  -- an older entry with the endpoint 0.0.0.0:0 takes the answer
  obtain ⟨old, hold⟩ : ∃ old, (nat.natMappingList (hashI (ntohl p.ip.saddr))).find?
      (isSource (answerFromNowhere p)) = some old := by
    apply Option.isSome_iff_exists.mp
    rw [List.find?_isSome]
    exact ⟨m, hm, (isSource_answerFromNowhere p m).trans hinternal⟩
  have hflow : (nat.doTranslation p .dirIn now).1.flowMapping (answerFromNowhere p) =
      some old := by
    rw [flowMapping, chainOf_answerFromNowhere hcalls.unmatched, List.find?_append, hold,
      Option.some_or]
  have hout := doTranslation_out (nat.doTranslation p .dirIn now).1 (answerFromNowhere p) now
  rw [externalEndpoint, hflow] at hout
  obtain ⟨hsaddr, hsport⟩ := hback [] trivial (answerFromNowhere p) now (congrArg htonl hip.symm)
    (congrArg htons hport.symm) rfl rfl
  have hdestination : isDestination p old = true := by
    rw [isDestination, NatMapping.isExternal_iff, ← hcalls.ip_eq, ← hcalls.port_eq]
    have heq := congrArg ntohl (hout.1.symm.trans hsaddr)
    have heq' := congrArg ntohs (hout.2.symm.trans hsport)
    rw [ntohl_htonl, ntohl_htonl] at heq
    rw [ntohs_htons, ntohs_htons] at heq'
    exact ⟨heq, heq'⟩
  rw [not_isDestination_of_mem hcalls.unmatched (List.mem_of_find?_eq_some hold)] at hdestination
  exact absurd hdestination (by decide)

end

/-- The rules that a packet calls are honoured exactly if they are for nowhere. -/
theorem rulesHonoured_iff (nat : NatTable) (p : Packet) (now : ℤ) :
    nat.RulesHonoured p now ↔ ∀ rule ∈ nat.rules, nat.Calls p rule → nat.Nowhere p rule := by
  apply forall₂_congr
  intro rule _
  constructor
  · intro h hcalls
    exact hcalls.nowhere_of_honours (h hcalls)
  · intro h hcalls
    exact hcalls.honours (h hcalls) now

/-- The first packet to a server that a rule has been installed for. -/
theorem not_rulesHonoured_server :
    let external : UInt32 := 0x9fe2272b
    let remote : UInt32 := 0x9fe2277b
    let rule : DnatRule := {
      externalIp := external, externalPort := 8000, internalIp := 0x0a150001, internalPort := 8000 }
    ¬ (natInit ⟨external⟩ [rule]).RulesHonoured (Packet.bare remote 4000 external 8000 TCP_SYN)
      0 := by
  intro external remote rule h
  have hcalls : (natInit ⟨external⟩ [rule]).Calls
      (Packet.bare remote 4000 external 8000 TCP_SYN) rule :=
    { ip_eq := by decide +kernel, port_eq := by decide +kernel, unmatched := by decide +kernel }
  have hdaddr := (h rule List.mem_cons_self hcalls).1.1
  exact absurd hdaddr (by decide +kernel)

end NatTable

end NetworkLabs
