import NetworkLabs.AddressTranslation.Steps
import NetworkLabs.Library.Transition

/-!
# Who holds which port

The pool of ports is meant to say which ports are in use: a port is given to one
flow only, and is given back once nobody holds it. The pool and the mappings
agree in this sense at the start, and every event keeps them in agreement with
three exceptions: a packet from outside that creates a mapping with a port that
is not assigned, a packet from inside when all ports are assigned, and a sweep
that gives back a port which another mapping or a rule still holds. The
exceptions are exact.
-/

namespace NetworkLabs

namespace NatTable

/-- The mappings are not both created for flows from inside, or hold different
ports. -/
def DistinctPorts (m m' : NatMapping) : Prop :=
  m.created = .dirOut → m'.created = .dirOut → m.externalPort ≠ m'.externalPort

instance : DecidableRel DistinctPorts := fun _ _ => inferInstanceAs (Decidable (_ → _ → _))

/-- The flows from inside have ports of the pool to themselves, and a port that
is not assigned is held by nobody. -/
structure Exclusive (nat : NatTable) : Prop where
  distinct : ∀ i, (nat.natMappingList i).Pairwise DistinctPorts
  apart : ∀ i j, i ≠ j → ∀ m ∈ nat.natMappingList i, ∀ m' ∈ nat.natMappingList j,
    DistinctPorts m m'
  owned : ∀ i, ∀ m ∈ nat.natMappingList i, m.created = .dirOut →
    (NAT_PORT_MIN ≤ m.externalPort ∧ m.externalPort < NAT_PORT_MAX) ∧
      nat.assignedPorts m.externalPort = true ∧
      ∀ rule ∈ nat.rules, rule.externalPort ≠ m.externalPort
  unassigned : ∀ port, nat.assignedPorts port = false →
    (∀ i, ∀ m ∈ nat.natMappingList i, m.externalPort ≠ port) ∧
      ∀ rule ∈ nat.rules, rule.externalPort ≠ port

/-- A mapping fits the packet. -/
def found (nat : NatTable) (p : Packet) (dir : PacketDir) : Bool :=
  if dir = .dirIn then
    (nat.natMappingList (hashI (ntohl p.ip.saddr))).any fun m =>
      m.isExternal (ntohl p.ip.daddr) (ntohs p.tcp.dport)
  else (nat.chainOf p).any (isSource p)

/-- A packet that no mapping fits comes from outside to an assigned port, or from
inside while a port of the pool is free; a sweep gives back no port that is still
held. -/
def KeepsExclusive (nat : NatTable) : Event → Prop
  | .packet p dir _ => nat.found p dir = true ∨
      if dir = .dirIn then nat.assignedPorts (ntohs p.tcp.dport) = true
      else ∃ port, NAT_PORT_MIN ≤ port ∧ port < NAT_PORT_MAX ∧ nat.assignedPorts port = false
  | .timeout now => ∀ i, ∀ m ∈ nat.natMappingList i, isExpired now m = true →
      (∀ j, ∀ m' ∈ nat.natMappingList j, isExpired now m' = false →
        m'.externalPort ≠ m.externalPort) ∧
      ∀ rule ∈ nat.rules, rule.externalPort ≠ m.externalPort

/-- The table is empty, and the ports of its rules are assigned. -/
structure Installed (nat : NatTable) : Prop where
  empty : ∀ i, nat.natMappingList i = []
  assigned : ∀ rule ∈ nat.rules, nat.assignedPorts rule.externalPort = true

theorem Installed.installRule {nat : NatTable} (h : nat.Installed) (new : DnatRule) :
    (nat.installRule new).Installed where
  empty := h.empty
  assigned := by
    intro rule hrule
    by_cases heq : rule.externalPort = new.externalPort
    · rw [heq]
      exact Function.update_self _ _ _
    · refine (Function.update_of_ne heq _ _).trans (h.assigned rule ?_)
      rcases List.mem_append.mp hrule with hold | hnew
      · exact hold
      · exact absurd (congrArg DnatRule.externalPort (List.mem_singleton.mp hnew)) heq

theorem installed_natInit (externalIface : IfaceInfo) (rules : List DnatRule) :
    (natInit externalIface rules).Installed :=
  Transition.foldl_invariant Installed (fun _ new h => h.installRule new) _ rules
    { empty := fun _ => rfl, assigned := fun _ hrule => absurd hrule List.not_mem_nil }

theorem exclusive_natInit (externalIface : IfaceInfo) (rules : List DnatRule) :
    (natInit externalIface rules).Exclusive := by
  obtain ⟨hempty, hrules⟩ := installed_natInit externalIface rules
  have hnone : ∀ i, ∀ m, m ∉ (natInit externalIface rules).natMappingList i := by
    intro i m
    rw [hempty i]
    exact List.not_mem_nil
  exact {
    distinct := by
      intro i
      rw [hempty i]
      exact List.Pairwise.nil
    apart := fun i _ _ m hm => absurd hm (hnone i m)
    owned := fun i m hm => absurd hm (hnone i m)
    unassigned := by
      intro port hport
      refine ⟨fun i m hm => absurd hm (hnone i m), ?_⟩
      intro rule hrule heq
      rw [← heq, hrules rule hrule] at hport
      exact absurd hport (by decide) }

section

variable {nat nat' : NatTable}

/-- A step that changes neither the direction nor the port of a mapping. -/
theorem Exclusive.of_held_eq (h : nat.Exclusive)
    (hheld : ∀ i, (nat'.natMappingList i).map (fun m => (m.created, m.externalPort)) =
      (nat.natMappingList i).map (fun m => (m.created, m.externalPort)))
    (hports : nat'.assignedPorts = nat.assignedPorts) (hrules : nat'.rules = nat.rules) :
    nat'.Exclusive := by
  have hmem : ∀ i, ∀ m ∈ nat'.natMappingList i, ∃ m₀ ∈ nat.natMappingList i,
      m.created = m₀.created ∧ m.externalPort = m₀.externalPort := by
    intro i m hm
    have hkey := List.mem_map_of_mem (f := fun m : NatMapping => (m.created, m.externalPort)) hm
    rw [hheld i] at hkey
    obtain ⟨m₀, hm₀, heq⟩ := List.mem_map.mp hkey
    exact ⟨m₀, hm₀, (congrArg Prod.fst heq).symm, (congrArg Prod.snd heq).symm⟩
  exact {
    distinct := by
      intro i
      have hold := h.distinct i
      let R : PacketDir × UInt16 → PacketDir × UInt16 → Prop :=
        fun k k' => k.1 = .dirOut → k'.1 = .dirOut → k.2 ≠ k'.2
      have hmap : ∀ l : List NatMapping, l.Pairwise DistinctPorts ↔
          (l.map fun m => (m.created, m.externalPort)).Pairwise R := by
        intro l
        rw [List.pairwise_map]
        exact Iff.rfl
      rw [hmap, hheld i, ← hmap]
      exact hold
    apart := by
      intro i j hij m hm m' hm'
      obtain ⟨m₀, hm₀, hdir, hport⟩ := hmem i m hm
      obtain ⟨m₁, hm₁, hdir', hport'⟩ := hmem j m' hm'
      rw [DistinctPorts]
      rw [hdir, hdir', hport, hport']
      exact h.apart i j hij m₀ hm₀ m₁ hm₁
    owned := by
      intro i m hm
      obtain ⟨m₀, hm₀, hdir, hport⟩ := hmem i m hm
      rw [hdir, hport, hports, hrules]
      exact h.owned i m₀ hm₀
    unassigned := by
      intro port hport
      rw [hports] at hport
      obtain ⟨hmappings, hnone⟩ := h.unassigned port hport
      rw [hrules]
      refine ⟨?_, hnone⟩
      intro i m hm
      obtain ⟨m₀, hm₀, -, heq⟩ := hmem i m hm
      rw [heq]
      exact hmappings i m₀ hm₀ }

/-- The mappings of a table with a new one at the end of a chain. -/
theorem mem_append_iff {i : UInt8} {m : NatMapping}
    (hlists : nat'.natMappingList =
      Function.update nat.natMappingList i (nat.natMappingList i ++ [m]))
    (j : UInt8) (m' : NatMapping) : m' ∈ nat'.natMappingList j ↔
      m' ∈ nat.natMappingList j ∨ (j = i ∧ m' = m) := by
  rw [hlists]
  by_cases hj : j = i
  · subst hj
    rw [Function.update_self, List.mem_append, List.mem_singleton, and_iff_right rfl]
  · rw [Function.update_of_ne hj]
    exact (or_iff_left fun heq => hj heq.1).symm

/-- A new mapping at the end of a chain, whose port is then assigned; a flow from
inside gets a free port of the pool. -/
theorem Exclusive.append (h : nat.Exclusive) {i : UInt8} {m : NatMapping}
    (hlists : nat'.natMappingList =
      Function.update nat.natMappingList i (nat.natMappingList i ++ [m]))
    (hports : ∀ port, nat'.assignedPorts port = true ↔
      nat.assignedPorts port = true ∨ port = m.externalPort)
    (hrules : nat'.rules = nat.rules)
    (hout : m.created = .dirOut → (NAT_PORT_MIN ≤ m.externalPort ∧
      m.externalPort < NAT_PORT_MAX) ∧ nat.assignedPorts m.externalPort = false) :
    nat'.Exclusive := by
  have hmem := fun j m' => (mem_append_iff hlists j m').mp
  have hnew : ∀ j, ∀ m' ∈ nat.natMappingList j, m.created = .dirOut →
      m'.externalPort ≠ m.externalPort := by
    intro j m' hm' hdir
    exact (h.unassigned _ (hout hdir).2).1 j m' hm'
  exact {
    distinct := by
      intro j
      rw [hlists]
      by_cases hj : j = i
      · subst hj
        rw [Function.update_self, List.pairwise_append]
        refine ⟨h.distinct j, List.pairwise_singleton _ _, ?_⟩
        intro m' hm' m'' hm'' hdir hdir'
        rw [List.mem_singleton.mp hm''] at hdir' ⊢
        exact hnew j m' hm' hdir'
      · rw [Function.update_of_ne hj]
        exact h.distinct j
    apart := by
      intro j k hjk m' hm' m'' hm'' hdir hdir'
      rcases hmem j m' hm' with hold | ⟨rfl, rfl⟩
      · rcases hmem k m'' hm'' with hold' | ⟨-, rfl⟩
        · exact h.apart j k hjk m' hold m'' hold' hdir hdir'
        · exact hnew j m' hold hdir'
      · rcases hmem k m'' hm'' with hold' | ⟨rfl, -⟩
        · exact (hnew k m'' hold' hdir).symm
        · exact absurd rfl hjk
    owned := by
      intro j m' hm' hdir
      rw [hports, hrules]
      rcases hmem j m' hm' with hold | ⟨-, rfl⟩
      · obtain ⟨hrange, hassigned, hnone⟩ := h.owned j m' hold hdir
        exact ⟨hrange, Or.inl hassigned, hnone⟩
      · obtain ⟨hrange, hfree⟩ := hout hdir
        exact ⟨hrange, Or.inr rfl, (h.unassigned _ hfree).2⟩
    unassigned := by
      intro port hport
      have hnot := (hports port).not.mp (by rw [hport]; decide)
      rw [not_or, Bool.not_eq_true] at hnot
      obtain ⟨hmappings, hnone⟩ := h.unassigned port hnot.1
      rw [hrules]
      refine ⟨?_, hnone⟩
      intro j m' hm'
      rcases hmem j m' hm' with hold | ⟨-, rfl⟩
      · exact hmappings j m' hold
      · exact Ne.symm hnot.2 }

/-! ## The events -/

/-- Statistics are no matter of ports. -/
theorem Exclusive.of_upsert (h : nat.Exclusive) {i : UInt8} {fits : NatMapping → Bool}
    {f : NatMapping → NatMapping} {fresh : NatMapping}
    (hlists : nat'.natMappingList = Function.update nat.natMappingList i
      (FirstMatch.upsert fits f fresh (nat.natMappingList i)))
    (hf : ∀ m, ((f m).created, (f m).externalPort) = (m.created, m.externalPort))
    (hfits : (nat.natMappingList i).any fits = true)
    (hports : nat'.assignedPorts = nat.assignedPorts) (hrules : nat'.rules = nat.rules) :
    nat'.Exclusive := by
  apply h.of_held_eq _ hports hrules
  intro j
  rw [hlists]
  by_cases hj : j = i
  · subst hj
    rw [Function.update_self]
    exact FirstMatch.map_upsert_of_any hf hfits
  · rw [Function.update_of_ne hj]

/-- A packet from outside is told apart by the port that it is addressed to. -/
theorem exclusive_translateIn_iff (h : nat.Exclusive) (p : Packet) (now : ℤ) :
    (nat.translateIn p now).1.Exclusive ↔
      nat.found p .dirIn = true ∨ nat.assignedPorts (ntohs p.tcp.dport) = true := by
  rw [found, if_pos rfl]
  cases hfits : (nat.natMappingList (hashI (ntohl p.ip.saddr))).any fun m =>
      m.isExternal (ntohl p.ip.daddr) (ntohs p.tcp.dport) with
  | true =>
      simp only [true_or, iff_true]
      exact h.of_upsert rfl (fun _ => rfl) hfits rfl rfl
  | false =>
      obtain ⟨m, hlists, hdir, hport⟩ : ∃ m : NatMapping,
          (nat.translateIn p now).1.natMappingList = Function.update nat.natMappingList _
            (nat.natMappingList (hashI (ntohl p.ip.saddr)) ++ [m]) ∧
          m.created = .dirIn ∧ m.externalPort = ntohs p.tcp.dport :=
        ⟨_, congrArg (Function.update nat.natMappingList _)
          (FirstMatch.upsert_of_not_any hfits), rfl, rfl⟩
      simp only [Bool.false_eq_true, false_or]
      constructor
      · intro hafter
        by_contra hnot
        rw [Bool.not_eq_true] at hnot
        exact (hafter.unassigned _ hnot).1 _ m
          ((mem_append_iff hlists _ m).mpr (Or.inr ⟨rfl, rfl⟩)) hport
      · intro hassigned
        apply h.append hlists _ rfl
        · intro hout
          rw [hdir] at hout
          exact absurd hout (by decide)
        · intro port
          rw [hport]
          constructor
          · exact Or.inl
          · rintro (hold | rfl)
            · exact hold
            · exact hassigned

/-- A new mapping for a packet from inside. -/
theorem translateOut_new (nat : NatTable) (p : Packet) (now : ℤ)
    (hnone : (nat.chainOf p).any (isSource p) = false) : ∃ m : NatMapping,
      (nat.translateOut p now).1.natMappingList = Function.update nat.natMappingList
        (hashI (ntohl p.ip.daddr)) (nat.natMappingList (hashI (ntohl p.ip.daddr)) ++ [m]) ∧
      m.created = .dirOut ∧
      assignPort nat.assignedPorts =
        ((nat.translateOut p now).1.assignedPorts, m.externalPort) := by
  refine ⟨_, congrArg (Function.update nat.natMappingList _)
    (FirstMatch.upsert_of_not_any hnone), rfl, ?_⟩
  refine Prod.ext (if_neg ?_).symm rfl
  change ¬ (nat.chainOf p).any (isSource p) = true
  rw [hnone]
  decide

/-- A packet from inside takes a free port, if there is one. -/
theorem exclusive_translateOut_iff (h : nat.Exclusive) (p : Packet) (now : ℤ) :
    (nat.translateOut p now).1.Exclusive ↔ nat.found p .dirOut = true ∨
      ∃ port, NAT_PORT_MIN ≤ port ∧ port < NAT_PORT_MAX ∧ nat.assignedPorts port = false := by
  rw [found, if_neg (by decide)]
  cases hfits : (nat.chainOf p).any (isSource p) with
  | true =>
      simp only [true_or, iff_true]
      exact h.of_upsert rfl (fun _ => rfl) hfits (if_pos hfits) rfl
  | false =>
      obtain ⟨m, hlists, hdir, hassign⟩ := translateOut_new nat p now hfits
      rw [assignPort_eq] at hassign
      simp only [Bool.false_eq_true, false_or]
      cases hfree : freePort nat.assignedPorts with
      | some port =>
          simp only [hfree, Prod.mk.injEq] at hassign
          obtain ⟨hpool, rfl⟩ := hassign
          obtain ⟨hle, hlt, hunassigned⟩ := of_freePort_eq_some hfree
          refine iff_of_true ?_ ⟨m.externalPort, hle, hlt, hunassigned⟩
          apply h.append hlists _ rfl fun _ => ⟨⟨hle, hlt⟩, hunassigned⟩
          intro other
          rw [← hpool]
          by_cases heq : other = m.externalPort
          · rw [heq, Function.update_self]
            exact iff_of_true rfl (Or.inr rfl)
          · rw [Function.update_of_ne heq]
            exact (or_iff_left heq).symm
      | none =>
          simp only [hfree, Prod.mk.injEq] at hassign
          have hall := (freePort_eq_none_iff _).mp hfree
          refine iff_of_false ?_ ?_
          · intro hafter
            have hmem := (mem_append_iff hlists _ m).mpr (Or.inr ⟨rfl, rfl⟩)
            have hlt := (hafter.owned _ m hmem hdir).1.2
            rw [← hassign.2] at hlt
            exact absurd hlt (by decide)
          · rintro ⟨port, hle, hlt, hunassigned⟩
            rw [hall port hle hlt] at hunassigned
            exact absurd hunassigned (by decide)

/-- A sweep may take a port from those who still hold it. -/
theorem exclusive_natTimeout_iff (h : nat.Exclusive) (now : ℤ) :
    (nat.natTimeout now).Exclusive ↔ nat.KeepsExclusive (.timeout now) := by
  have hkept : ∀ i m, m ∈ (nat.natTimeout now).natMappingList i ↔
      m ∈ nat.natMappingList i ∧ isExpired now m = false := by
    intro i m
    rw [natMappingList_natTimeout, List.mem_filter, Bool.not_eq_true']
  have hports := assignedPorts_natTimeout now nat
  have hrules := rules_natTimeout now nat
  constructor
  · intro hafter i m hm hexpired
    have hgone : (nat.natTimeout now).assignedPorts m.externalPort = false := by
      rw [← Bool.not_eq_true, hports]
      exact fun hstill => hstill.2 i m hm hexpired rfl
    obtain ⟨hmappings, hnone⟩ := hafter.unassigned _ hgone
    rw [hrules] at hnone
    exact ⟨fun j m' hm' halive => hmappings j m' ((hkept j m').mpr ⟨hm', halive⟩), hnone⟩
  · intro hkeeps
    exact {
      distinct := by
        intro i
        rw [natMappingList_natTimeout]
        exact (h.distinct i).filter _
      apart := by
        intro i j hij m hm m' hm'
        exact h.apart i j hij m ((hkept i m).mp hm).1 m' ((hkept j m').mp hm').1
      owned := by
        intro i m hm hdir
        obtain ⟨hold, halive⟩ := (hkept i m).mp hm
        obtain ⟨hrange, hassigned, hnone⟩ := h.owned i m hold hdir
        rw [hports, hrules]
        refine ⟨hrange, ⟨hassigned, ?_⟩, hnone⟩
        intro j m' hm' hexpired
        exact ((hkeeps j m' hm' hexpired).1 i m hold halive).symm
      unassigned := by
        intro port hport
        have hnot := (hports port).not.mp (by rw [hport]; decide)
        rw [hrules]
        by_cases hassigned : nat.assignedPorts port = true
        · have hlost : ∃ j, ∃ m ∈ nat.natMappingList j,
              isExpired now m = true ∧ m.externalPort = port := by
            by_contra hnone
            apply hnot
            refine ⟨hassigned, ?_⟩
            intro j m hm hexpired heq
            exact hnone ⟨j, m, hm, hexpired, heq⟩
          obtain ⟨j, m, hm, hexpired, rfl⟩ := hlost
          obtain ⟨hmappings, hnone⟩ := hkeeps j m hm hexpired
          refine ⟨?_, hnone⟩
          intro i m' hm'
          obtain ⟨hold, halive⟩ := (hkept i m').mp hm'
          exact hmappings i m' hold halive
        · rw [Bool.not_eq_true] at hassigned
          obtain ⟨hmappings, hnone⟩ := h.unassigned port hassigned
          refine ⟨?_, hnone⟩
          intro i m' hm'
          exact hmappings i m' ((hkept i m').mp hm').1 }

theorem exclusive_step_iff (h : nat.Exclusive) (ev : Event) :
    (nat.step ev).Exclusive ↔ nat.KeepsExclusive ev := by
  cases ev with
  | packet p dir now =>
      change (nat.doTranslation p dir now).1.Exclusive ↔ nat.found p dir = true ∨
        if dir = .dirIn then nat.assignedPorts (ntohs p.tcp.dport) = true
        else ∃ port, NAT_PORT_MIN ≤ port ∧ port < NAT_PORT_MAX ∧ nat.assignedPorts port = false
      rw [doTranslation]
      by_cases hdir : dir = .dirIn
      · subst hdir
        rw [if_pos rfl, if_pos rfl]
        exact exclusive_translateIn_iff h p now
      · have hfound : nat.found p dir = nat.found p .dirOut := by
          rw [found, found, if_neg hdir, if_neg (by decide)]
        rw [if_neg hdir, if_neg hdir, hfound]
        exact exclusive_translateOut_iff h p now
  | timeout now => exact exclusive_natTimeout_iff h now

end

/-- The pool and the mappings agree all along a run exactly when every event of
the run keeps them in agreement. -/
theorem run_exclusive_iff (externalIface : IfaceInfo) (rules : List DnatRule)
    (events : List Event) :
    (∀ k, ((natInit externalIface rules).run (events.take k)).Exclusive) ↔
      Transition.Along step KeepsExclusive (natInit externalIface rules) events :=
  Transition.forall_take_iff_along Exclusive (fun _ ev h => exclusive_step_iff h ev) _ events
    (exclusive_natInit externalIface rules)

/-- A packet from elsewhere to the port of a flow creates a second mapping with
that port. When this mapping is swept, the port of the flow, which is still
alive, is given to another flow. -/
theorem not_exclusive_sharedPort :
    let external : UInt32 := 0x9fe2272b
    let remote : UInt32 := 0x9fe2277b
    let elsewhere : UInt32 := 0x9fe2277c
    let host : UInt32 := 0x0a150001
    let otherHost : UInt32 := 0x0a150002
    ¬ ((natInit ⟨external⟩ []).run [
      .packet (Packet.bare host 4000 remote 80 0x02) .dirOut 0,
      .packet (Packet.bare elsewhere 80 external 12345 0x02) .dirIn 0,
      .packet (Packet.bare host 4000 remote 80 0x10) .dirOut 50,
      .timeout 61,
      .packet (Packet.bare otherHost 4000 remote 80 0x02) .dirOut 61]).Exclusive := by
  intro external remote elsewhere host otherHost h
  exact absurd (h.distinct (hashI remote)) (by decide +kernel)

end NatTable

end NetworkLabs
