import NetworkLabs.AddressTranslation.Table

/-!
# What a packet and a sweep do to the table

A packet updates one chain: the first mapping that fits it gets new statistics,
or a new mapping is put at the end. A sweep filters every chain and gives back
the ports of what it removed.
-/

namespace NetworkLabs

/-! ## What a packet keeps -/

/-- At most the source and the checksums of the second packet differ from the
first. -/
structure Packet.SourceTranslated (p q : Packet) : Prop where
  ip_eq : q.ip = { p.ip with saddr := q.ip.saddr, checksum := q.ip.checksum }
  options_eq : q.options = p.options
  tcp_eq : q.tcp = { p.tcp with sport := q.tcp.sport, checksum := q.tcp.checksum }
  data_eq : q.data = p.data

/-- At most the destination and the checksums of the second packet differ from
the first. -/
structure Packet.DestinationTranslated (p q : Packet) : Prop where
  ip_eq : q.ip = { p.ip with daddr := q.ip.daddr, checksum := q.ip.checksum }
  options_eq : q.options = p.options
  tcp_eq : q.tcp = { p.tcp with dport := q.tcp.dport, checksum := q.tcp.checksum }
  data_eq : q.data = p.data

theorem Packet.sourceTranslated (p : Packet) (m : NatMapping) :
    p.SourceTranslated (p.translateOutbound m) := ⟨rfl, rfl, rfl, rfl⟩

theorem Packet.destinationTranslated (p : Packet) (m : NatMapping) :
    p.DestinationTranslated (p.translateInbound m) := ⟨rfl, rfl, rfl, rfl⟩

namespace NatMapping

@[simp] theorem isExternal_noteOutbound (m : NatMapping) (tcp : Tcphdr) (now : ℤ) (ip : UInt32)
    (port : UInt16) : (m.noteOutbound tcp now).isExternal ip port = m.isExternal ip port := rfl

theorem isInternal_iff (m : NatMapping) (ip : UInt32) (port : UInt16) :
    m.isInternal ip port = true ↔ m.internalIp = ip ∧ m.internalPort = port := by
  rw [isInternal, Bool.and_eq_true, beq_iff_eq, beq_iff_eq]

theorem isExternal_iff (m : NatMapping) (ip : UInt32) (port : UInt16) :
    m.isExternal ip port = true ↔ m.externalIp = ip ∧ m.externalPort = port := by
  rw [isExternal, Bool.and_eq_true, beq_iff_eq, beq_iff_eq]

end NatMapping

namespace NatTable

/-- The chain in which a packet from inside and the replies to it are looked
up. -/
def chainOf (nat : NatTable) (p : Packet) : List NatMapping :=
  nat.natMappingList (hashI (ntohl p.ip.daddr))

/-- The mapping comes from the endpoint that the packet comes from. -/
def isSource (p : Packet) (m : NatMapping) : Bool :=
  m.isInternal (ntohl p.ip.saddr) (ntohs p.tcp.sport)

/-! ## Ports -/

/-- The ports that the loop looks at. -/
def poolPorts : List UInt16 := (List.range' 12345 11111).map UInt16.ofNat

/-- The lowest port of the pool that is not assigned. -/
def freePort (assigned : UInt16 → Bool) : Option UInt16 :=
  poolPorts.find? fun i => !assigned i

theorem mem_poolPorts_iff (port : UInt16) :
    port ∈ poolPorts ↔ NAT_PORT_MIN ≤ port ∧ port < NAT_PORT_MAX := by
  have hmin : NAT_PORT_MIN.toNat = 12345 := rfl
  have hmax : NAT_PORT_MAX.toNat = 23456 := rfl
  rw [poolPorts, List.mem_map, UInt16.le_iff_toNat_le, UInt16.lt_iff_toNat_lt, hmin, hmax]
  constructor
  · rintro ⟨k, hk, rfl⟩
    rw [List.mem_range'_1] at hk
    rw [UInt16.toNat_ofNat', Nat.mod_eq_of_lt (by omega)]
    omega
  · rintro ⟨hle, hlt⟩
    refine ⟨port.toNat, ?_, UInt16.ofNat_toNat⟩
    rw [List.mem_range'_1]
    omega

theorem assignLoop_eq (assigned : UInt16 → Bool) (rounds k : ℕ) :
    assignLoop assigned rounds (UInt16.ofNat k) =
      match ((List.range' k rounds).map UInt16.ofNat).find? (fun i => !assigned i) with
      | some i => (Function.update assigned i true, i)
      | none => (assigned, UInt16.ofNat (k + rounds)) := by
  induction rounds generalizing k with
  | zero => rfl
  | succ rounds ih =>
      have hnext : UInt16.ofNat k + 1 = UInt16.ofNat (k + 1) := (UInt16.ofNat_add k 1).symm
      rw [assignLoop, List.range'_succ, List.map_cons, List.find?_cons]
      cases hfree : !assigned (UInt16.ofNat k)
      · rw [if_neg Bool.false_ne_true, hnext, ih, Nat.add_right_comm k 1 rounds]
        rfl
      · rw [if_pos rfl]

/-- A new mapping gets the lowest port that is free, which is then assigned, and
`NAT_PORT_MAX` when there is none. -/
theorem assignPort_eq (assigned : UInt16 → Bool) : assignPort assigned =
    match freePort assigned with
    | some i => (Function.update assigned i true, i)
    | none => (assigned, NAT_PORT_MAX) :=
  assignLoop_eq assigned 11111 12345

theorem freePort_eq_none_iff (assigned : UInt16 → Bool) : freePort assigned = none ↔
    ∀ port, NAT_PORT_MIN ≤ port → port < NAT_PORT_MAX → assigned port = true := by
  rw [freePort, List.find?_eq_none]
  constructor
  · intro hall port hle hlt
    have hport := hall port ((mem_poolPorts_iff port).mpr ⟨hle, hlt⟩)
    simpa using hport
  · intro hall port hport
    obtain ⟨hle, hlt⟩ := (mem_poolPorts_iff port).mp hport
    simp [hall port hle hlt]

theorem of_freePort_eq_some {assigned : UInt16 → Bool} {port : UInt16}
    (h : freePort assigned = some port) :
    NAT_PORT_MIN ≤ port ∧ port < NAT_PORT_MAX ∧ assigned port = false := by
  obtain ⟨hle, hlt⟩ := (mem_poolPorts_iff port).mp (List.mem_of_find?_eq_some h)
  exact ⟨hle, hlt, by simpa using List.find?_some h⟩

/-! ## Sweeps -/

section

variable (now : ℤ)

theorem foldl_timeoutEntry (l kept : List NatMapping) (assigned : UInt16 → Bool) :
    (l.foldl (timeoutEntry now) (assigned, kept)).2 =
        kept ++ l.filter (fun m => !isExpired now m) ∧
      ∀ port, (l.foldl (timeoutEntry now) (assigned, kept)).1 port = true ↔
        assigned port = true ∧ ∀ m ∈ l, isExpired now m = true → m.externalPort ≠ port := by
  induction l generalizing kept assigned with
  | nil => simp
  | cons m l ih =>
      rw [List.foldl_cons, timeoutEntry]
      by_cases hm : isExpired now m = true
      · rw [if_pos hm]
        obtain ⟨hkept, hports⟩ := ih kept (Function.update assigned m.externalPort false)
        refine ⟨by rw [hkept, List.filter_cons_of_neg (by simp [hm])], ?_⟩
        intro port
        rw [hports, List.forall_mem_cons]
        by_cases hport : port = m.externalPort
        · subst hport
          simp [hm]
        · rw [Function.update_of_ne hport]
          simp [Ne.symm hport]
      · rw [if_neg hm]
        obtain ⟨hkept, hports⟩ := ih (kept ++ [m]) assigned
        refine ⟨by rw [hkept, List.filter_cons_of_pos (by simp [hm]), List.append_assoc]; rfl, ?_⟩
        intro port
        rw [hports, List.forall_mem_cons]
        simp [hm]

theorem natMappingList_timeoutChain (nat : NatTable) (c i : UInt8) :
    (timeoutChain now nat c).natMappingList i = if i = c
      then (nat.natMappingList i).filter (fun m => !isExpired now m)
      else nat.natMappingList i := by
  rw [timeoutChain]
  split_ifs with hi
  · subst hi
    simp only [Function.update_self]
    exact (foldl_timeoutEntry now _ [] _).1
  · simp only [Function.update_of_ne hi]

theorem assignedPorts_timeoutChain (nat : NatTable) (c : UInt8) (port : UInt16) :
    (timeoutChain now nat c).assignedPorts port = true ↔ nat.assignedPorts port = true ∧
      ∀ m ∈ nat.natMappingList c, isExpired now m = true → m.externalPort ≠ port :=
  (foldl_timeoutEntry now _ [] _).2 port

theorem foldl_timeoutChain (cs : List UInt8) (nat : NatTable) :
    (∀ i, (cs.foldl (timeoutChain now) nat).natMappingList i = if i ∈ cs
      then (nat.natMappingList i).filter (fun m => !isExpired now m)
      else nat.natMappingList i) ∧
    (∀ port, (cs.foldl (timeoutChain now) nat).assignedPorts port = true ↔
      nat.assignedPorts port = true ∧ ∀ c ∈ cs, ∀ m ∈ nat.natMappingList c,
        isExpired now m = true → m.externalPort ≠ port) ∧
    (cs.foldl (timeoutChain now) nat).rules = nat.rules := by
  induction cs generalizing nat with
  | nil => simp
  | cons c cs ih =>
      obtain ⟨hlists, hports, hrules⟩ := ih (timeoutChain now nat c)
      rw [List.foldl_cons]
      refine ⟨?_, ?_, hrules⟩
      · intro i
        rw [hlists, natMappingList_timeoutChain]
        by_cases hc : i = c
        · subst hc
          rw [if_pos rfl, if_pos List.mem_cons_self]
          split_ifs
          · simp only [List.filter_filter, Bool.and_self]
          · rfl
        · simp only [List.mem_cons, hc, false_or, if_false]
      · intro port
        rw [hports, assignedPorts_timeoutChain, List.forall_mem_cons, and_assoc]
        refine and_congr_right fun _ => and_congr_right fun hfirst => ?_
        apply forall₂_congr
        intro i _
        rw [natMappingList_timeoutChain]
        split_ifs with hi
        · subst hi
          constructor
          · exact fun _ => hfirst
          · exact fun hall m hm => hall m (List.mem_of_mem_filter hm)
        · exact Iff.rfl

theorem mem_chains (i : UInt8) : i ∈ chains := by
  rw [chains, List.mem_map]
  exact ⟨i.toNat, List.mem_range.mpr i.toNat_lt, UInt8.ofNat_toNat⟩

/-- A sweep keeps the mappings that are not expired. -/
theorem natMappingList_natTimeout (nat : NatTable) (i : UInt8) :
    (nat.natTimeout now).natMappingList i =
      (nat.natMappingList i).filter (fun m => !isExpired now m) := by
  rw [natTimeout, (foldl_timeoutChain now chains nat).1 i, if_pos (mem_chains i)]

/-- A sweep gives back the ports of the mappings that it removes. -/
theorem assignedPorts_natTimeout (nat : NatTable) (port : UInt16) :
    (nat.natTimeout now).assignedPorts port = true ↔ nat.assignedPorts port = true ∧
      ∀ i, ∀ m ∈ nat.natMappingList i, isExpired now m = true → m.externalPort ≠ port := by
  rw [natTimeout, (foldl_timeoutChain now chains nat).2.1 port]
  simp only [mem_chains, true_imp_iff]

theorem rules_natTimeout (nat : NatTable) : (nat.natTimeout now).rules = nat.rules :=
  (foldl_timeoutChain now chains nat).2.2

end

end NatTable

end NetworkLabs
