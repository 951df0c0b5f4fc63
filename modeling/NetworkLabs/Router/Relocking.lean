import NetworkLabs.Router.Locking

/-!
# Which calls take the lock twice

A call is described by what it stops with, if anything, and by the state it ends
in otherwise. All calls but the sweep release the lock before they go on, and
stop at most at a missing route. The sweep stops at the first packet that it
gives up and cannot answer directly: a route that is missing ends it, and a route
with a gateway leads back to the lock.
-/

namespace NetworkLabs

namespace Router

open Halting

variable {ι : Type*}

namespace Thread

/-- The thread after an operation of the cache. -/
def after (s : Thread ι) (result : ArpCache ι × List (Emission ι)) : Thread ι :=
  { s with
    cache := result.1
    emitted := s.emitted ++ result.2 }

/-! ## Calls while the lock is free -/

section

variable {s : Thread ι}

theorem lock_of_free (h : s.held = false) : s.lock = .ok { s with held := true } := by
  rw [lock, if_neg]
  rw [h]
  decide

theorem lock_of_held (h : s.held = true) : s.lock = .error .relocked := if_pos h

theorem unlock_of_free (h : s.held = false) : s.unlock = s := by
  rw [unlock, ← h]

theorem arpcacheLookup_of_free (h : s.held = false) (ip4 : UInt32) :
    s.arpcacheLookup ip4 = .ok (s, s.cache.lookup ip4) := by
  rw [arpcacheLookup, lock_of_free h]
  change Except.ok (s.unlock, s.cache.lookup ip4) = _
  rw [unlock_of_free h]

theorem arpcacheInsert_of_free (h : s.held = false) (ip4 : UInt32) (mac : Mac) (now later : ℤ) :
    s.arpcacheInsert ip4 mac now later = .ok (s.after (s.cache.insert ip4 mac now later)) := by
  rw [arpcacheInsert, lock_of_free h]
  have hfree : (s.after (s.cache.insert ip4 mac now later)).held = false := h
  exact congrArg Except.ok (unlock_of_free hfree)

variable [DecidableEq ι]

theorem arpcacheAppendPacket_of_free (h : s.held = false) (iface : ι) (ip4 : UInt32)
    (packet : Packet) (now : ℤ) : s.arpcacheAppendPacket iface ip4 packet now =
      .ok (s.after (s.cache.appendPacket iface ip4 packet now)) := by
  rw [arpcacheAppendPacket, lock_of_free h]
  have hfree : (s.after (s.cache.appendPacket iface ip4 packet now)).held = false := h
  exact congrArg Except.ok (unlock_of_free hfree)

variable (ifaces : Ifaces ι) (rtable : List (RtEntry ι)) (fresh : Packet → Fresh)

theorem ifaceSendPacketByArp_of_free (h : s.held = false) (iface : ι) (dstIp : UInt32)
    (packet : Packet) (now : ℤ) : s.ifaceSendPacketByArp ifaces iface dstIp packet now =
      .ok (s.after (Router.ifaceSendPacketByArp ifaces s.cache iface dstIp packet now)) := by
  rw [ifaceSendPacketByArp, arpcacheLookup_of_free h, Router.ifaceSendPacketByArp]
  cases hlookup : s.cache.lookup dstIp with
  | some dstMac => rfl
  | none => exact arpcacheAppendPacket_of_free h iface dstIp _ now

theorem ifaceSendPacketByArp_of_held (h : s.held = true) (iface : ι) (dstIp : UInt32)
    (packet : Packet) (now : ℤ) :
    s.ifaceSendPacketByArp ifaces iface dstIp packet now = .error .relocked := by
  rw [ifaceSendPacketByArp, arpcacheLookup, lock_of_held h]
  rfl

end

/-! ## What calls stop with -/

/-- A message that is sent while the lock is free. -/
def haltOfFree (rtable : List (RtEntry ι)) (dst : UInt32) : Option Halt :=
  match longestPrefixMatch rtable dst with
  | none => some .missingRoute
  | some _ => none

/-- A message that is sent while the lock is held. -/
def haltOfHeld (rtable : List (RtEntry ι)) (dst : UInt32) : Option Halt :=
  match longestPrefixMatch rtable dst with
  | none => some .missingRoute
  | some rt => if rt.gw ≠ 0 then some .relocked else none

/-- The packets that the next sweep gives up. -/
def givenUp (cache : ArpCache ι) : List Packet :=
  cache.reqList.flatMap fun req =>
    if req.retries > ARP_REQUEST_MAX_RETRIES then req.cachedPackets else []

variable [DecidableEq ι]

/-- What a call stops with. -/
def haltOf (ifaces : Ifaces ι) (rtable : List (RtEntry ι)) (cache : ArpCache ι) :
    LockCall ι → Option Halt
  | .sweep _ => (givenUp cache).findSome? fun packet =>
      haltOfHeld rtable (ntohl packet.frame.ip.saddr)
  | .insert _ _ _ _ => none
  | .appendPacket _ _ _ _ => none
  | .handleArpPacket _ _ _ _ => none
  | .handleIpPacket iface packet _ =>
      if isEchoRequest ifaces iface packet.frame then
        haltOfFree rtable (ntohl packet.frame.ip.saddr)
      else
        match longestPrefixMatch rtable (ntohl packet.frame.ip.daddr) with
        | none => haltOfFree rtable (ntohl packet.frame.ip.saddr)
        | some _ =>
            if packet.frame.ip.ttl ≤ 1 then haltOfFree rtable (ntohl packet.frame.ip.saddr)
            else none

section

variable {s : Thread ι} (ifaces : Ifaces ι) (rtable : List (RtEntry ι)) (fresh : Packet → Fresh)

theorem endsAs_icmpSendPacket_of_free (h : s.held = false) (inPkt : Packet) (type code : UInt8)
    (now : ℤ) : EndsAs (haltOfFree rtable (ntohl inPkt.frame.ip.saddr)) (fun s => s.held = false)
      (s.icmpSendPacket ifaces rtable fresh inPkt type code now) := by
  rw [icmpSendPacket, haltOfFree]
  cases hroute : longestPrefixMatch rtable (ntohl inPkt.frame.ip.saddr) with
  | none => rfl
  | some rt =>
      simp only [ipSendPacket, daddr_icmpFrame, hroute]
      split_ifs
      · rw [ifaceSendPacketByArp_of_free ifaces h]
        exact endsAs_ok h
      · exact endsAs_ok h

/-- An answer while the lock is held leaves the cache alone. -/
theorem endsAs_icmpSendPacket_of_held (h : s.held = true) (inPkt : Packet) (type code : UInt8)
    (now : ℤ) : EndsAs (haltOfHeld rtable (ntohl inPkt.frame.ip.saddr))
      (fun s' => s'.held = true ∧ s'.cache = s.cache)
      (s.icmpSendPacket ifaces rtable fresh inPkt type code now) := by
  rw [icmpSendPacket, haltOfHeld]
  cases hroute : longestPrefixMatch rtable (ntohl inPkt.frame.ip.saddr) with
  | none => rfl
  | some rt =>
      simp only [ipSendPacket, daddr_icmpFrame, hroute]
      split_ifs
      · exact ifaceSendPacketByArp_of_held ifaces h _ _ _ now
      · exact endsAs_ok ⟨h, rfl⟩

/-- One round of the sweep. -/
theorem endsAs_sweepRound (now : ℤ) (c : ArpCache ι) (done : List (ArpReq ι))
    (st : Thread ι × List (ArpReq ι)) (req : ArpReq ι)
    (hst : (st.1.held = true ∧ st.1.cache = c) ∧
      st.2 = done.filterMap fun req => (sweepReq now req).1) :
    EndsAs ((if req.retries > ARP_REQUEST_MAX_RETRIES then req.cachedPackets else []).findSome?
        fun packet => haltOfHeld rtable (ntohl packet.frame.ip.saddr))
      (fun st' => (st'.1.held = true ∧ st'.1.cache = c) ∧
        st'.2 = (done ++ [req]).filterMap fun req => (sweepReq now req).1)
      (sweepRound ifaces rtable fresh now st req) := by
  obtain ⟨hs, hkept⟩ := hst
  rw [sweepRound, List.filterMap_append, ← hkept]
  by_cases hretries : req.retries > ARP_REQUEST_MAX_RETRIES
  · have hanswer : ∀ (_ : List Packet) (s : Thread ι) (packet : Packet),
        s.held = true ∧ s.cache = c →
        EndsAs (haltOfHeld rtable (ntohl packet.frame.ip.saddr))
          (fun s => s.held = true ∧ s.cache = c) (s.icmpSendPacket ifaces rtable fresh packet
            ICMP_DEST_UNREACH ICMP_HOST_UNREACH now) := by
      intro _ s packet hs
      have hone := endsAs_icmpSendPacket_of_held ifaces rtable fresh hs.1 packet
        ICMP_DEST_UNREACH ICMP_HOST_UNREACH now
      rwa [hs.2] at hone
    have hloop := EndsAs.foldlM hanswer req.cachedPackets [] st.1 hs
    rw [if_pos hretries, if_pos hretries]
    refine hloop.bind_pure fun s' hs' => ⟨hs', ?_⟩
    simp [sweepReq, hretries]
  · rw [if_neg hretries, if_neg hretries]
    split_ifs with hsent
    · refine endsAs_ok ⟨hs, ?_⟩
      simp [sweepReq, hretries, hsent]
    · refine endsAs_ok ⟨hs, ?_⟩
      simp [sweepReq, hretries, hsent]

/-- A sweep that comes to its end leaves the cache that it leaves without the
lock. -/
theorem endsAs_arpcacheSweep (h : s.held = false) (now : ℤ) :
    EndsAs (haltOf ifaces rtable s.cache (.sweep now))
      (fun s' => s'.held = false ∧ s'.cache = (s.cache.sweep now).1)
      (s.arpcacheSweep ifaces rtable fresh now) := by
  have hloop := EndsAs.foldlM (endsAs_sweepRound ifaces rtable fresh now
    { s.cache with entries := fun i => sweepEntry now (s.cache.entries i) }) s.cache.reqList []
    ({ s with
      held := true
      cache := { s.cache with entries := fun i => sweepEntry now (s.cache.entries i) } }, [])
    ⟨⟨rfl, rfl⟩, rfl⟩
  rw [arpcacheSweep, lock_of_free h, haltOf, givenUp, findSome?_flatMap]
  refine hloop.bind_pure fun st hst => ⟨rfl, ?_⟩
  obtain ⟨⟨-, hcache⟩, hkept⟩ := hst
  change { st.1.cache with reqList := st.2 } = _
  rw [hcache, hkept]
  rfl

/-- Every call that comes to its end has released the lock. -/
theorem endsAs_perform (h : s.held = false) (call : LockCall ι) :
    EndsAs (haltOf ifaces rtable s.cache call) (fun s' => s'.held = false)
      (s.perform ifaces rtable fresh call) := by
  cases call with
  | sweep now => exact (endsAs_arpcacheSweep ifaces rtable fresh h now).mono fun _ hs => hs.1
  | insert ip4 mac now later =>
      rw [perform, arpcacheInsert_of_free h]
      exact endsAs_ok h
  | appendPacket iface ip4 packet now =>
      rw [perform, arpcacheAppendPacket_of_free h]
      exact endsAs_ok h
  | handleArpPacket iface arpPkt now later =>
      rw [perform, handleArpPacket]
      split_ifs
      · rw [arpcacheInsert_of_free h]
        exact endsAs_ok h
      · exact endsAs_ok h
      · exact endsAs_ok h
      · exact endsAs_ok h
  | handleIpPacket iface packet now =>
      rw [perform, handleIpPacket, haltOf]
      by_cases hecho : isEchoRequest ifaces iface packet.frame = true
      · rw [if_pos hecho, if_pos hecho]
        exact endsAs_icmpSendPacket_of_free ifaces rtable fresh h packet _ _ now
      · rw [if_neg hecho, if_neg hecho]
        cases hroute : longestPrefixMatch rtable (ntohl packet.frame.ip.daddr) with
        | none => exact endsAs_icmpSendPacket_of_free ifaces rtable fresh h packet _ _ now
        | some rtDest =>
            by_cases httl : packet.frame.ip.ttl ≤ 1
            · simp only [httl, if_true]
              exact endsAs_icmpSendPacket_of_free ifaces rtable fresh h packet _ _ now
            · simp only [httl, if_false]
              split_ifs
              · exact endsAs_ok h
              · rw [ifaceSendPacketByArp_of_free ifaces h]
                exact endsAs_ok h

end

end Thread

/-! ## When the lock is taken twice -/

/-- The answer to the packet leaves on an interface without asking for an
address. -/
def answeredDirectly (rtable : List (RtEntry ι)) (packet : Packet) : Bool :=
  (longestPrefixMatch rtable (ntohl packet.frame.ip.saddr)).any fun rt => rt.gw == 0

/-- The call is no sweep, or the first packet that it gives up and cannot answer
directly has no route back. -/
def LockCall.NoDetour (rtable : List (RtEntry ι)) (cache : ArpCache ι) : LockCall ι → Prop
  | .sweep _ => ∀ packet,
      (Thread.givenUp cache).find? (fun packet => !answeredDirectly rtable packet) = some packet →
      longestPrefixMatch rtable (ntohl packet.frame.ip.saddr) = none
  | _ => True

section

variable (rtable : List (RtEntry ι))

theorem isSome_haltOfHeld (packet : Packet) :
    (Thread.haltOfHeld rtable (ntohl packet.frame.ip.saddr)).isSome =
      !answeredDirectly rtable packet := by
  rw [Thread.haltOfHeld, answeredDirectly]
  cases longestPrefixMatch rtable (ntohl packet.frame.ip.saddr) with
  | none => rfl
  | some rt =>
      by_cases hgw : rt.gw = 0
      · simp [hgw]
      · simp [hgw]

/-- A packet that cannot be answered directly leads back to the lock if it has a
route. -/
theorem haltOfHeld_eq_relocked_iff {packet : Packet}
    (h : answeredDirectly rtable packet = false) :
    Thread.haltOfHeld rtable (ntohl packet.frame.ip.saddr) = some .relocked ↔
      longestPrefixMatch rtable (ntohl packet.frame.ip.saddr) ≠ none := by
  rw [answeredDirectly] at h
  rw [Thread.haltOfHeld]
  cases hroute : longestPrefixMatch rtable (ntohl packet.frame.ip.saddr) with
  | none => simp
  | some rt =>
      rw [hroute, Option.any_some, beq_eq_false_iff_ne] at h
      simp [h]

theorem haltOf_sweep_ne_iff [DecidableEq ι] (ifaces : Ifaces ι) (cache : ArpCache ι) (now : ℤ) :
    Thread.haltOf ifaces rtable cache (.sweep now) ≠ some .relocked ↔
      (LockCall.sweep now).NoDetour rtable cache := by
  rw [Thread.haltOf, ne_eq, findSome?_eq_some_iff, LockCall.NoDetour]
  simp only [isSome_haltOfHeld]
  constructor
  · intro h packet hfirst
    have hdetour := List.find?_some hfirst
    rw [Bool.not_eq_true'] at hdetour
    by_contra hroute
    exact h ⟨packet, hfirst, (haltOfHeld_eq_relocked_iff rtable hdetour).mpr hroute⟩
  · rintro h ⟨packet, hfirst, hrelocked⟩
    have hdetour := List.find?_some hfirst
    rw [Bool.not_eq_true'] at hdetour
    exact (haltOfHeld_eq_relocked_iff rtable hdetour).mp hrelocked (h packet hfirst)

end

namespace Thread

theorem haltOfFree_ne_relocked (rtable : List (RtEntry ι)) (dst : UInt32) :
    haltOfFree rtable dst ≠ some .relocked := by
  rw [haltOfFree]
  cases longestPrefixMatch rtable dst with
  | none => simp
  | some rt => simp

theorem haltOf_handleIpPacket_ne (ifaces : Ifaces ι) (rtable : List (RtEntry ι))
    (cache : ArpCache ι) (iface : ι) (packet : Packet) (now : ℤ) :
    haltOf ifaces rtable cache (.handleIpPacket iface packet now) ≠ some .relocked := by
  have hfree := haltOfFree_ne_relocked rtable (ntohl packet.frame.ip.saddr)
  rw [haltOf]
  by_cases hecho : isEchoRequest ifaces iface packet.frame = true
  · rwa [if_pos hecho]
  · rw [if_neg hecho]
    cases longestPrefixMatch rtable (ntohl packet.frame.ip.daddr) with
    | none => exact hfree
    | some rtDest =>
        by_cases httl : packet.frame.ip.ttl ≤ 1
        · simpa only [httl, if_true] using hfree
        · simp [httl]

variable [DecidableEq ι]

/-- A thread takes the lock while it holds it exactly in a sweep that first gives up
a packet whose source is behind a gateway. -/
theorem perform_ne_relocked_iff (ifaces : Ifaces ι) (rtable : List (RtEntry ι))
    (fresh : Packet → Fresh) (s : Thread ι) (hfree : s.held = false) (call : LockCall ι) :
    s.perform ifaces rtable fresh call ≠ .error .relocked ↔ call.NoDetour rtable s.cache := by
  rw [ne_eq, (endsAs_perform ifaces rtable fresh hfree call).eq_error_iff]
  cases call with
  | sweep now => exact haltOf_sweep_ne_iff rtable ifaces s.cache now
  | insert ip4 mac now later => simp [haltOf, LockCall.NoDetour]
  | appendPacket iface ip4 packet now => simp [haltOf, LockCall.NoDetour]
  | handleArpPacket iface arpPkt now later => simp [haltOf, LockCall.NoDetour]
  | handleIpPacket iface packet now =>
      exact iff_of_true (haltOf_handleIpPacket_ne ifaces rtable s.cache iface packet now) trivial

/-- A packet from 10.0.1.2, which is directly connected, waits for the address of the gateway
10.0.3.9, and the seventh sweep gives up. -/
theorem perform_ne_relocked_iff_direct :
    let ifaces : Ifaces Bool :=
      { mac := fun _ => Vector.replicate ETH_ALEN 1
        ip := fun iface => if iface then 0x0a000301 else 0x0a000101 }
    let rtable : List (RtEntry Bool) := [
      { dest := 0x0a000100, mask := 0xffffff00, gw := 0, iface := false },
      { dest := 0x0a000400, mask := 0xffffff00, gw := 0x0a000309, iface := true }]
    let fresh : Packet → Fresh := fun packet =>
      { serial := packet.serial, ipId := 0, memory := fun _ => 0, behind := fun _ => 0 }
    let frame := Frame.bare (Vector.replicate ETH_ALEN 1) (Vector.replicate ETH_ALEN 2) 0x0a000404
    let events : List (Event Bool) := [
      .append true 0x0a000309 { frame with ip := { frame.ip with saddr := htonl 0x0a000102 } } 0,
      .sweep 2, .sweep 4, .sweep 6, .sweep 8, .sweep 10, .sweep 12]
    let s : Thread Bool :=
      { held := false, cache := (State.run events).cache, emitted := [], replies := [] }
    (givenUp s.cache).length = 1 ∧
      s.perform ifaces rtable fresh (.sweep 14) ≠ .error .relocked := by
  intro ifaces rtable fresh frame events s
  refine ⟨by decide +kernel, ?_⟩
  refine (perform_ne_relocked_iff ifaces rtable fresh s rfl (.sweep 14)).mpr fun packet hfirst => ?_
  have hnone : ((givenUp s.cache).find? fun packet => !answeredDirectly rtable packet) = none := by
    decide +kernel
  exact absurd (hnone.symm.trans hfirst) (by simp)

/-- A packet from 10.0.2.2, which is behind the gateway 10.0.1.9, waits for the
address of the gateway 10.0.3.9. Six sweeps ask for it again, and the seventh
gives up. -/
theorem relocked_behind_gateway :
    let ifaces : Ifaces Bool :=
      { mac := fun _ => Vector.replicate ETH_ALEN 1
        ip := fun iface => if iface then 0x0a000301 else 0x0a000101 }
    let rtable : List (RtEntry Bool) := [
      { dest := 0x0a000100, mask := 0xffffff00, gw := 0, iface := false },
      { dest := 0x0a000200, mask := 0xffffff00, gw := 0x0a000109, iface := false },
      { dest := 0x0a000400, mask := 0xffffff00, gw := 0x0a000309, iface := true }]
    let fresh : Packet → Fresh := fun packet =>
      { serial := packet.serial, ipId := 0, memory := fun _ => 0, behind := fun _ => 0 }
    let frame := Frame.bare (Vector.replicate ETH_ALEN 1) (Vector.replicate ETH_ALEN 2) 0x0a000404
    let events : List (Event Bool) := [
      .append true 0x0a000309 { frame with ip := { frame.ip with saddr := htonl 0x0a000202 } } 0,
      .sweep 2, .sweep 4, .sweep 6, .sweep 8, .sweep 10, .sweep 12]
    let s : Thread Bool :=
      { held := false, cache := (State.run events).cache, emitted := [], replies := [] }
    ¬ s.perform ifaces rtable fresh (.sweep 14) ≠ .error .relocked := by
  intro ifaces rtable fresh frame events s
  rw [not_not, (endsAs_perform ifaces rtable fresh rfl _).eq_error_iff]
  decide +kernel

end Thread

end Router

end NetworkLabs
