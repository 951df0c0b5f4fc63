import NetworkLabs.Router.NextHop

/-!
# Who frees a packet

`iface_send_packet` frees the packet that it has sent. Its callers in `ip.c` and in the cache
rely on it, and `arp_send_request` and `icmp_send_packet` free their packets once more; a frame
without an IP packet is not freed at all.

So no memory error happens exactly as long as every packet is forwarded to a network that is
directly connected, and what is left then are the frames without IP packets. The lock is followed
elsewhere.
-/

namespace NetworkLabs

namespace Router

open Halting (Ends)

variable {ι : Type*}

/-- A buffer is used that is not allocated, or a route that is missing. -/
inductive Fault where
  | notAllocated
  | missingRoute

/-- The addresses of the buffers that are allocated, the cache, and what has been sent. The
address of a packet is its serial number. -/
structure Buffers (ι : Type*) where
  allocated : Finset ℕ
  cache : ArpCache ι
  transmitted : List (ι × (Packet ⊕ EtherArp))

namespace Buffers

def malloc (s : Buffers ι) (a : ℕ) : Buffers ι := { s with allocated := insert a s.allocated }

def free (s : Buffers ι) (a : ℕ) : Except Fault (Buffers ι) :=
  if a ∈ s.allocated then .ok { s with allocated := s.allocated.erase a }
  else .error .notAllocated

/-- A buffer is read or written. -/
def access (s : Buffers ι) (a : ℕ) : Except Fault (Buffers ι) :=
  if a ∈ s.allocated then .ok s else .error .notAllocated

theorem access_of_mem {s : Buffers ι} {a : ℕ} (h : a ∈ s.allocated) : s.access a = .ok s := if_pos h

theorem ends_free {s : Buffers ι} {a : ℕ} (h : a ∉ s.allocated) :
    Ends (fun _ => True) (fun _ : Buffers ι => False) (s.free a) := by
  rw [free, if_neg h]
  trivial

/-! ## `device_internal.c` and `arp.c` -/

def ifaceSendPacket (s : Buffers ι) (iface : ι) (a : ℕ) (content : Packet ⊕ EtherArp) :
    Except Fault (Buffers ι) := do
  let s ← s.access a
  { s with transmitted := s.transmitted ++ [(iface, content)] }.free a

theorem ifaceSendPacket_of_mem {s : Buffers ι} {a : ℕ} (h : a ∈ s.allocated) (iface : ι)
    (content : Packet ⊕ EtherArp) : s.ifaceSendPacket iface a content =
      .ok { s with
        allocated := s.allocated.erase a
        transmitted := s.transmitted ++ [(iface, content)] } := by
  rw [ifaceSendPacket, access_of_mem h]
  exact if_pos h

/-- Whatever is sent, it is freed. -/
theorem ends_ifaceSendPacket (s : Buffers ι) (iface : ι) (a : ℕ) (content : Packet ⊕ EtherArp) :
    Ends (fun _ => True) (fun s' : Buffers ι => a ∉ s'.allocated)
      (s.ifaceSendPacket iface a content) := by
  by_cases h : a ∈ s.allocated
  · rw [ifaceSendPacket_of_mem h]
    exact Finset.notMem_erase a s.allocated
  · rw [ifaceSendPacket, access, if_neg h]
    trivial

variable (cfg : RouterConfig ι)

/-- The parameter `a` is the address that `malloc` returns. -/
def arpSendRequest (s : Buffers ι) (iface : ι) (dstIp : UInt32) (a : ℕ) :
    Except Fault (Buffers ι) := do
  let s ← (s.malloc a).ifaceSendPacket iface a (.inr {
    arpOp := htons ARPOP_REQUEST
    arpSha := cfg.ifaces.mac iface
    arpSpa := htonl (cfg.ifaces.ip iface)
    arpTha := Vector.replicate ETH_ALEN 0
    arpTpa := htonl dstIp })
  s.free a

def arpSendReply (s : Buffers ι) (iface : ι) (reqHdr : EtherArp) (a : ℕ) :
    Except Fault (Buffers ι) :=
  (s.malloc a).ifaceSendPacket iface a (.inr {
    arpOp := htons ARPOP_REPLY
    arpSha := cfg.ifaces.mac iface
    arpSpa := htonl (cfg.ifaces.ip iface)
    arpTha := reqHdr.arpSha
    arpTpa := reqHdr.arpSpa })

/-- No request can be sent without a memory error. -/
theorem ends_arpSendRequest (s : Buffers ι) (iface : ι) (dstIp : UInt32) (a : ℕ) :
    Ends (fun _ => True) (fun _ : Buffers ι => False) (s.arpSendRequest cfg iface dstIp a) :=
  (ends_ifaceSendPacket _ iface a _).bind fun _ h => ends_free h

variable [DecidableEq ι]

/-- The packet is kept, and a request is sent if there is none for its gateway. -/
def arpcacheAppendPacket (s : Buffers ι) (iface : ι) (ip4 : UInt32) (packet : Packet) (now : ℤ)
    (a : ℕ) : Except Fault (Buffers ι) :=
  let result := s.cache.appendPacket iface ip4 packet now
  let s := { s with cache := result.1 }
  if result.2.isEmpty then .ok s else s.arpSendRequest cfg iface ip4 a

def ifaceSendPacketByArp (s : Buffers ι) (iface : ι) (dstIp : UInt32) (packet : Packet) (now : ℤ)
    (a : ℕ) : Except Fault (Buffers ι) := do
  let s ← s.access packet.serial
  let packet := { packet with
    frame := { packet.frame with
      etherShost := cfg.ifaces.mac iface
      etherType := htons ETH_P_IP } }
  match s.cache.lookup dstIp with
  | some dstMac => s.ifaceSendPacket iface packet.serial (.inl (packet.setDhost dstMac))
  | none => s.arpcacheAppendPacket cfg iface dstIp packet now a

/-! ## `ip_base.c`, `icmp.c` and `ip.c` -/

def ipSendPacket (s : Buffers ι) (packet : Packet) (now : ℤ) (a : ℕ) : Except Fault (Buffers ι) :=
  match longestPrefixMatch cfg.rtable (ntohl packet.frame.ip.daddr) with
  | none => .error .missingRoute
  | some rtDest =>
      if rtDest.gw ≠ 0 then s.ifaceSendPacketByArp cfg rtDest.iface rtDest.gw packet now a
      else s.ifaceSendPacket rtDest.iface packet.serial (.inl packet)

def icmpSendPacket (s : Buffers ι) (inPkt : Packet) (type code : UInt8) (now : ℤ) (a : ℕ) :
    Except Fault (Buffers ι) := do
  let s ← s.access inPkt.serial
  match longestPrefixMatch cfg.rtable (ntohl inPkt.frame.ip.saddr) with
  | none => .error .missingRoute
  | some rtEntry =>
      let packet : Packet := {
        serial := (cfg.fresh inPkt).serial
        frame := icmpFrame (cfg.fresh inPkt) (cfg.ifaces.ip rtEntry.iface) inPkt.frame type code }
      let s ← (s.malloc packet.serial).ipSendPacket cfg packet now a
      s.free packet.serial

def handleIpPacket (s : Buffers ι) (iface : ι) (packet : Packet) (now : ℤ) (a : ℕ) :
    Except Fault (Buffers ι) := do
  let s ← s.access packet.serial
  if isEchoRequest cfg.ifaces iface packet.frame then
    s.icmpSendPacket cfg packet ICMP_ECHOREPLY 0 now a
  else
    match longestPrefixMatch cfg.rtable (ntohl packet.frame.ip.daddr) with
    | none => s.icmpSendPacket cfg packet ICMP_DEST_UNREACH ICMP_NET_UNREACH now a
    | some rtDest =>
        if packet.frame.ip.ttl ≤ 1 then
          s.icmpSendPacket cfg packet ICMP_TIME_EXCEEDED ICMP_EXC_TTL now a
        else
          let packet := { packet with frame := packet.frame.decrementTtl }
          if rtDest.gw = 0 then s.ifaceSendPacket rtDest.iface packet.serial (.inl packet)
          else s.ifaceSendPacketByArp cfg rtDest.iface rtDest.gw packet now a

/-! ## `arpcache.c` -/

/-- What the cache gives to the other functions. A packet that is given up is freed once its
sender has been told. -/
def carryOut (now : ℤ) (a : ℕ) (s : Buffers ι) : Emission ι → Except Fault (Buffers ι)
  | .transmit iface packet => do
      let s ← s.access packet.serial
      s.ifaceSendPacket iface packet.serial (.inl packet)
  | .arpRequest iface dstIp => s.arpSendRequest cfg iface dstIp a
  | .icmp packet type code => do
      let s ← s.icmpSendPacket cfg packet type code now a
      s.free packet.serial

def arpcacheInsert (s : Buffers ι) (ip4 : UInt32) (mac : Mac) (now later : ℤ) (a : ℕ) :
    Except Fault (Buffers ι) :=
  let result := s.cache.insert ip4 mac now later
  result.2.foldlM (carryOut cfg now a) { s with cache := result.1 }

def arpcacheSweep (s : Buffers ι) (now : ℤ) (a : ℕ) : Except Fault (Buffers ι) :=
  let result := s.cache.sweep now
  result.2.foldlM (carryOut cfg now a) { s with cache := result.1 }

def handleArpPacket (s : Buffers ι) (iface : ι) (arpPkt : EtherArp) (now later : ℤ) (a : ℕ) :
    Except Fault (Buffers ι) :=
  if ntohl arpPkt.arpTpa = cfg.ifaces.ip iface then
    if ntohs arpPkt.arpOp = ARPOP_REPLY then
      s.arpcacheInsert cfg (ntohl arpPkt.arpSpa) arpPkt.arpSha now later a
    else if ntohs arpPkt.arpOp = ARPOP_REQUEST then s.arpSendReply cfg iface arpPkt a
    else .ok s
  else .ok s

end Buffers

/-! ## Runs -/

/-- A frame is received into a new buffer, or the sweeping thread makes a round. -/
inductive BufferEvent (ι : Type*) where
  | ip (iface : ι) (packet : Packet) (now : ℤ) (a : ℕ)
  | arp (iface : ι) (arpPkt : EtherArp) (buffer : ℕ) (now later : ℤ) (a : ℕ)
  | other (buffer : ℕ)
  | sweep (now : ℤ) (a : ℕ)

namespace BufferEvent

/-- The packet is forwarded, and its route has no gateway. -/
def Direct (cfg : RouterConfig ι) : BufferEvent ι → Prop
  | ip iface packet _ _ => isEchoRequest cfg.ifaces iface packet.frame = false ∧
      1 < packet.frame.ip.ttl ∧
      ∃ rt, longestPrefixMatch cfg.rtable (ntohl packet.frame.ip.daddr) = some rt ∧ rt.gw = 0
  | arp _ _ _ _ _ _ => True
  | other _ => True
  | sweep _ _ => True

/-- The buffers of the frames that do not carry IP packets. -/
def unfreed : BufferEvent ι → Option ℕ
  | ip _ _ _ _ => none
  | arp _ _ buffer _ _ _ => some buffer
  | other buffer => some buffer
  | sweep _ _ => none

end BufferEvent

namespace Buffers

variable [DecidableEq ι] (cfg : RouterConfig ι)

def init : Buffers ι where
  allocated := ∅
  cache := .init
  transmitted := []

/-- `ustack_run` and `handle_packet`. -/
def step (s : Buffers ι) : BufferEvent ι → Except Fault (Buffers ι)
  | .ip iface packet now a => (s.malloc packet.serial).handleIpPacket cfg iface packet now a
  | .arp iface arpPkt buffer now later a =>
      (s.malloc buffer).handleArpPacket cfg iface arpPkt now later a
  | .other buffer => .ok (s.malloc buffer)
  | .sweep now a => s.arpcacheSweep cfg now a

def run (events : List (BufferEvent ι)) : Except Fault (Buffers ι) :=
  events.foldlM (step cfg) init

/-- The addresses that `malloc` may return for the buffer of a frame, and then for an ARP packet
that is sent. -/
def Mallocable (s : Buffers ι) : BufferEvent ι → Prop
  | .ip _ packet _ _ => packet.serial ∉ s.allocated
  | .arp _ _ buffer _ _ a => buffer ∉ s.allocated ∧ a ∉ insert buffer s.allocated
  | .other buffer => buffer ∉ s.allocated
  | .sweep _ _ => True

instance (s : Buffers ι) : DecidablePred s.Mallocable
  | .ip _ _ _ _ => inferInstanceAs (Decidable (_ ∉ _))
  | .arp _ _ _ _ _ _ => inferInstanceAs (Decidable (_ ∉ _ ∧ _ ∉ _))
  | .other _ => inferInstanceAs (Decidable (_ ∉ _))
  | .sweep _ _ => instDecidableTrue

def Permitted : Buffers ι → List (BufferEvent ι) → Prop
  | _, [] => True
  | s, e :: events => s.Mallocable e ∧ ∀ s', s.step cfg e = .ok s' → Permitted s' events

instance decidablePermitted : (s : Buffers ι) → (events : List (BufferEvent ι)) →
    Decidable (s.Permitted cfg events)
  | _, [] => isTrue trivial
  | s, e :: events =>
      match hs : s.step cfg e with
      | .error _ => decidable_of_iff (s.Mallocable e) ⟨fun h => ⟨h, fun s' hs' => by
          rw [hs] at hs'
          cases hs'⟩, And.left⟩
      | .ok t =>
          have := decidablePermitted t events
          decidable_of_iff (s.Mallocable e ∧ t.Permitted cfg events)
            ⟨fun h => ⟨h.1, fun s' hs' => by
              rw [hs] at hs'
              cases hs'
              exact h.2⟩, fun h => ⟨h.1, h.2 t hs⟩⟩

/-! ### Frames that are freed twice -/

variable {cfg} {s : Buffers ι}

/-- The first packet for a gateway needs a request. -/
theorem ends_ifaceSendPacketByArp (h : s.cache.reqList = []) (iface : ι) {dstIp : UInt32}
    (hzero : dstIp ≠ 0) (hone : dstIp ≠ 1) (packet : Packet) (now : ℤ) (a : ℕ) :
    Ends (fun _ => True) (fun _ : Buffers ι => False)
      (s.ifaceSendPacketByArp cfg iface dstIp packet now a) := by
  rw [ifaceSendPacketByArp, access]
  split_ifs
  · change Ends _ _ (match s.cache.lookup dstIp with | some _ => _ | none => _)
    rw [lookup_eq_none s.cache dstIp hzero hone]
    change Ends _ _ (arpcacheAppendPacket cfg s iface dstIp _ now a)
    rw [arpcacheAppendPacket, ArpCache.appendPacket, h]
    exact ends_arpSendRequest cfg _ iface dstIp a
  · trivial

variable (hgw : ∀ rt ∈ cfg.rtable, rt.gw ≠ 1)

include hgw

/-- A packet of the router's own has been freed, or nothing comes back. -/
theorem ends_ipSendPacket (h : s.cache.reqList = []) (packet : Packet) (now : ℤ) (a : ℕ) :
    Ends (fun _ => True) (fun s' : Buffers ι => packet.serial ∉ s'.allocated)
      (s.ipSendPacket cfg packet now a) := by
  rw [ipSendPacket]
  cases hroute : longestPrefixMatch cfg.rtable (ntohl packet.frame.ip.daddr) with
  | none => trivial
  | some rt =>
      by_cases hzero : rt.gw = 0
      · simp only [hzero, ne_eq, not_true_eq_false, if_false]
        exact ends_ifaceSendPacket s rt.iface packet.serial _
      · simp only [ne_eq, hzero, not_false_eq_true, if_true]
        have hone := hgw rt (longestPrefixMatch_eq_some hroute).1.mem
        exact (ends_ifaceSendPacketByArp h rt.iface hzero hone packet now a).of_never
          fun _ _ => trivial

/-- No ICMP message can be sent without a memory error. -/
theorem ends_icmpSendPacket (h : s.cache.reqList = []) (inPkt : Packet) (type code : UInt8)
    (now : ℤ) (a : ℕ) : Ends (fun _ => True) (fun _ : Buffers ι => False)
      (s.icmpSendPacket cfg inPkt type code now a) := by
  rw [icmpSendPacket, access]
  split_ifs
  · change Ends _ _ (match longestPrefixMatch cfg.rtable _ with | none => _ | some _ => _)
    cases longestPrefixMatch cfg.rtable (ntohl inPkt.frame.ip.saddr) with
    | none => trivial
    | some rt =>
        have hsend := fun packet : Packet =>
          ends_ipSendPacket (s := s.malloc packet.serial) hgw h packet now a
        exact (hsend _).bind fun _ hfreed => ends_free hfreed
  · trivial

/-- A packet is sent, and then freed; or a memory error comes. -/
theorem ends_handleIpPacket (h : s.cache.reqList = []) (iface : ι) {packet : Packet}
    (hmem : packet.serial ∈ s.allocated) (now : ℤ) (a : ℕ) :
    Ends (fun _ => ¬ BufferEvent.Direct cfg (.ip iface packet now a)) (fun s' : Buffers ι =>
        BufferEvent.Direct cfg (.ip iface packet now a) ∧ s'.cache = s.cache ∧
          s'.allocated = s.allocated.erase packet.serial)
      (s.handleIpPacket cfg iface packet now a) := by
  rw [handleIpPacket, access_of_mem hmem]
  change Ends _ _ (if _ then _ else _)
  by_cases hecho : isEchoRequest cfg.ifaces iface packet.frame = true
  · rw [if_pos hecho]
    refine (ends_icmpSendPacket hgw h packet _ _ now a).of_never fun _ _ hdirect => ?_
    exact absurd (hecho.symm.trans hdirect.1) (by decide)
  · rw [if_neg hecho]
    cases hroute : longestPrefixMatch cfg.rtable (ntohl packet.frame.ip.daddr) with
    | none =>
        refine (ends_icmpSendPacket hgw h packet _ _ now a).of_never fun _ _ => ?_
        rintro ⟨-, -, rt, hrt, -⟩
        exact absurd (hroute.symm.trans hrt) (by simp)
    | some rt =>
        dsimp only
        split_ifs with httl hzero
        · refine (ends_icmpSendPacket hgw h packet _ _ now a).of_never fun _ _ => ?_
          rintro ⟨-, hlong, -⟩
          exact absurd httl (UInt8.not_le.mpr hlong)
        · rw [ifaceSendPacket_of_mem hmem]
          exact ⟨⟨Bool.eq_false_iff.mpr hecho, UInt8.not_le.mp httl, rt, hroute, hzero⟩, rfl, rfl⟩
        · have hone := hgw rt (longestPrefixMatch_eq_some hroute).1.mem
          refine (ends_ifaceSendPacketByArp h rt.iface hzero hone _ now a).of_never fun _ _ => ?_
          rintro ⟨-, -, rt', hrt', hgw'⟩
          rw [Option.some.inj (hroute.symm.trans hrt')] at hzero
          exact hzero hgw'

omit hgw

/-- With no packet waiting, the cache gives nothing to the other functions. -/
theorem ends_handleArpPacket (h : s.cache.reqList = []) (iface : ι) (arpPkt : EtherArp)
    (now later : ℤ) {a : ℕ} (ha : a ∉ s.allocated) :
    Ends (fun _ => False) (fun s' : Buffers ι => s'.cache.reqList = [] ∧
        s'.allocated = s.allocated) (s.handleArpPacket cfg iface arpPkt now later a) := by
  rw [handleArpPacket]
  split_ifs
  · rw [arpcacheInsert, ArpCache.insert, h]
    exact ⟨rfl, rfl⟩
  · rw [arpSendReply, ifaceSendPacket_of_mem (Finset.mem_insert_self a s.allocated)]
    exact ⟨h, Finset.erase_insert ha⟩
  · exact ⟨h, rfl⟩
  · exact ⟨h, rfl⟩

theorem ends_step (hgw : ∀ rt ∈ cfg.rtable, rt.gw ≠ 1) (h : s.cache.reqList = [])
    {e : BufferEvent ι} (he : s.Mallocable e) :
    Ends (fun _ => ¬ e.Direct cfg) (fun s' : Buffers ι => e.Direct cfg ∧ s'.cache.reqList = [] ∧
        s'.allocated = e.unfreed.toFinset ∪ s.allocated) (s.step cfg e) := by
  cases e with
  | ip iface packet now a =>
      have hmem : packet.serial ∈ (s.malloc packet.serial).allocated :=
        Finset.mem_insert_self _ _
      have hhandle := ends_handleIpPacket (s := s.malloc packet.serial) hgw h iface hmem now a
      refine hhandle.mono (fun _ hf => hf) ?_
      rintro s' ⟨hdirect, hcache, hallocated⟩
      refine ⟨hdirect, hcache ▸ h, hallocated.trans ?_⟩
      change (insert packet.serial s.allocated).erase packet.serial = ∅ ∪ s.allocated
      rw [Finset.erase_insert he, Finset.empty_union]
  | arp iface arpPkt buffer now later a =>
      refine (ends_handleArpPacket (s := s.malloc buffer) h iface arpPkt now later he.2).mono
        (fun _ hf => hf.elim) ?_
      rintro s' ⟨hreqs, hallocated⟩
      exact ⟨trivial, hreqs, hallocated⟩
  | other buffer => exact ⟨trivial, h, rfl⟩
  | sweep now a =>
      rw [step, arpcacheSweep, ArpCache.sweep, h]
      exact ⟨trivial, rfl, (Finset.empty_union s.allocated).symm⟩

theorem ends_foldlM_step (hgw : ∀ rt ∈ cfg.rtable, rt.gw ≠ 1) (h : s.cache.reqList = [])
    {events : List (BufferEvent ι)} (hevents : s.Permitted cfg events) :
    Ends (fun _ => ¬ ∀ e ∈ events, e.Direct cfg) (fun s' : Buffers ι =>
        (∀ e ∈ events, e.Direct cfg) ∧ s'.cache.reqList = [] ∧
          s'.allocated = (events.filterMap BufferEvent.unfreed).toFinset ∪ s.allocated)
      (events.foldlM (step cfg) s) := by
  induction events generalizing s with
  | nil => exact ⟨fun _ he => absurd he List.not_mem_nil, h, (Finset.empty_union _).symm⟩
  | cons e events ih =>
      rw [List.foldlM_cons]
      have hstep := ends_step hgw h hevents.1
      cases hs : s.step cfg e with
      | error f =>
          rw [hs] at hstep
          exact fun hall => hstep (hall e List.mem_cons_self)
      | ok t =>
          rw [hs] at hstep
          obtain ⟨hdirect, hreqs, hallocated⟩ := hstep
          refine (ih hreqs (hevents.2 t hs)).mono (fun _ hnot hall => ?_) ?_
          · exact hnot fun e' he' => hall e' (List.mem_cons_of_mem e he')
          · rintro s' ⟨hall, hreqs', hallocated'⟩
            refine ⟨List.forall_mem_cons.mpr ⟨hdirect, hall⟩, hreqs', ?_⟩
            rw [hallocated', hallocated, List.filterMap_cons]
            cases e.unfreed with
            | none => rw [Option.toFinset_none, Finset.empty_union]
            | some b =>
                rw [Option.toFinset_some, List.toFinset_cons, Finset.insert_eq,
                  ← Finset.union_assoc, Finset.union_comm _ {b}]

variable (cfg) in
/-- A run is free of memory errors exactly if every packet goes directly to its destination.
Then no packet ever waits for a gateway, and what is allocated are the buffers of the frames
that do not carry IP packets. -/
theorem ends_run_iff (hgw : ∀ rt ∈ cfg.rtable, rt.gw ≠ 1) (events : List (BufferEvent ι))
    (h : Permitted cfg init events) :
    Ends (fun _ => ¬ ∀ e ∈ events, e.Direct cfg) (fun s : Buffers ι =>
        (∀ e ∈ events, e.Direct cfg) ∧ s.cache.reqList = [] ∧
          s.allocated = (events.filterMap BufferEvent.unfreed).toFinset)
      (run cfg events) := by
  refine (ends_foldlM_step hgw rfl h).mono (fun _ hf => hf) ?_
  rintro s ⟨hall, hreqs, hallocated⟩
  exact ⟨hall, hreqs, hallocated.trans (Finset.union_empty _)⟩

/-- A router that is directly connected to 10.0.2.0/24. -/
def direct : RouterConfig Unit where
  ifaces := { mac := fun _ => Vector.replicate ETH_ALEN 1, ip := fun _ => 0x0a000201 }
  rtable := [{ dest := 0x0a000200, mask := 0xffffff00, gw := 0, iface := () }]
  fresh := fun packet =>
    { serial := packet.serial, ipId := 0, memory := fun _ => 0, behind := fun _ => 0 }

/-- Two packets in one buffer, and a request for the router's address in between. -/
def directEvents : List (BufferEvent Unit) :=
  let mac : Mac := Vector.replicate ETH_ALEN 2
  let packet : Packet := { serial := 0, frame := Frame.bare mac mac 0x0a000205 }
  [.ip () packet 0 1,
    .arp () ⟨htons ARPOP_REQUEST, mac, 0, mac, htonl 0x0a000201⟩ 1 0 0 0,
    .ip () packet 1 2, .sweep 2 3]

theorem ends_run_iff_direct : ∃ s, run direct directEvents = .ok s ∧ s.allocated = {1} := by
  have hends := ends_run_iff direct (by decide) directEvents (by decide +kernel)
  cases hrun : run direct directEvents with
  | error f =>
      rw [hrun] at hends
      refine absurd (fun e he => ?_) hends
      fin_cases he
      · exact ⟨by decide +kernel, by decide, _, rfl, rfl⟩
      · trivial
      · exact ⟨by decide +kernel, by decide, _, rfl, rfl⟩
      · trivial
  | ok s =>
      rw [hrun] at hends
      exact ⟨s, rfl, hends.2.2⟩

end Buffers

end Router

end NetworkLabs
