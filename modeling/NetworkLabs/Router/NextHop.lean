import NetworkLabs.Router.ArpTable
import NetworkLabs.Router.PrefixMatch
import NetworkLabs.Router.Relocking

/-!
# The next hop

Routers that ask each other and other machines for addresses. A router believes every ARP
reply, and none of its requests is checked against what comes back. As long as replies tell the
truth its table does too, whatever is delayed, repeated or brought to the wrong interface, and
a frame that leaves through a gateway has the Ethernet address of that gateway.

The lookup does not find the address of a gateway, so every packet waits for a reply. With the
gateway 0.0.0.1 it finds the first entry of the table.
-/

namespace NetworkLabs

namespace Router

open Halting (Ends)

variable {ι : Type*}

/-- What a router does not change: its interfaces, its routes, and what the program leaves open
in new messages. -/
structure RouterConfig (ι : Type*) where
  ifaces : Ifaces ι
  rtable : List (RtEntry ι)
  fresh : Packet → Fresh

/-- A frame leaves on the interface of its route. Through a gateway it goes from the address of
the interface to the one of the gateway. Only the addresses of gateways are asked for. -/
def Emission.ToNextHop (owns : UInt32 → Mac → Prop) (cfg : RouterConfig ι) : Emission ι → Prop
  | .transmit iface packet =>
      ∃ rt, longestPrefixMatch cfg.rtable (ntohl packet.frame.ip.daddr) = some rt ∧
        rt.iface = iface ∧
        (rt.gw ≠ 0 → packet.frame.etherShost = cfg.ifaces.mac iface ∧
          owns rt.gw packet.frame.etherDhost)
  | .arpRequest iface ip4 => ∃ rt ∈ cfg.rtable, rt.iface = iface ∧ rt.gw = ip4 ∧ ip4 ≠ 0
  | .icmp _ _ _ => False

/-- The packets of a request wait for the gateway of their route. -/
structure ArpReq.Waits (cfg : RouterConfig ι) (req : ArpReq ι) : Prop where
  gateway : ∃ rt ∈ cfg.rtable, rt.iface = req.iface ∧ rt.gw = req.ip4 ∧ req.ip4 ≠ 0
  route : ∀ packet ∈ req.cachedPackets, ∃ rt,
    longestPrefixMatch cfg.rtable (ntohl packet.frame.ip.daddr) = some rt ∧
      rt.iface = req.iface ∧ rt.gw = req.ip4
  source : ∀ packet ∈ req.cachedPackets,
    packet.frame.etherShost = cfg.ifaces.mac req.iface

/-- The table and the replies of a router are true, and what it has sent has gone to the next
hop. -/
structure Thread.Truthful (owns : UInt32 → Mac → Prop) (cfg : RouterConfig ι) (s : Thread ι) :
    Prop where
  entries : ∀ i, (s.cache.entries i).valid = true →
    owns (s.cache.entries i).ip4 (s.cache.entries i).mac
  pending : ∀ req ∈ s.cache.reqList, req.Waits cfg
  emitted : ∀ e ∈ s.emitted, e.ToNextHop owns cfg
  replies : ∀ r ∈ s.replies, owns (ntohl r.2.arpSpa) r.2.arpSha

/-! ## The cache -/

theorem valid_insertEntry {owns : UInt32 → Mac → Prop}
    {entries : Fin MAX_ARP_SIZE → ArpCacheEntry}
    (h : ∀ i, (entries i).valid = true → owns (entries i).ip4 (entries i).mac) {ip4 : UInt32}
    {mac : Mac} (hmac : owns ip4 mac) (now later : ℤ) (i : Fin MAX_ARP_SIZE)
    (hi : (insertEntry entries ip4 mac now later i).valid = true) :
    owns (insertEntry entries ip4 mac now later i).ip4
      (insertEntry entries ip4 mac now later i).mac := by
  rw [insertEntry] at hi ⊢
  cases hfind : slots.find? (fun i => (entries i).isFor ip4) with
  | some j =>
      have htest := List.find?_some hfind
      have hj := ((entries j).isFor_iff ip4).mp htest
      simp only [hfind] at hi ⊢
      by_cases hij : i = j
      · subst hij
        rw [Function.update_self]
        exact hj.2 ▸ hmac
      · rw [Function.update_of_ne hij] at hi ⊢
        exact h i hi
  | none =>
      simp only [hfind] at hi ⊢
      cases hslot : findSlot entries now with
      | none =>
          rw [hslot] at hi
          exact h i hi
      | some j =>
          simp only [hslot] at hi ⊢
          by_cases hij : i = j
          · subst hij
            rw [Function.update_self]
            exact hmac
          · rw [Function.update_of_ne hij] at hi ⊢
            exact h i hi

theorem waits_of_mem_flush {cfg : RouterConfig ι} {reqs : List (ArpReq ι)}
    (h : ∀ req ∈ reqs, req.Waits cfg) (ip4 : UInt32) (mac : Mac) :
    ∀ req ∈ (eachReq (flushReq ip4 mac) reqs).1, req.Waits cfg := by
  intro req hreq
  obtain ⟨old, hold, hkept⟩ := List.mem_filterMap.mp hreq
  rw [flushReq] at hkept
  split_ifs at hkept
  obtain rfl := Option.some.inj hkept
  exact h old hold

/-- The packets that have waited for an address go there. -/
theorem toNextHop_of_mem_flush {owns : UInt32 → Mac → Prop} {cfg : RouterConfig ι}
    {reqs : List (ArpReq ι)} (h : ∀ req ∈ reqs, req.Waits cfg) {ip4 : UInt32} {mac : Mac}
    (hmac : owns ip4 mac) :
    ∀ e ∈ (eachReq (flushReq ip4 mac) reqs).2, e.ToNextHop owns cfg := by
  intro e he
  obtain ⟨req, hreq, hsent⟩ := List.mem_flatMap.mp he
  rw [flushReq] at hsent
  split_ifs at hsent with hip
  · obtain ⟨packet, hpacket, rfl⟩ := List.mem_map.mp hsent
    obtain ⟨rt, hroute, hiface, hgw⟩ := (h req hreq).route packet hpacket
    refine ⟨rt, hroute, hiface, fun _ => ⟨(h req hreq).source packet hpacket, ?_⟩⟩
    rw [hgw, hip]
    exact hmac
  · exact absurd hsent List.not_mem_nil

/-- A packet is added to the request for its gateway, or to a new one. -/
theorem waits_of_mem_append [DecidableEq ι] {cfg : RouterConfig ι} {cache : ArpCache ι}
    (h : ∀ req ∈ cache.reqList, req.Waits cfg) {iface : ι} {ip4 : UInt32} {packet : Packet}
    (hgateway : ∃ rt ∈ cfg.rtable, rt.iface = iface ∧ rt.gw = ip4 ∧ ip4 ≠ 0) {rt : RtEntry ι}
    (hroute : longestPrefixMatch cfg.rtable (ntohl packet.frame.ip.daddr) = some rt)
    (hrt : rt.iface = iface ∧ rt.gw = ip4)
    (hsource : packet.frame.etherShost = cfg.ifaces.mac iface) (now : ℤ) :
    ∀ req ∈ (cache.appendPacket iface ip4 packet now).1.reqList, req.Waits cfg := by
  have hadd : ∀ req : ArpReq ι, req.Waits cfg → req.ip4 = ip4 → req.iface = iface →
      ArpReq.Waits cfg { req with cachedPackets := req.cachedPackets ++ [packet] } := by
    rintro req hreq rfl rfl
    refine ⟨hreq.gateway, fun p hp => ?_, fun p hp => ?_⟩
    · rcases List.mem_append.mp hp with hp | hp
      · exact hreq.route p hp
      · rw [List.mem_singleton.mp hp]
        exact ⟨rt, hroute, hrt⟩
    · rcases List.mem_append.mp hp with hp | hp
      · exact hreq.source p hp
      · rw [List.mem_singleton.mp hp]
        exact hsource
  intro req hreq
  cases hany : cache.reqList.any fun req => req.ip4 == ip4 && req.iface == iface with
  | true =>
      rcases FirstMatch.mem_upsert_of_any hany hreq with hold | ⟨old, hold, htest, rfl⟩
      · exact h req hold
      · rw [Bool.and_eq_true, beq_iff_eq, beq_iff_eq] at htest
        exact hadd old (h old hold) htest.1 htest.2
  | false =>
      change req ∈ FirstMatch.upsert _ _ _ _ at hreq
      rw [FirstMatch.upsert_of_not_any hany, List.mem_append, List.mem_singleton] at hreq
      rcases hreq with hold | rfl
      · exact h req hold
      · refine hadd _ ⟨hgateway, ?_, ?_⟩ rfl rfl
        · exact fun p hp => absurd hp List.not_mem_nil
        · exact fun p hp => absurd hp List.not_mem_nil

/-! ## The calls -/

namespace Thread.Truthful

variable {owns : UInt32 → Mac → Prop} {cfg : RouterConfig ι} {s : Thread ι}

theorem init (owns : UInt32 → Mac → Prop) (cfg : RouterConfig ι) :
    Truthful owns cfg { held := false, cache := .init, emitted := [], replies := [] } where
  entries := fun _ h => absurd h Bool.false_ne_true
  pending := fun _ h => absurd h List.not_mem_nil
  emitted := fun _ h => absurd h List.not_mem_nil
  replies := fun _ h => absurd h List.not_mem_nil

/-- The lock is not read. -/
theorem withHeld (h : s.Truthful owns cfg) (held : Bool) :
    Truthful owns cfg { s with held := held } :=
  ⟨h.entries, h.pending, h.emitted, h.replies⟩

theorem emit (h : s.Truthful owns cfg) {emissions : List (Emission ι)}
    (hnew : ∀ e ∈ emissions, e.ToNextHop owns cfg) : (s.emit emissions).Truthful owns cfg where
  entries := h.entries
  pending := h.pending
  emitted := fun e he => (List.mem_append.mp he).elim (h.emitted e) (hnew e)
  replies := h.replies

/-- An operation on the cache that keeps it true. -/
theorem after (h : s.Truthful owns cfg) {result : ArpCache ι × List (Emission ι)}
    (hentries : ∀ i, (result.1.entries i).valid = true →
      owns (result.1.entries i).ip4 (result.1.entries i).mac)
    (hpending : ∀ req ∈ result.1.reqList, req.Waits cfg)
    (hnew : ∀ e ∈ result.2, e.ToNextHop owns cfg) : (s.after result).Truthful owns cfg where
  entries := hentries
  pending := hpending
  emitted := fun e he => (List.mem_append.mp he).elim (h.emitted e) (hnew e)
  replies := h.replies

theorem lock (h : s.Truthful owns cfg) : Ends (fun _ => True) (Truthful owns cfg) s.lock := by
  rw [Thread.lock]
  split_ifs
  · exact trivial
  · exact h.withHeld true

/-- A reply that tells the truth. -/
theorem arpcacheInsert (h : s.Truthful owns cfg) {ip4 : UInt32} {mac : Mac}
    (hmac : owns ip4 mac) (now later : ℤ) :
    Ends (fun _ => True) (Truthful owns cfg) (s.arpcacheInsert ip4 mac now later) := by
  apply h.lock.bind
  intro s hs
  have hresult : (s.after (s.cache.insert ip4 mac now later)).Truthful owns cfg :=
    hs.after (valid_insertEntry hs.entries hmac now later)
      (waits_of_mem_flush hs.pending ip4 mac) (toNextHop_of_mem_flush hs.pending hmac)
  exact hresult.withHeld false

theorem handleArpPacket (h : s.Truthful owns cfg)
    (hown : ∀ i, owns (cfg.ifaces.ip i) (cfg.ifaces.mac i)) (iface : ι) {arpPkt : EtherArp}
    (harp : ntohs arpPkt.arpOp = ARPOP_REPLY → owns (ntohl arpPkt.arpSpa) arpPkt.arpSha)
    (now later : ℤ) : Ends (fun _ => True) (Truthful owns cfg)
      (s.handleArpPacket cfg.ifaces iface arpPkt now later) := by
  rw [Thread.handleArpPacket]
  split_ifs with htarget hreply
  · exact h.arpcacheInsert (harp hreply) now later
  · refine ⟨h.entries, h.pending, h.emitted, fun r hr => ?_⟩
    rcases List.mem_append.mp hr with hr | hr
    · exact h.replies r hr
    · rw [List.mem_singleton.mp hr]
      change owns (ntohl (htonl _)) _
      rw [ntohl_htonl]
      exact hown iface
  · exact h
  · exact h

variable [DecidableEq ι]

/-- A packet for a gateway waits for its address. -/
theorem ifaceSendPacketByArp (h : s.Truthful owns cfg) {packet : Packet} {rt : RtEntry ι}
    (hroute : longestPrefixMatch cfg.rtable (ntohl packet.frame.ip.daddr) = some rt)
    (hgw : rt.gw ≠ 0) (hone : rt.gw ≠ 1) (now : ℤ) : Ends (fun _ => True) (Truthful owns cfg)
      (s.ifaceSendPacketByArp cfg.ifaces rt.iface rt.gw packet now) := by
  cases hheld : s.held with
  | true =>
      rw [ifaceSendPacketByArp_of_held cfg.ifaces hheld]
      exact trivial
  | false =>
      have hmem := (longestPrefixMatch_eq_some hroute).1.mem
      rw [ifaceSendPacketByArp_of_free cfg.ifaces hheld, Router.ifaceSendPacketByArp,
        lookup_eq_none s.cache rt.gw hgw hone]
      have hwaits : ∃ rt' ∈ cfg.rtable, rt'.iface = rt.iface ∧ rt'.gw = rt.gw ∧ rt.gw ≠ 0 :=
        ⟨rt, hmem, rfl, rfl, hgw⟩
      let out : Packet := { packet with
        frame := { packet.frame with
          etherShost := cfg.ifaces.mac rt.iface
          etherType := htons ETH_P_IP } }
      have hout : longestPrefixMatch cfg.rtable (ntohl out.frame.ip.daddr) = some rt := hroute
      change (s.after (s.cache.appendPacket rt.iface rt.gw out now)).Truthful owns cfg
      refine h.after h.entries (waits_of_mem_append h.pending hwaits hout ⟨rfl, rfl⟩ rfl now) ?_
      intro e he
      rw [ArpCache.appendPacket] at he
      split_ifs at he
      · exact absurd he List.not_mem_nil
      · rw [List.mem_singleton.mp he]
        exact hwaits

variable (hgw : ∀ rt ∈ cfg.rtable, rt.gw ≠ 1)

include hgw

theorem ipSendPacket (h : s.Truthful owns cfg) (packet : Packet) (now : ℤ) :
    Ends (fun _ => True) (Truthful owns cfg)
      (s.ipSendPacket cfg.ifaces cfg.rtable packet now) := by
  rw [Thread.ipSendPacket]
  cases hroute : longestPrefixMatch cfg.rtable (ntohl packet.frame.ip.daddr) with
  | none => exact trivial
  | some rt =>
      by_cases hzero : rt.gw = 0
      · simp only [hzero, ne_eq, not_true_eq_false, if_false]
        refine h.emit fun e he => ?_
        rw [List.mem_singleton.mp he]
        exact ⟨rt, hroute, rfl, fun hne => absurd hzero hne⟩
      · simp only [ne_eq, hzero, not_false_eq_true, if_true]
        exact h.ifaceSendPacketByArp hroute hzero
          (hgw rt (longestPrefixMatch_eq_some hroute).1.mem) now

theorem icmpSendPacket (h : s.Truthful owns cfg) (inPkt : Packet) (type code : UInt8) (now : ℤ) :
    Ends (fun _ => True) (Truthful owns cfg)
      (s.icmpSendPacket cfg.ifaces cfg.rtable cfg.fresh inPkt type code now) := by
  rw [Thread.icmpSendPacket]
  cases longestPrefixMatch cfg.rtable (ntohl inPkt.frame.ip.saddr) with
  | none => exact trivial
  | some rt => exact h.ipSendPacket hgw _ now

theorem handleIpPacket (h : s.Truthful owns cfg) (iface : ι) (packet : Packet) (now : ℤ) :
    Ends (fun _ => True) (Truthful owns cfg)
      (s.handleIpPacket cfg.ifaces cfg.rtable cfg.fresh iface packet now) := by
  rw [Thread.handleIpPacket]
  by_cases hecho : isEchoRequest cfg.ifaces iface packet.frame = true
  · rw [if_pos hecho]
    exact h.icmpSendPacket hgw packet _ _ now
  · rw [if_neg hecho]
    cases hroute : longestPrefixMatch cfg.rtable (ntohl packet.frame.ip.daddr) with
    | none => exact h.icmpSendPacket hgw packet _ _ now
    | some rt =>
        dsimp only
        split_ifs with httl hzero
        · exact h.icmpSendPacket hgw packet _ _ now
        · refine h.emit fun e he => ?_
          rw [List.mem_singleton.mp he]
          exact ⟨rt, hroute, rfl, fun hne => absurd hzero hne⟩
        · let forwarded : Packet := { packet with frame := packet.frame.decrementTtl }
          have hforward : longestPrefixMatch cfg.rtable (ntohl forwarded.frame.ip.daddr) =
            some rt := hroute
          exact h.ifaceSendPacketByArp hforward hzero
            (hgw rt (longestPrefixMatch_eq_some hroute).1.mem) now

/-- A request that is given up, sent again, or left alone. -/
theorem sweepRound (now : ℤ) {st : Thread ι × List (ArpReq ι)} (h : st.1.Truthful owns cfg)
    (hkept : ∀ req ∈ st.2, req.Waits cfg) {req : ArpReq ι} (hreq : req.Waits cfg) :
    Ends (fun _ => True) (fun st : Thread ι × List (ArpReq ι) =>
        st.1.Truthful owns cfg ∧ ∀ req ∈ st.2, req.Waits cfg)
      (Thread.sweepRound cfg.ifaces cfg.rtable cfg.fresh now st req) := by
  have hkeep : ∀ req' : ArpReq ι, req'.Waits cfg → ∀ r ∈ st.2 ++ [req'], r.Waits cfg := by
    intro req' hreq' r hr
    rcases List.mem_append.mp hr with hr | hr
    · exact hkept r hr
    · exact List.mem_singleton.mp hr ▸ hreq'
  rw [Thread.sweepRound]
  split_ifs
  · have hanswers : Ends (fun _ => True) (Truthful owns cfg) (req.cachedPackets.foldlM
        (fun s packet => s.icmpSendPacket cfg.ifaces cfg.rtable cfg.fresh packet
          ICMP_DEST_UNREACH ICMP_HOST_UNREACH now) st.1) :=
      Ends.foldlM h fun s packet _ hs => hs.icmpSendPacket hgw packet _ _ now
    exact hanswers.bind fun s hs => ⟨hs, hkept⟩
  · refine ⟨h.emit fun e he => ?_, hkeep _ ⟨hreq.gateway, hreq.route, hreq.source⟩⟩
    rw [List.mem_singleton.mp he]
    exact hreq.gateway
  · exact ⟨h, hkeep req hreq⟩

theorem arpcacheSweep (h : s.Truthful owns cfg) (now : ℤ) : Ends (fun _ => True)
    (Truthful owns cfg) (s.arpcacheSweep cfg.ifaces cfg.rtable cfg.fresh now) := by
  apply h.lock.bind
  intro s hs
  let swept : Thread ι := { s with cache := { s.cache with
    entries := fun i => sweepEntry now (s.cache.entries i) } }
  have hswept : swept.Truthful owns cfg := by
    refine ⟨fun i hi => ?_, hs.pending, hs.emitted, hs.replies⟩
    change (sweepEntry now (s.cache.entries i)).valid = true at hi
    change owns (sweepEntry now (s.cache.entries i)).ip4 (sweepEntry now (s.cache.entries i)).mac
    rw [sweepEntry] at hi ⊢
    split_ifs at hi ⊢
    exact hs.entries i hi
  have hrounds : Ends (fun _ => True) (fun st : Thread ι × List (ArpReq ι) =>
        st.1.Truthful owns cfg ∧ ∀ req ∈ st.2, req.Waits cfg)
      (swept.cache.reqList.foldlM (Thread.sweepRound cfg.ifaces cfg.rtable cfg.fresh now)
        (swept, [])) := by
    apply Ends.foldlM
    · exact ⟨hswept, fun _ hr => absurd hr List.not_mem_nil⟩
    · exact fun st req hreq hst => hst.1.sweepRound hgw now hst.2 (hs.pending req hreq)
  apply hrounds.bind
  exact fun st hst => ⟨hst.1.entries, hst.2, hst.1.emitted, hst.1.replies⟩

end Thread.Truthful

/-! ## Many routers -/

/-- A router, and why it has come to a halt if it has. -/
structure Station (ι : Type*) where
  thread : Thread ι
  halt : Option Halt

abbrev Stations (N ι : Type*) := N → Station ι

namespace Stations

variable {N : Type*} [DecidableEq N] [DecidableEq ι]

def start : Stations N ι := fun _ => {
  thread := { held := false, cache := .init, emitted := [], replies := [] }
  halt := none }

/-- A router makes a call. One that has come to a halt does nothing more. -/
def step (cfg : N → RouterConfig ι) (net : Stations N ι) (e : N × LockCall ι) : Stations N ι :=
  match (net e.1).halt with
  | some _ => net
  | none =>
      match (net e.1).thread.perform (cfg e.1).ifaces (cfg e.1).rtable (cfg e.1).fresh e.2 with
      | .ok thread => Function.update net e.1 { thread := thread, halt := none }
      | .error halt => Function.update net e.1 { (net e.1) with halt := some halt }

def run (cfg : N → RouterConfig ι) (events : List (N × LockCall ι)) : Stations N ι :=
  events.foldl (step cfg) start

/-- The calls of `main.c` and of the sweeping thread. An ARP reply that comes in is one of the
router's own or another router's, at any time before, or it comes from another machine and is
true. -/
def Permitted (owns : UInt32 → Mac → Prop) (net : Stations N ι) : N × LockCall ι → Prop
  | (_, .sweep _) => True
  | (_, .handleIpPacket _ _ _) => True
  | (_, .handleArpPacket _ arpPkt _ _) => ntohs arpPkt.arpOp = ARPOP_REPLY →
      owns (ntohl arpPkt.arpSpa) arpPkt.arpSha ∨
        ∃ m iface, (iface, arpPkt) ∈ (net m).thread.replies
  | (_, .insert _ _ _ _) => False
  | (_, .appendPacket _ _ _ _) => False

variable {owns : UInt32 → Mac → Prop} {cfg : N → RouterConfig ι}

theorem truthful_step (hown : ∀ n i, owns ((cfg n).ifaces.ip i) ((cfg n).ifaces.mac i))
    (hgw : ∀ n, ∀ rt ∈ (cfg n).rtable, rt.gw ≠ 1) {net : Stations N ι}
    (h : ∀ n, (net n).thread.Truthful owns (cfg n)) {e : N × LockCall ι}
    (he : Permitted owns net e) (n : N) : (step cfg net e n).thread.Truthful owns (cfg n) := by
  obtain ⟨m, call⟩ := e
  have hcall : Ends (fun _ => True) (Thread.Truthful owns (cfg m)) ((net m).thread.perform
      (cfg m).ifaces (cfg m).rtable (cfg m).fresh call) := by
    cases call with
    | sweep now => exact (h m).arpcacheSweep (hgw m) now
    | handleIpPacket iface packet now => exact (h m).handleIpPacket (hgw m) iface packet now
    | handleArpPacket iface arpPkt now later =>
        apply (h m).handleArpPacket (hown m) iface
        intro hreply
        rcases he hreply with htrue | ⟨k, i, hmem⟩
        · exact htrue
        · exact (h k).replies (i, arpPkt) hmem
    | insert ip4 mac now later => exact he.elim
    | appendPacket iface ip4 packet now => exact he.elim
  revert n
  rw [step]
  cases (net m).halt with
  | some _ => exact h
  | none =>
      dsimp only
      let holds : ∀ n, Station ι → Prop := fun n station => station.thread.Truthful owns (cfg n)
      cases hperform : (net m).thread.perform (cfg m).ifaces (cfg m).rtable (cfg m).fresh call with
      | error halt => exact (Function.forall_update_iff net holds).mpr ⟨h m, fun n _ => h n⟩
      | ok thread =>
          rw [hperform] at hcall
          exact (Function.forall_update_iff net holds).mpr ⟨hcall, fun n _ => h n⟩

/-- In every run the tables of all routers are true, and every frame that has left through a
gateway went to the address of this gateway. -/
theorem run_truthful (hown : ∀ n i, owns ((cfg n).ifaces.ip i) ((cfg n).ifaces.mac i))
    (hgw : ∀ n, ∀ rt ∈ (cfg n).rtable, rt.gw ≠ 1) (events : List (N × LockCall ι))
    (h : Transition.Along (step cfg) (Permitted owns) start events) (n : N) :
    ((run cfg events) n).thread.Truthful owns (cfg n) :=
  h.invariant (fun net => ∀ n, (net n).thread.Truthful owns (cfg n))
    (fun _ _ hnet he n => truthful_step hown hgw hnet he n) _ _
    (fun n => .init owns (cfg n)) n

/-- Two routers; the second one is the gateway of the first one. -/
def twoRouters (n : Bool) : RouterConfig Unit where
  ifaces := {
    mac := fun _ => Vector.replicate ETH_ALEN (if n then 2 else 1)
    ip := fun _ => if n then 0x0a000102 else 0x0a000101 }
  rtable := if n then [] else
    [{ dest := 0x0a000200, mask := 0xffffff00, gw := 0x0a000102, iface := () }]
  fresh := fun packet =>
    { serial := packet.serial, ipId := 0, memory := fun _ => 0, behind := fun _ => 0 }

/-- The first router forwards a packet, asks for its gateway, and is answered. -/
def resolution : List (Bool × LockCall Unit) :=
  let mac : Bool → Mac := fun n => (twoRouters n).ifaces.mac ()
  let ip : Bool → UInt32 := fun n => (twoRouters n).ifaces.ip ()
  let arp : UInt16 → Bool → EtherArp := fun op n => {
    arpOp := htons op, arpSha := mac n, arpSpa := htonl (ip n), arpTha := mac (!n)
    arpTpa := htonl (ip (!n)) }
  let packet : Packet := { serial := 0, frame := Frame.bare (mac false) (mac true) 0x0a000205 }
  [(false, .handleIpPacket () packet 0),
    (true, .handleArpPacket () (arp ARPOP_REQUEST false) 0 0),
    (false, .handleArpPacket () (arp ARPOP_REPLY true) 1 1), (false, .sweep 2)]

theorem run_truthful_resolution :
    ((run twoRouters resolution false).thread.emitted.length = 2) ∧
      (run twoRouters resolution false).thread.Truthful
        (fun ip4 mac => ∃ n, (twoRouters n).ifaces.ip () = ip4 ∧ (twoRouters n).ifaces.mac () = mac)
        (twoRouters false) := by
  refine ⟨by decide +kernel, run_truthful (fun n _ => ⟨n, rfl, rfl⟩) ?_ resolution ?_ false⟩
  · decide
  · exact ⟨trivial, fun h => absurd h (by decide), fun _ => Or.inl ⟨true, by decide, rfl⟩,
      trivial, trivial⟩

end Stations

end Router

end NetworkLabs
