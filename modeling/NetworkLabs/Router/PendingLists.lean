import NetworkLabs.Library.RecordLists
import NetworkLabs.Router.PendingPackets

/-!
# The lists of the ARP cache in memory

The requests hang on `req_list`, and the packets of a request on a list whose head is a
member of the request. Here the loops and the calls of `malloc` and `free` in `arpcache.c`
are followed through the links, and the cache is what the lists say. An access to a request or
to the record of a packet that is not allocated faults.

The buffers of the packets are not followed here. ARP requests and ICMP messages are handed
out, and what sending them does to their buffers is not a part of the cache either.
-/

namespace NetworkLabs

namespace Router

open CircularList

/-- The members of `struct arp_req` beside its lists. -/
structure ReqMembers (ι : Type) where
  iface : ι
  ip4 : UInt32
  sent : ℤ
  retries : ℕ

/-- The table, the requests on `req_list`, and the packets on the lists of the requests. -/
structure ArpMemory (ι : Type) where
  entries : Fin MAX_ARP_SIZE → ArpCacheEntry
  requests : Records Unit ℕ (ReqMembers ι)
  packets : Records ℕ ℕ Packet

/-- What the calls of `malloc` return when a packet is appended, with what is in the links of
new memory. -/
structure Mallocs where
  req : ℕ
  pkt : ℕ
  reqGarbage : ListHead (Unit ⊕ ℕ)
  headGarbage : ListHead (ℕ ⊕ ℕ)
  pktGarbage : ListHead (ℕ ⊕ ℕ)

variable {ι : Type}

namespace ArpMemory

/-! ## `arpcache.c` -/

def init (garbage : ListHead (Unit ⊕ ℕ)) : Option (ArpMemory ι) := do
  let requests ← (Records.empty.mallocHead () garbage).initHead ()
  return { entries := fun _ => {}, requests := requests, packets := Records.empty }

def addPacket (mem : ArpMemory ι) (malloc : Mallocs) (entry : ℕ) (packet : Packet) :
    Option (ArpMemory ι) := do
  let packets ← (mem.packets.malloc malloc.pkt packet malloc.pktGarbage).addTail malloc.pkt entry
  return { mem with packets := packets }

def appendPacket [DecidableEq ι] (mem : ArpMemory ι) (fuel : ℕ) (malloc : Mallocs) (iface : ι)
    (ip4 : UInt32) (packet : Packet) (now : ℤ) : Option (ArpMemory ι × List (Emission ι)) := do
  let found ← mem.requests.findEntry () (fun req => req.ip4 == ip4 && req.iface == iface) fuel
  match found with
  | some entry =>
      let mem ← mem.addPacket malloc entry packet
      return (mem, [])
  | none =>
      let requests := mem.requests.malloc malloc.req
        { iface := iface, ip4 := ip4, sent := now, retries := 0 } malloc.reqGarbage
      let packets ← (mem.packets.mallocHead malloc.req malloc.headGarbage).initHead malloc.req
      let mem ← ({ mem with packets := packets } : ArpMemory ι).addPacket malloc malloc.req packet
      let requests ← requests.addTail malloc.req ()
      return ({ mem with requests := requests }, [.arpRequest iface ip4])

/-- A packet of a request is dealt with, unlinked and freed. -/
def dropPacket (deal : ReqMembers ι → Packet → List (Emission ι)) (entry : ℕ)
    (st : ArpMemory ι × List (Emission ι)) (pkt : ℕ) :
    Option (ArpMemory ι × List (Emission ι)) := do
  let req ← st.1.requests.data entry
  let packet ← st.1.packets.data pkt
  let packets ← st.1.packets.delete pkt
  let packets ← packets.free pkt
  return ({ st.1 with packets := packets }, st.2 ++ deal req packet)

/-- The packets of a request are dropped in turn, and then the request, with the head of its
list. -/
def dropReq (deal : ReqMembers ι → Packet → List (Emission ι)) (fuel : ℕ)
    (st : ArpMemory ι × List (Emission ι)) (entry : ℕ) :
    Option (ArpMemory ι × List (Emission ι)) := do
  let st ← Records.forEachEntrySafe (fun st : ArpMemory ι × List (Emission ι) => st.1.packets) entry
    (dropPacket deal entry) fuel st
  let requests ← st.1.requests.delete entry
  let requests ← requests.free entry
  let packets ← st.1.packets.freeHead entry
  return ({ st.1 with requests := requests, packets := packets }, st.2)

/-- A round of the insertion. -/
def flushRound (ip4 : UInt32) (mac : Mac) (fuel : ℕ) (st : ArpMemory ι × List (Emission ι))
    (entry : ℕ) : Option (ArpMemory ι × List (Emission ι)) := do
  let req ← st.1.requests.data entry
  if req.ip4 = ip4 then
    dropReq (fun req packet => [.transmit req.iface (packet.setDhost mac)]) fuel st entry
  else return st

def insert (mem : ArpMemory ι) (fuel : ℕ) (ip4 : UInt32) (mac : Mac) (now later : ℤ) :
    Option (ArpMemory ι × List (Emission ι)) :=
  Records.forEachEntrySafe (fun st : ArpMemory ι × List (Emission ι) => st.1.requests) ()
    (flushRound ip4 mac fuel) fuel
    ({ mem with entries := insertEntry mem.entries ip4 mac now later }, [])

/-- A round of the sweep. -/
def sweepRound (now : ℤ) (fuel : ℕ) (st : ArpMemory ι × List (Emission ι)) (entry : ℕ) :
    Option (ArpMemory ι × List (Emission ι)) := do
  let req ← st.1.requests.data entry
  if req.retries > ARP_REQUEST_MAX_RETRIES then
    dropReq (fun _ packet => [.icmp packet ICMP_DEST_UNREACH ICMP_HOST_UNREACH]) fuel st entry
  else if now - req.sent > 1 then
    let requests ← st.1.requests.write entry fun req =>
      { req with retries := req.retries + 1, sent := now }
    return ({ st.1 with requests := requests }, st.2 ++ [.arpRequest req.iface req.ip4])
  else return st

def sweep (mem : ArpMemory ι) (fuel : ℕ) (now : ℤ) : Option (ArpMemory ι × List (Emission ι)) :=
  Records.forEachEntrySafe (fun st : ArpMemory ι × List (Emission ι) => st.1.requests) ()
    (sweepRound now fuel) fuel
    ({ mem with entries := fun i => sweepEntry now (mem.entries i) }, [])

def destroy (mem : ArpMemory ι) (fuel : ℕ) : Option (ArpMemory ι) := do
  let st ← Records.forEachEntrySafe (fun st : ArpMemory ι × List (Emission ι) => st.1.requests) ()
    (dropReq (fun _ _ => []) fuel) fuel (mem, [])
  return st.1

/-! ## What the lists say -/

/-- The request that hangs on the list. -/
def toReq (pkts : ℕ → Option (List (ℕ × Packet))) (x : ℕ × ReqMembers ι) : ArpReq ι where
  iface := x.2.iface
  ip4 := x.2.ip4
  sent := x.2.sent
  retries := x.2.retries
  cachedPackets := ((pkts x.1).getD []).map Prod.snd

/-- Each request is the head of a list of packets, and nothing else is allocated. -/
structure Stores (mem : ArpMemory ι) (reqs : List (ℕ × ReqMembers ι))
    (pkts : ℕ → Option (List (ℕ × Packet))) : Prop where
  requests : mem.requests.Stores fun _ => some reqs
  packets : mem.packets.Stores pkts
  heads : ∀ r, (pkts r).isSome ↔ r ∈ reqs.map Prod.fst

/-- The memory holds the cache, and nothing else. -/
structure Implements (mem : ArpMemory ι) (cache : ArpCache ι) : Prop where
  entries : mem.entries = cache.entries
  lists : ∃ reqs pkts, mem.Stores reqs pkts ∧ cache.reqList = reqs.map (toReq pkts)

namespace Stores

variable {mem : ArpMemory ι} {reqs l₁ l₂ : List (ℕ × ReqMembers ι)}
  {pkts : ℕ → Option (List (ℕ × Packet))} {a : ℕ} {m : ReqMembers ι}

theorem pkts_eq_some (h : mem.Stores reqs pkts) {x : ℕ × ReqMembers ι} (hx : x ∈ reqs) :
    ∃ l, pkts x.1 = some l ∧ (toReq pkts x).cachedPackets = l.map Prod.snd := by
  obtain ⟨l, hl⟩ := Option.isSome_iff_exists.mp ((h.heads x.1).mpr (List.mem_map_of_mem hx))
  exact ⟨l, hl, by rw [toReq, hl, Option.getD_some]⟩

theorem toReq_update {pkts : ℕ → Option (List (ℕ × Packet))} {x : ℕ × ReqMembers ι}
    (hx : x.1 ≠ a) (l : Option (List (ℕ × Packet))) :
    toReq (Function.update pkts a l) x = toReq pkts x := by
  rw [toReq, Function.update_of_ne hx, toReq]

/-- A request is dropped with all of its packets. -/
theorem dropReq (h : mem.Stores (l₁ ++ (a, m) :: l₂) pkts)
    (deal : ReqMembers ι → Packet → List (Emission ι)) {fuel : ℕ}
    (hfuel : (toReq pkts (a, m)).cachedPackets.length < fuel) (out : List (Emission ι)) :
    ∃ mem', ArpMemory.dropReq deal fuel (mem, out) a =
        some (mem', out ++ (toReq pkts (a, m)).cachedPackets.flatMap (deal m)) ∧
      mem'.entries = mem.entries ∧ mem'.Stores (l₁ ++ l₂) (Function.update pkts a none) := by
  have hmem : (a, m) ∈ l₁ ++ (a, m) :: l₂ := List.mem_append_right _ List.mem_cons_self
  obtain ⟨l, hl, hpackets⟩ := h.pkts_eq_some hmem
  rw [hpackets] at hfuel ⊢
  have hdata : mem.requests.data a = some m := h.requests.data_eq (k := ()) rfl hmem
  -- What is left of the list, while the requests and the other lists stay as they are.
  have hstart : mem.packets.Stores (Function.update pkts a (some l)) := by
    rw [← hl, Function.update_eq_self]
    exact h.packets
  obtain ⟨st, hst, hrequests, hentries, hstores, hout⟩ : ∃ st,
      Records.forEachEntrySafe (fun st : ArpMemory ι × List (Emission ι) => st.1.packets) a
        (dropPacket deal a) fuel (mem, out) = some st ∧ st.1.requests = mem.requests ∧
      st.1.entries = mem.entries ∧ st.1.packets.Stores (Function.update pkts a (some [])) ∧
      st.2 = out ++ l.flatMap fun x => deal m x.2 := by
    refine Records.Stores.exists_forEachEntrySafe
      (fun done rest (st : ArpMemory ι × List (Emission ι)) =>
        st.1.requests = mem.requests ∧ st.1.entries = mem.entries ∧
        st.1.packets.Stores (Function.update pkts a (some rest)) ∧
        st.2 = out ++ done.flatMap fun x => deal m x.2)
      (fun hinv => ⟨_, [], hinv.2.2.1, Function.update_self _ _ _⟩) ?_ h.packets hl
      ⟨rfl, rfl, hstart, (List.append_nil out).symm⟩ (by simpa using hfuel)
    rintro done rest pkt packet st ⟨hrequests, hentries, hstores, hout⟩
    have hk : Function.update pkts a (some ((pkt, packet) :: rest)) a =
        some ([] ++ (pkt, packet) :: rest) := Function.update_self _ _ _
    have hpacket := hstores.data_eq hk List.mem_cons_self
    obtain ⟨s₁, s₂, hdelete, -, hfree, hstores'⟩ := hstores.remove hk
    rw [Function.update_idem, List.nil_append] at hstores'
    refine ⟨({ st.1 with packets := s₂ }, st.2 ++ deal m packet), ?_, hrequests, hentries,
      hstores', ?_⟩
    · simp [dropPacket, hrequests, hdata, hpacket, hdelete, hfree]
    · rw [hout, List.flatMap_append, List.append_assoc, List.flatMap_singleton]
  obtain ⟨s₁, s₂, hdelete, -, hfree, hreqs⟩ := h.requests.remove (k := ()) rfl
  obtain ⟨s₃, hhead, hpkts⟩ := hstores.freeHead (Function.update_self _ _ _)
  rw [Function.update_idem] at hpkts
  rw [Records.update_unit] at hreqs
  refine ⟨{ st.1 with requests := s₂, packets := s₃ }, ?_, hentries, hreqs, hpkts, fun r => ?_⟩
  · simp [ArpMemory.dropReq, hst, hrequests, hdelete, hfree, hhead, hout, List.flatMap_map]
  · by_cases hr : r = a
    · subst hr
      rw [Function.update_self, Option.isSome_none, iff_of_false Bool.false_ne_true]
      intro hmem'
      obtain ⟨x, hx, hxr⟩ := List.mem_map.mp hmem'
      exact h.requests.ne_of_mem (k := ()) rfl hx hxr
    · rw [Function.update_of_ne hr, h.heads]
      simp [hr]

end Stores

/-! ## The loops over the requests -/

/-- The body of a loop does to the memory what the round does to a request, and leaves the
other requests alone. -/
structure Meets
    (body : ArpMemory ι × List (Emission ι) → ℕ → Option (ArpMemory ι × List (Emission ι)))
    (round : ArpReq ι → Option (ArpReq ι) × List (Emission ι)) (fuel : ℕ) : Prop where
  spec : ∀ {mem : ArpMemory ι} {l₁ l₂ : List (ℕ × ReqMembers ι)} {a : ℕ} {m : ReqMembers ι}
    {pkts : ℕ → Option (List (ℕ × Packet))} (out : List (Emission ι)),
    mem.Stores (l₁ ++ (a, m) :: l₂) pkts → (toReq pkts (a, m)).cachedPackets.length < fuel →
    ∃ mem' l pkts', body (mem, out) a = some (mem', out ++ (round (toReq pkts (a, m))).2) ∧
      mem'.entries = mem.entries ∧ mem'.Stores (l₁ ++ l ++ l₂) pkts' ∧
      l.map (toReq pkts') = (round (toReq pkts (a, m))).1.toList ∧
      ∀ x ∈ l₁ ++ l₂, toReq pkts' x = toReq pkts x

variable {mem : ArpMemory ι} {fuel : ℕ}

theorem meets_flush (ip4 : UInt32) (mac : Mac) :
    Meets (flushRound (ι := ι) ip4 mac fuel) (flushReq ip4 mac) fuel := by
  refine ⟨fun {mem l₁ l₂ a m pkts} out h hfuel => ?_⟩
  have hmem : (a, m) ∈ l₁ ++ (a, m) :: l₂ := List.mem_append_right _ List.mem_cons_self
  have hdata : mem.requests.data a = some m := h.requests.data_eq (k := ()) rfl hmem
  by_cases hip4 : m.ip4 = ip4
  · obtain ⟨mem', hmem', hentries, hstores⟩ := h.dropReq
      (fun req packet => [.transmit req.iface (packet.setDhost mac)]) hfuel out
    refine ⟨mem', [], _, ?_, hentries, by rwa [List.append_nil], ?_, fun x hx => ?_⟩
    · simp [flushRound, hdata, hip4, hmem', flushReq, toReq, List.map_eq_flatMap]
    · simp [flushReq, toReq, hip4]
    · exact Stores.toReq_update (h.requests.ne_of_mem (k := ()) rfl hx) none
  · refine ⟨mem, [(a, m)], pkts, ?_, rfl, by simpa using h, ?_, fun x _ => rfl⟩
    · simp [flushRound, hdata, hip4, flushReq, toReq]
    · simp [flushReq, toReq, hip4]

theorem meets_sweep (now : ℤ) : Meets (sweepRound (ι := ι) now fuel) (sweepReq now) fuel := by
  refine ⟨fun {mem l₁ l₂ a m pkts} out h hfuel => ?_⟩
  have hmem : (a, m) ∈ l₁ ++ (a, m) :: l₂ := List.mem_append_right _ List.mem_cons_self
  have hdata : mem.requests.data a = some m := h.requests.data_eq (k := ()) rfl hmem
  by_cases hretries : m.retries > ARP_REQUEST_MAX_RETRIES
  · obtain ⟨mem', hmem', hentries, hstores⟩ := h.dropReq
      (fun _ packet => [.icmp packet ICMP_DEST_UNREACH ICMP_HOST_UNREACH]) hfuel out
    refine ⟨mem', [], _, ?_, hentries, by rwa [List.append_nil], ?_, fun x hx => ?_⟩
    · simp [sweepRound, hdata, hretries, hmem', sweepReq, toReq, List.map_eq_flatMap]
    · simp [sweepReq, toReq, hretries]
    · exact Stores.toReq_update (h.requests.ne_of_mem (k := ()) rfl hx) none
  · by_cases hsent : now - m.sent > 1
    · obtain ⟨s', hwrite, hstores⟩ := h.requests.write (k := ()) rfl fun req =>
        { req with retries := req.retries + 1, sent := now }
      rw [Records.update_unit] at hstores
      refine ⟨{ mem with requests := s' },
        [(a, { m with retries := m.retries + 1, sent := now })], pkts, ?_, rfl,
        ⟨by simpa using hstores, h.packets, fun r => ?_⟩, ?_, fun x _ => rfl⟩
      · simp [sweepRound, hdata, hretries, hsent, hwrite, sweepReq, toReq]
      · rw [h.heads]
        simp
      · simp [sweepReq, toReq, hretries, hsent]
    · refine ⟨mem, [(a, m)], pkts, ?_, rfl, by simpa using h, ?_, fun x _ => rfl⟩
      · simp [sweepRound, hdata, hretries, hsent, sweepReq, toReq]
      · simp [sweepReq, toReq, hretries, hsent]

theorem eachReq_append_singleton
    (round : ArpReq ι → Option (ArpReq ι) × List (Emission ι)) (reqs : List (ArpReq ι))
    (req : ArpReq ι) : eachReq round (reqs ++ [req]) =
      ((eachReq round reqs).1 ++ (round req).1.toList,
        (eachReq round reqs).2 ++ (round req).2) := by
  rw [eachReq, List.filterMap_append, List.flatMap_append, eachReq]
  cases h : (round req).1 <;> simp [h]

/-- What holds during a loop: the requests that are kept, and those that are left, which are
as they were in the beginning. -/
structure Passed (round : ArpReq ι → Option (ArpReq ι) × List (Emission ι)) (mem : ArpMemory ι)
    (pkts : ℕ → Option (List (ℕ × Packet))) (out : List (Emission ι))
    (done rest kept : List (ℕ × ReqMembers ι)) (pkts' : ℕ → Option (List (ℕ × Packet)))
    (st : ArpMemory ι × List (Emission ι)) : Prop where
  stores : st.1.Stores (kept ++ rest) pkts'
  kept_eq : kept.map (toReq pkts') = (eachReq round (done.map (toReq pkts))).1
  rest_eq : ∀ x ∈ rest, toReq pkts' x = toReq pkts x
  out_eq : st.2 = out ++ (eachReq round (done.map (toReq pkts))).2
  entries_eq : st.1.entries = mem.entries

theorem Meets.exists_loop
    {body : ArpMemory ι × List (Emission ι) → ℕ → Option (ArpMemory ι × List (Emission ι))}
    {round : ArpReq ι → Option (ArpReq ι) × List (Emission ι)} (hbody : Meets body round fuel)
    {cache : ArpCache ι} (h : mem.Implements cache) (hlen : cache.reqList.length < fuel)
    (hpackets : ∀ req ∈ cache.reqList, req.cachedPackets.length < fuel)
    (out : List (Emission ι)) : ∃ mem',
      Records.forEachEntrySafe (fun st : ArpMemory ι × List (Emission ι) => st.1.requests) () body
        fuel (mem, out) = some (mem', out ++ (eachReq round cache.reqList).2) ∧
      mem'.Implements { cache with reqList := (eachReq round cache.reqList).1 } := by
  obtain ⟨hentries, reqs, pkts, hstores, hreqs⟩ := h
  rw [hreqs] at hlen hpackets ⊢
  obtain ⟨st, hst, -, kept, pkts', hend⟩ : ∃ st,
      Records.forEachEntrySafe (fun st : ArpMemory ι × List (Emission ι) => st.1.requests) () body
        fuel (mem, out) = some st ∧ ([] : List (ℕ × ReqMembers ι)) <:+ reqs ∧
        ∃ kept pkts', Passed round mem pkts out reqs [] kept pkts' st := by
    refine Records.Stores.exists_forEachEntrySafe
      (fun done rest (st : ArpMemory ι × List (Emission ι)) => rest <:+ reqs ∧ ∃ kept pkts',
        Passed round mem pkts out done rest kept pkts' st)
      ?_ ?_ hstores.requests rfl ⟨List.suffix_refl reqs, [], pkts, ?_⟩ (by simpa using hlen)
    · rintro done rest st ⟨-, kept, pkts', hpassed⟩
      exact ⟨_, kept, hpassed.stores.requests, rfl⟩
    · rintro done rest a m ⟨mem', out'⟩ ⟨hsuffix, kept, pkts', hpassed⟩
      have hreq := hpassed.rest_eq (a, m) List.mem_cons_self
      have hmem : (a, m) ∈ reqs := hsuffix.subset List.mem_cons_self
      have hfuel := hpackets _ (List.mem_map_of_mem hmem)
      rw [← hreq] at hfuel
      obtain ⟨mem'', l, pkts'', hrun, hentries'', hstores'', hl, hothers⟩ :=
        hbody.spec out' hpassed.stores hfuel
      refine ⟨_, hrun, (List.suffix_cons _ _).trans hsuffix, kept ++ l, pkts'', hstores'', ?_, ?_,
        ?_, hentries''.trans hpassed.entries_eq⟩
      · have hkept : kept.map (toReq pkts'') = kept.map (toReq pkts') :=
          List.map_congr_left fun x hx => hothers x (List.mem_append_left _ hx)
        rw [List.map_append, List.map_append, List.map_cons, List.map_nil,
          eachReq_append_singleton, hkept, hpassed.kept_eq, hl, hreq]
      · intro x hx
        rw [hothers x (List.mem_append_right _ hx),
          hpassed.rest_eq x (List.mem_cons_of_mem _ hx)]
      · rw [List.map_append, List.map_cons, List.map_nil, eachReq_append_singleton, hreq,
          ← List.append_assoc]
        exact congrArg (· ++ _) hpassed.out_eq
    · exact ⟨hstores, rfl, fun _ _ => rfl, (List.append_nil out).symm, rfl⟩
  refine ⟨st.1, by rw [hst, ← hend.out_eq], hend.entries_eq.trans hentries, kept, pkts', ?_,
    hend.kept_eq.symm⟩
  have hfinal := hend.stores
  rwa [List.append_nil] at hfinal

/-! ## The calls -/

theorem exists_init (garbage : ListHead (Unit ⊕ ℕ)) :
    ∃ mem : ArpMemory ι, init garbage = some mem ∧ mem.Implements .init := by
  have hempty : (Records.empty : Records Unit ℕ (ReqMembers ι)).Stores fun _ => none :=
    Records.Stores.empty
  obtain ⟨s', hs', -, hstores⟩ := hempty.newHead (k := ()) rfl garbage
  rw [Records.update_unit] at hstores
  refine ⟨⟨fun _ => {}, s', Records.empty⟩, by simp [init, hs'], rfl, [], fun _ => none, ?_, rfl⟩
  exact ⟨hstores, Records.Stores.empty, by simp⟩

/-- A packet is added to a list of packets. -/
theorem exists_addPacket {pkts : ℕ → Option (List (ℕ × Packet))} (h : mem.packets.Stores pkts)
    (malloc : Mallocs) (hmalloc : mem.packets.data malloc.pkt = none) {entry : ℕ}
    {l : List (ℕ × Packet)} (hl : pkts entry = some l) (packet : Packet) :
    ∃ packets, mem.addPacket malloc entry packet = some { mem with packets := packets } ∧
      packets.Stores (Function.update pkts entry (some (l ++ [(malloc.pkt, packet)]))) := by
  obtain ⟨packets, hpackets, hstores⟩ := h.append hl hmalloc packet malloc.pktGarbage
  exact ⟨packets, by simp [addPacket, hpackets], hstores⟩

namespace Implements

variable {cache : ArpCache ι}

theorem appendPacket [DecidableEq ι] (h : mem.Implements cache) (hlen : cache.reqList.length < fuel)
    (malloc : Mallocs) (hreq : mem.requests.data malloc.req = none)
    (hpkt : mem.packets.data malloc.pkt = none) (iface : ι) (ip4 : UInt32) (packet : Packet)
    (now : ℤ) : ∃ mem', mem.appendPacket fuel malloc iface ip4 packet now =
        some (mem', (cache.appendPacket iface ip4 packet now).2) ∧
      mem'.Implements (cache.appendPacket iface ip4 packet now).1 := by
  obtain ⟨hentries, reqs, pkts, hstores, hreqs⟩ := h
  rw [hreqs, List.length_map] at hlen
  have hfind := hstores.requests.findEntry_eq (k := ()) rfl
    (fun req => req.ip4 == ip4 && req.iface == iface) hlen
  cases hfound : reqs.find? fun x => x.2.ip4 == ip4 && x.2.iface == iface with
  | some x =>
      -- The packet joins the request that is there.
      obtain ⟨hx, l₁, l₂, rfl, hfront⟩ := List.find?_eq_some_iff_append.mp hfound
      obtain ⟨a, m⟩ := x
      obtain ⟨l, hl, hpackets⟩ := hstores.pkts_eq_some (x := (a, m))
        (List.mem_append_right _ List.mem_cons_self)
      obtain ⟨packets, hrun, hpackets'⟩ := exists_addPacket hstores.packets malloc hpkt hl packet
      have hany : cache.reqList.any (fun req => req.ip4 == ip4 && req.iface == iface) = true := by
        rw [hreqs, List.any_map, List.any_eq_true]
        exact ⟨(a, m), List.mem_append_right _ List.mem_cons_self, hx⟩
      refine ⟨{ mem with packets := packets }, ?_, hentries, l₁ ++ (a, m) :: l₂, _,
        ⟨hstores.requests, hpackets', fun r => ?_⟩, ?_⟩
      · simp [ArpMemory.appendPacket, hfind, hfound, hrun, ArpCache.appendPacket, hany]
      · by_cases hr : r = a
        · subst hr
          simp
        · rw [Function.update_of_ne hr, hstores.heads]
      · have hothers : ∀ y ∈ l₁ ++ l₂, toReq (Function.update pkts a
            (some (l ++ [(malloc.pkt, packet)]))) y = toReq pkts y := fun y hy =>
          Stores.toReq_update (hstores.requests.ne_of_mem (k := ()) rfl hy) _
        rw [ArpCache.appendPacket, hreqs, List.map_append, List.map_cons,
          FirstMatch.upsert_append_cons, List.map_append, List.map_cons,
          List.map_congr_left fun y hy => hothers y (List.mem_append_left _ hy),
          List.map_congr_left fun y hy => hothers y (List.mem_append_right _ hy), hpackets]
        · simp [toReq]
        · rw [List.forall_mem_map]
          exact fun y hy => (Bool.not_eq_true' _).mp (hfront y hy)
        · exact hx
  | none =>
      -- The packet gets a request of its own.
      rw [List.find?_eq_none] at hfound
      have hany : cache.reqList.any (fun req => req.ip4 == ip4 && req.iface == iface) = false := by
        rw [hreqs, List.any_map, List.any_eq_false]
        exact hfound
      have hfresh : malloc.req ∉ reqs.map Prod.fst := by
        intro hmem
        obtain ⟨⟨a, m⟩, hx, rfl⟩ := List.mem_map.mp hmem
        exact hstores.requests.not_listed hreq ⟨(), reqs, m, rfl, hx⟩
      have hnone : pkts malloc.req = none := by
        rw [← Option.not_isSome_iff_eq_none, hstores.heads]
        exact hfresh
      obtain ⟨heads, hhead, hdata, hheads⟩ := hstores.packets.newHead hnone malloc.headGarbage
      have hpkt' : heads.data malloc.pkt = none := by rw [hdata, hpkt]
      have hmem : ({ mem with packets := heads } : ArpMemory ι).packets.Stores
          (Function.update pkts malloc.req (some [])) := hheads
      obtain ⟨packets, hrun, hpackets⟩ := exists_addPacket hmem malloc hpkt'
        (Function.update_self _ _ _) packet
      obtain ⟨requests, hadd, hrequests⟩ := hstores.requests.append (k := ()) rfl hreq
        { iface := iface, ip4 := ip4, sent := now, retries := 0 } malloc.reqGarbage
      rw [Function.update_idem, List.nil_append] at hpackets
      rw [Records.update_unit] at hrequests
      refine ⟨{ mem with requests := requests, packets := packets }, ?_, hentries, _, _,
        ⟨hrequests, hpackets, fun r => ?_⟩, ?_⟩
      · simp [ArpMemory.appendPacket, hfind, List.find?_eq_none.mpr hfound, hhead, hrun, hadd,
          ArpCache.appendPacket, hany]
      · by_cases hr : r = malloc.req
        · subst hr
          simp
        · rw [Function.update_of_ne hr, hstores.heads]
          simp [hr]
      · have hothers : ∀ y ∈ reqs, toReq (Function.update pkts malloc.req
            (some [(malloc.pkt, packet)])) y = toReq pkts y := fun y hy =>
          Stores.toReq_update (ne_of_mem_of_not_mem (List.mem_map_of_mem hy) hfresh) _
        rw [ArpCache.appendPacket, FirstMatch.upsert_of_not_any hany, List.map_append,
          List.map_congr_left hothers, hreqs]
        simp [toReq]

theorem insert (h : mem.Implements cache) (hlen : cache.reqList.length < fuel)
    (hpackets : ∀ req ∈ cache.reqList, req.cachedPackets.length < fuel) (ip4 : UInt32) (mac : Mac)
    (now later : ℤ) : ∃ mem', mem.insert fuel ip4 mac now later =
        some (mem', (cache.insert ip4 mac now later).2) ∧
      mem'.Implements (cache.insert ip4 mac now later).1 := by
  have hmem : ({ mem with entries := insertEntry mem.entries ip4 mac now later } :
      ArpMemory ι).Implements
        { cache with entries := insertEntry cache.entries ip4 mac now later } := by
    refine ⟨by rw [h.entries], ?_⟩
    obtain ⟨reqs, pkts, hstores, hreqs⟩ := h.lists
    exact ⟨reqs, pkts, ⟨hstores.requests, hstores.packets, hstores.heads⟩, hreqs⟩
  exact (meets_flush ip4 mac).exists_loop hmem hlen hpackets []

theorem sweep (h : mem.Implements cache) (hlen : cache.reqList.length < fuel)
    (hpackets : ∀ req ∈ cache.reqList, req.cachedPackets.length < fuel) (now : ℤ) :
    ∃ mem', mem.sweep fuel now = some (mem', (cache.sweep now).2) ∧
      mem'.Implements (cache.sweep now).1 := by
  have hmem : ({ mem with entries := fun i => sweepEntry now (mem.entries i) } :
      ArpMemory ι).Implements
        { cache with entries := fun i => sweepEntry now (cache.entries i) } := by
    refine ⟨by rw [h.entries], ?_⟩
    obtain ⟨reqs, pkts, hstores, hreqs⟩ := h.lists
    exact ⟨reqs, pkts, ⟨hstores.requests, hstores.packets, hstores.heads⟩, hreqs⟩
  exact (meets_sweep now).exists_loop hmem hlen hpackets []

end Implements

/-- Nothing is allocated but the head of the requests. -/
structure Released (mem : ArpMemory ι) : Prop where
  requests : ∀ r, mem.requests.data r = none ∧ mem.requests.links (.inr r) = none
  packets : ∀ p, mem.packets.data p = none ∧ ∀ node, mem.packets.links node = none

theorem meets_destroy :
    Meets (dropReq (fun _ _ => ([] : List (Emission ι))) fuel) (fun _ => (none, [])) fuel := by
  refine ⟨fun {mem l₁ l₂ a m pkts} out h hfuel => ?_⟩
  obtain ⟨mem', hmem', hentries, hstores⟩ := h.dropReq (fun _ _ => []) hfuel out
  refine ⟨mem', [], _, ?_, hentries, by rwa [List.append_nil], rfl, fun x hx => ?_⟩
  · rw [hmem', List.flatMap_eq_nil_iff.mpr fun _ _ => rfl]
  · exact Stores.toReq_update (h.requests.ne_of_mem (k := ()) rfl hx) none

theorem Implements.released {cache : ArpCache ι} (h : mem.Implements cache)
    (hnil : cache.reqList = []) : mem.Released := by
  obtain ⟨-, reqs, pkts, hstores, hreqs⟩ := h
  obtain rfl : reqs = [] := List.map_eq_nil_iff.mp (hreqs.symm.trans hnil)
  have hpkts : ∀ k, pkts k = none := fun k => by
    rw [← Option.not_isSome_iff_eq_none, hstores.heads]
    exact List.not_mem_nil
  have hrequest : ∀ r,
      ¬ Records.Listed (fun _ : Unit => some ([] : List (ℕ × ReqMembers ι))) r := by
    rintro r ⟨k, l, b, hl, hmem⟩
    rw [Option.some.injEq] at hl
    exact absurd (hl ▸ hmem) List.not_mem_nil
  have hpacket : ∀ p, ¬ Records.Listed pkts p := by
    rintro p ⟨k, l, b, hl, -⟩
    rw [hpkts] at hl
    exact Option.some_ne_none l hl.symm
  refine ⟨fun r => ⟨?_, ?_⟩, fun p => ⟨?_, fun node => ?_⟩⟩
  · exact Option.not_isSome_iff_eq_none.mp fun hr => hrequest r (hstores.requests.held hr)
  · exact Option.not_isSome_iff_eq_none.mp fun hr => hrequest r (hstores.requests.linked hr)
  · exact Option.not_isSome_iff_eq_none.mp fun hp => hpacket p (hstores.packets.held hp)
  · rw [← Option.not_isSome_iff_eq_none]
    intro hnode
    cases node with
    | inl k => exact absurd (hstores.packets.heads hnode) (by simp [hpkts])
    | inr p' => exact hpacket p' (hstores.packets.linked hnode)

theorem Implements.destroy {cache : ArpCache ι} (h : mem.Implements cache)
    (hlen : cache.reqList.length < fuel)
    (hpackets : ∀ req ∈ cache.reqList, req.cachedPackets.length < fuel) :
    ∃ mem', mem.destroy fuel = some mem' ∧ mem'.Released := by
  obtain ⟨mem', hrun, himplements⟩ := meets_destroy.exists_loop h hlen hpackets []
  refine ⟨mem', by simp [ArpMemory.destroy, hrun], himplements.released ?_⟩
  exact List.filterMap_eq_nil_iff.mpr fun _ _ => rfl

end ArpMemory

/-! ## Runs -/

/-- The calls, with what `malloc` returns. -/
inductive MemoryEvent (ι : Type) where
  | append (malloc : Mallocs) (iface : ι) (ip4 : UInt32) (frame : Frame) (now : ℤ)
  | insert (ip4 : UInt32) (mac : Mac) (now later : ℤ)
  | sweep (now : ℤ)

namespace MemoryEvent

def toEvent : MemoryEvent ι → Event ι
  | .append _ iface ip4 frame now => .append iface ip4 frame now
  | .insert ip4 mac now later => .insert ip4 mac now later
  | .sweep now => .sweep now

end MemoryEvent

structure MemoryState (ι : Type) where
  mem : ArpMemory ι
  emitted : List (Emission ι)
  calls : ℕ

namespace MemoryState

variable [DecidableEq ι] (fuel : ℕ)

def call (s : MemoryState ι) : MemoryEvent ι → Option (ArpMemory ι × List (Emission ι))
  | .append malloc iface ip4 frame now =>
      s.mem.appendPacket fuel malloc iface ip4 { serial := s.calls, frame := frame } now
  | .insert ip4 mac now later => s.mem.insert fuel ip4 mac now later
  | .sweep now => s.mem.sweep fuel now

def step (s : MemoryState ι) (e : MemoryEvent ι) : Option (MemoryState ι) :=
  (s.call fuel e).map fun r => { mem := r.1, emitted := s.emitted ++ r.2, calls := s.calls + 1 }

def start (garbage : ListHead (Unit ⊕ ℕ)) : Option (MemoryState ι) :=
  (ArpMemory.init garbage).map fun mem => { mem := mem, emitted := [], calls := 0 }

def run (garbage : ListHead (Unit ⊕ ℕ)) (events : List (MemoryEvent ι)) :
    Option (MemoryState ι) := do
  let s ← start garbage
  events.foldlM (step fuel) s

/-- What `malloc` returns is not allocated. -/
def Mallocable (s : MemoryState ι) : MemoryEvent ι → Prop
  | .append malloc _ _ _ _ =>
      s.mem.requests.data malloc.req = none ∧ s.mem.packets.data malloc.pkt = none
  | _ => True

instance (s : MemoryState ι) : (e : MemoryEvent ι) → Decidable (s.Mallocable e)
  | .append malloc _ _ _ _ => inferInstanceAs (Decidable
      (s.mem.requests.data malloc.req = none ∧ s.mem.packets.data malloc.pkt = none))
  | .insert _ _ _ _ => isTrue trivial
  | .sweep _ => isTrue trivial

/-- In a run, `malloc` returns memory that is not allocated at the time. -/
def Permitted : MemoryState ι → List (MemoryEvent ι) → Prop
  | _, [] => True
  | s, e :: events => s.Mallocable e ∧ ∀ s' ∈ s.step fuel e, Permitted s' events

def decidablePermitted :
    (s : MemoryState ι) → (events : List (MemoryEvent ι)) → Decidable (s.Permitted fuel events)
  | _, [] => inferInstanceAs (Decidable True)
  | s, _ :: events =>
      have := fun s' => decidablePermitted s' events
      inferInstanceAs (Decidable (_ ∧ ∀ s' ∈ s.step fuel _, Permitted fuel s' events))

instance (s : MemoryState ι) (events : List (MemoryEvent ι)) :
    Decidable (s.Permitted fuel events) := decidablePermitted fuel s events

end MemoryState

/-- The requests, and the packets of each, are at most as many as the calls. -/
structure State.Small (s : State ι) : Prop where
  requests : s.cache.reqList.length ≤ s.calls
  packets : ∀ req ∈ s.cache.reqList, req.cachedPackets.length ≤ s.calls

theorem State.Small.step [DecidableEq ι] {s : State ι} (h : s.Small) (e : Event ι) :
    (s.step e).Small := by
  have hkept : ∀ round : ArpReq ι → Option (ArpReq ι) × List (Emission ι),
      (∀ req req', (round req).1 = some req' → req'.cachedPackets = req.cachedPackets) →
      (eachReq round s.cache.reqList).1.length ≤ s.calls + 1 ∧
        ∀ req ∈ (eachReq round s.cache.reqList).1, req.cachedPackets.length ≤ s.calls + 1 := by
    intro round hround
    refine ⟨Nat.le_succ_of_le ((List.length_filterMap_le _ _).trans h.requests), ?_⟩
    intro req hreq
    obtain ⟨req', hreq', heq⟩ := List.mem_filterMap.mp hreq
    rw [hround req' req heq]
    exact Nat.le_succ_of_le (h.packets req' hreq')
  cases e with
  | append iface ip4 frame now =>
      constructor
      · exact FirstMatch.length_upsert_le.trans (Nat.succ_le_succ h.requests)
      · intro req hreq
        rcases FirstMatch.mem_upsert hreq with hold | ⟨c, hc, rfl⟩ | rfl
        · exact Nat.le_succ_of_le (h.packets req hold)
        · change (c.cachedPackets ++ [_]).length ≤ s.calls + 1
          rw [List.length_append]
          exact Nat.succ_le_succ (h.packets c hc)
        · exact Nat.succ_le_succ (Nat.zero_le _)
  | insert ip4 mac now later =>
      obtain ⟨hlen, hpackets⟩ := hkept (flushReq ip4 mac) fun req req' heq => by
        rw [flushReq] at heq
        split_ifs at heq
        rw [← Option.some.inj heq]
      exact ⟨hlen, hpackets⟩
  | sweep now =>
      obtain ⟨hlen, hpackets⟩ := hkept (sweepReq now) fun req req' heq => by
        rw [sweepReq] at heq
        split_ifs at heq
        · rw [← Option.some.inj heq]
        · rw [← Option.some.inj heq]
      exact ⟨hlen, hpackets⟩

theorem State.small_run [DecidableEq ι] (events : List (Event ι)) : (State.run events).Small := by
  induction events using List.reverseRecOn with
  | nil => exact ⟨Nat.le_refl 0, fun _ h => absurd h List.not_mem_nil⟩
  | append_singleton events e ih =>
      rw [run_concat]
      exact ih.step e

namespace MemoryState

variable [DecidableEq ι] {fuel : ℕ}

/-- The memory holds the cache of the run so far, and the same has been emitted. -/
structure Follows (s : MemoryState ι) (t : State ι) : Prop where
  implements : s.mem.Implements t.cache
  emitted : s.emitted = t.emitted
  calls : s.calls = t.calls

theorem Follows.step {s : MemoryState ι} {t : State ι} (h : s.Follows t) (hsmall : t.Small)
    (hfuel : t.calls < fuel) {e : MemoryEvent ι} (he : s.Mallocable e) :
    ∃ s', s.step fuel e = some s' ∧ s'.Follows (t.step e.toEvent) := by
  have hlen := hsmall.requests.trans_lt hfuel
  have hpackets : ∀ req ∈ t.cache.reqList, req.cachedPackets.length < fuel :=
    fun req hreq => (hsmall.packets req hreq).trans_lt hfuel
  obtain ⟨mem', hcall, himplements⟩ : ∃ mem', s.call fuel e = some (mem', (t.call e.toEvent).2) ∧
      mem'.Implements (t.call e.toEvent).1 := by
    cases e with
    | append malloc iface ip4 frame now =>
        rw [call, h.calls]
        exact h.implements.appendPacket hlen malloc he.1 he.2 iface ip4 _ now
    | insert ip4 mac now later => exact h.implements.insert hlen hpackets ip4 mac now later
    | sweep now => exact h.implements.sweep hlen hpackets now
  refine ⟨_, by rw [MemoryState.step, hcall]; rfl, himplements, ?_, ?_⟩
  · exact congrArg (· ++ (t.call e.toEvent).2) h.emitted
  · exact congrArg (· + 1) h.calls

theorem Follows.steps {s : MemoryState ι} {t : State ι} (h : s.Follows t) (hsmall : t.Small)
    {events : List (MemoryEvent ι)} (hfuel : t.calls + events.length ≤ fuel)
    (hpermitted : s.Permitted fuel events) :
    ∃ s', events.foldlM (MemoryState.step fuel) s = some s' ∧
      s'.Follows ((events.map MemoryEvent.toEvent).foldl State.step t) := by
  induction events generalizing s t with
  | nil => exact ⟨s, rfl, h⟩
  | cons e events ih =>
      obtain ⟨hmalloc, hrest⟩ := hpermitted
      rw [List.length_cons] at hfuel
      have hlt : t.calls < fuel := by omega
      obtain ⟨s₁, hs₁, hfollows⟩ := h.step hsmall hlt hmalloc
      have hcalls : (t.step e.toEvent).calls + events.length ≤ fuel := by
        change t.calls + 1 + events.length ≤ fuel
        omega
      obtain ⟨s', hs', hend⟩ := ih hfollows (hsmall.step _) hcalls (hrest s₁ hs₁)
      refine ⟨s', ?_, hend⟩
      rw [List.foldlM_cons, hs₁]
      exact hs'

/-- No run faults at a request or a record, whatever addresses `malloc` returns and whatever is
in new memory: the lists hold the requests and the packets of the cache, with the same emissions,
and no other record is allocated. At any time the cache can be destroyed, and then nothing is
left. -/
theorem run_implements (garbage : ListHead (Unit ⊕ ℕ)) (events : List (MemoryEvent ι))
    (hfuel : events.length < fuel) (h : ∀ s ∈ start garbage, s.Permitted fuel events) :
    ∃ s, run fuel garbage events = some s ∧
      s.mem.Implements (State.run (events.map MemoryEvent.toEvent)).cache ∧
      s.emitted = (State.run (events.map MemoryEvent.toEvent)).emitted ∧
      ∃ mem', s.mem.destroy fuel = some mem' ∧ mem'.Released := by
  obtain ⟨mem, hmem, himplements⟩ := ArpMemory.exists_init (ι := ι) garbage
  have hstart : start garbage =
      some ({ mem := mem, emitted := [], calls := 0 } : MemoryState ι) := by
    rw [start, hmem]
    rfl
  have hfollows : ({ mem := mem, emitted := [], calls := 0 } : MemoryState ι).Follows .init :=
    ⟨himplements, rfl, rfl⟩
  have hlen : 0 + events.length ≤ fuel := by omega
  obtain ⟨s, hs, hend⟩ := hfollows.steps (State.small_run []) hlen (h _ hstart)
  have hsmall := State.small_run (events.map MemoryEvent.toEvent)
  have hcalls : (State.run (events.map MemoryEvent.toEvent)).calls < fuel := by
    rw [calls_run, List.length_map]
    exact hfuel
  refine ⟨s, by rw [run, hstart]; exact hs, hend.implements, hend.emitted, ?_⟩
  exact hend.implements.destroy (hsmall.requests.trans_lt hcalls)
    fun req hreq => (hsmall.packets req hreq).trans_lt hcalls

/-- Two packets are sent and freed, and their memory is used again. -/
def reuse : List (MemoryEvent Unit) :=
  let mac : Mac := Vector.replicate ETH_ALEN 0
  let malloc (req pkt : ℕ) : Mallocs := {
    req := req, pkt := pkt, reqGarbage := ⟨.inr 9, .inr 9⟩, headGarbage := ⟨.inl 9, .inr 9⟩
    pktGarbage := ⟨.inl 9, .inr 9⟩ }
  [.append (malloc 0 0) () 1 (Frame.bare mac mac 5) 0,
    .append (malloc 1 1) () 1 (Frame.bare mac mac 5) 0,
    .append (malloc 1 2) () 2 (Frame.bare mac mac 6) 1,
    .insert 1 mac 2 2, .append (malloc 0 1) () 3 (Frame.bare mac mac 7) 2, .sweep 4]

theorem run_implements_reuse : ∃ s, run 7 ⟨.inl (), .inl ()⟩ reuse = some s ∧
    s.mem.Implements (State.run (reuse.map MemoryEvent.toEvent)).cache ∧
    s.emitted = (State.run (reuse.map MemoryEvent.toEvent)).emitted ∧
    ∃ mem', s.mem.destroy 7 = some mem' ∧ mem'.Released :=
  run_implements _ reuse (by decide) (by decide +kernel)

end MemoryState

end Router

end NetworkLabs
