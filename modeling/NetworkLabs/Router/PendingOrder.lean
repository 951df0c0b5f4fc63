import NetworkLabs.Router.PendingPackets

/-!
# The order of pending packets

The serial numbers of the packets for one interface and address, those that have
been sent and behind them those that are still queued, only grow along this list.
A flush moves the border between the two, an append adds the greatest number at
the end, and a request that is given up takes its numbers out.
-/

namespace NetworkLabs

namespace Router

variable {ι : Type*}

def Emission.sentSerial : Emission ι → Option ℕ
  | transmit _ packet => some packet.serial
  | _ => none

def ArpReq.serials (req : ArpReq ι) : List ℕ := req.cachedPackets.map Packet.serial

/-- The packets in the order in which they have been sent. -/
def State.sentSerials (s : State ι) : List ℕ := s.emitted.filterMap Emission.sentSerial

/-- The packets that are queued, request by request. -/
def ArpCache.queuedSerials (cache : ArpCache ι) : List ℕ := cache.reqList.flatMap ArpReq.serials

theorem reqList_flush (ip4 : UInt32) (mac : Mac) (reqs : List (ArpReq ι)) :
    (eachReq (flushReq ip4 mac) reqs).1 = reqs.filter fun req => !decide (req.ip4 = ip4) := by
  rw [eachReq, ← List.filterMap_eq_filter]
  apply List.filterMap_congr
  intro req _
  rw [flushReq]
  by_cases h : req.ip4 = ip4
  · simp [h, Option.guard]
  · simp [h, Option.guard]

/-- A flush sends the packets of its requests in their order. -/
theorem sentSerials_flush (ip4 : UInt32) (mac : Mac) (reqs : List (ArpReq ι)) :
    (eachReq (flushReq ip4 mac) reqs).2.filterMap Emission.sentSerial =
      (reqs.filter fun req => decide (req.ip4 = ip4)).flatMap ArpReq.serials := by
  induction reqs with
  | nil => rfl
  | cons req reqs ih =>
      rw [eachReq] at ih ⊢
      rw [List.flatMap_cons, List.filterMap_append, ih, flushReq]
      by_cases h : req.ip4 = ip4
      · rw [if_pos h, List.filter_cons_of_pos (by simpa using h), List.flatMap_cons,
          List.filterMap_map, ArpReq.serials]
        congr 1
        exact congrFun List.filterMap_eq_map _
      · rw [if_neg h, List.filter_cons_of_neg (by simpa using h)]
        rfl

theorem sentSerials_sweep (now : ℤ) (reqs : List (ArpReq ι)) :
    (eachReq (sweepReq now) reqs).2.filterMap Emission.sentSerial = [] := by
  rw [eachReq, List.filterMap_flatMap, List.flatMap_eq_nil_iff]
  intro req _
  rw [sweepReq]
  split_ifs
  · rw [List.filterMap_map, List.filterMap_eq_nil_iff]
    exact fun _ _ => rfl
  · rfl
  · rfl

theorem queuedSerials_sweep_sublist (now : ℤ) (reqs : List (ArpReq ι)) :
    ((eachReq (sweepReq now) reqs).1.flatMap ArpReq.serials).Sublist
      (reqs.flatMap ArpReq.serials) := by
  rw [eachReq]
  induction reqs with
  | nil => exact List.Sublist.refl _
  | cons req reqs ih =>
      rw [List.flatMap_cons, List.filterMap_cons, sweepReq]
      split_ifs
      · exact ih.trans (List.sublist_append_right _ _)
      · exact List.Sublist.append_left ih _
      · exact List.Sublist.append_left ih _

/-- A filter of the parts that does not lose what is looked for. -/
theorem filter_flatMap_filter {α β : Type*} (p : β → Bool) (keep : α → Bool) (f : α → List β)
    (l : List α) (h : ∀ a ∈ l, ∀ b ∈ f a, p b = true → keep a = true) :
    ((l.filter keep).flatMap f).filter p = (l.flatMap f).filter p := by
  induction l with
  | nil => rfl
  | cons a l ih =>
      have hrest := ih fun c hc => h c (List.mem_cons_of_mem a hc)
      rw [List.flatMap_cons, List.filter_append]
      by_cases hkeep : keep a = true
      · rw [List.filter_cons_of_pos hkeep, List.flatMap_cons, List.filter_append, hrest]
      · have hnone : (f a).filter p = [] := by
          rw [List.filter_eq_nil_iff]
          exact fun b hb hp => hkeep (h a List.mem_cons_self b hb hp)
        rw [List.filter_cons_of_neg hkeep, hrest, hnone, List.nil_append]

/-- A flush moves the packets for its address from the queue to what has been
sent, and leaves the others where they are. -/
theorem filter_flush (p : ℕ → Bool) (ip4 : UInt32) (mac : Mac) (reqs : List (ArpReq ι))
    (h : (∀ req ∈ reqs, ∀ n ∈ req.serials, p n = true → req.ip4 = ip4) ∨
      ∀ req ∈ reqs, ∀ n ∈ req.serials, p n = true → req.ip4 ≠ ip4) :
    ((eachReq (flushReq ip4 mac) reqs).2.filterMap Emission.sentSerial).filter p ++
      ((eachReq (flushReq ip4 mac) reqs).1.flatMap ArpReq.serials).filter p =
      (reqs.flatMap ArpReq.serials).filter p := by
  have hnone : ∀ keep : ArpReq ι → Bool,
      (∀ req ∈ reqs, ∀ n ∈ req.serials, p n = true → keep req = false) →
        ((reqs.filter keep).flatMap ArpReq.serials).filter p = [] := by
    intro keep hkeep
    rw [List.filter_eq_nil_iff]
    intro n hn hp
    obtain ⟨req, hreq, hmem⟩ := List.mem_flatMap.mp hn
    obtain ⟨hin, hkept⟩ := List.mem_filter.mp hreq
    exact Bool.false_ne_true ((hkeep req hin n hmem hp).symm.trans hkept)
  rw [reqList_flush, sentSerials_flush]
  rcases h with h | h
  · rw [hnone (fun req => !decide (req.ip4 = ip4)) fun req hreq n hn hp => by
      simpa using h req hreq n hn hp, List.append_nil]
    exact filter_flatMap_filter p _ _ reqs fun req hreq n hn hp => by
      simpa using h req hreq n hn hp
  · rw [hnone (fun req => decide (req.ip4 = ip4)) fun req hreq n hn hp => by
      simpa using h req hreq n hn hp, List.nil_append]
    exact filter_flatMap_filter p _ _ reqs fun req hreq n hn hp => by
      simpa using h req hreq n hn hp

/-- The key of a request. -/
def ArpReq.key (req : ArpReq ι) : ι × UInt32 := (req.iface, req.ip4)

theorem mem_records_of_mem_serials {s : State ι} {req : ArpReq ι} (hreq : req ∈ s.cache.reqList)
    {n : ℕ} (hn : n ∈ req.serials) :
    ∃ packet : Packet, packet.serial = n ∧ .queued req.iface req.ip4 packet ∈ s.records := by
  obtain ⟨packet, hpacket, rfl⟩ := List.mem_map.mp hn
  refine ⟨packet, rfl, List.mem_append_left _ ?_⟩
  exact List.mem_flatMap.mpr ⟨req, hreq, List.mem_map_of_mem hpacket⟩

theorem mem_records_of_mem_sentSerials {s : State ι} {n : ℕ} (hn : n ∈ s.sentSerials) :
    ∃ r ∈ s.records, r.serial = n := by
  obtain ⟨em, hem, hserial⟩ := List.mem_filterMap.mp hn
  cases em with
  | transmit iface packet =>
      refine ⟨.transmitted iface packet, List.mem_append_right _ ?_, Option.some.inj hserial⟩
      exact List.mem_filterMap.mpr ⟨_, hem, rfl⟩
  | arpRequest iface ip => exact absurd hserial (by simp [Emission.sentSerial])
  | icmp packet type code => exact absurd hserial (by simp [Emission.sentSerial])

section

variable [DecidableEq ι]

/-- The call with this number appends a packet for the interface and the
address. -/
def appends (events : List (Event ι)) (iface : ι) (ip4 : UInt32) (serial : ℕ) : Bool :=
  match events[serial]? with
  | some (.append iface' ip _ _) => iface' == iface && ip == ip4
  | _ => false

theorem appends_iff (events : List (Event ι)) (iface : ι) (ip4 : UInt32) (serial : ℕ) :
    appends events iface ip4 serial = true ↔
      ∃ frame now, events[serial]? = some (.append iface ip4 frame now) := by
  rw [appends]
  cases events[serial]? with
  | none => simp
  | some e =>
      cases e with
      | append iface' ip frame now =>
          rw [Bool.and_eq_true, beq_iff_eq, beq_iff_eq]
          constructor
          · rintro ⟨rfl, rfl⟩
            exact ⟨frame, now, rfl⟩
          · rintro ⟨frame', now', h⟩
            injection Option.some.inj h with hiface hip
            exact ⟨hiface, hip⟩
      | insert ip mac now later => simp
      | sweep now => simp

/-- A packet that is appended is queued behind those for its interface and
address. -/
theorem filter_upsert_sublist (p : ℕ → Bool) (iface : ι) (ip4 : UInt32) (packet : Packet) (now : ℤ)
    (reqs : List (ArpReq ι))
    (hunique : reqs.Pairwise fun a b => waits iface ip4 a = true → ¬ waits iface ip4 b = true)
    (h : p packet.serial = false ∨
      ∀ req ∈ reqs, ∀ n ∈ req.serials, p n = true → waits iface ip4 req = true) :
    (((FirstMatch.upsert (waits iface ip4) (fun req => req.push packet) (newReq iface ip4 now)
      reqs).flatMap ArpReq.serials).filter p).Sublist
      ((reqs.flatMap ArpReq.serials).filter p ++ [packet.serial]) := by
  induction reqs with
  | nil => exact List.filter_sublist
  | cons req reqs ih =>
      rw [List.pairwise_cons] at hunique
      rw [FirstMatch.upsert]
      split_ifs with hwaits
      · have hpush : (req.push packet).serials = req.serials ++ [packet.serial] := by
          rw [ArpReq.serials, ArpReq.push, List.map_append, List.map_singleton, ArpReq.serials]
        rw [List.flatMap_cons, List.flatMap_cons, hpush, List.filter_append, List.filter_append,
          List.filter_append]
        rcases h with hp | hall
        · rw [List.filter_cons_of_neg (by simp [hp]), List.filter_nil, List.append_nil]
          exact List.sublist_append_left _ _
        · have hrest : (reqs.flatMap ArpReq.serials).filter p = [] := by
            rw [List.filter_eq_nil_iff]
            intro n hn hp
            obtain ⟨other, hother, hmem⟩ := List.mem_flatMap.mp hn
            exact hunique.1 other hother hwaits
              (hall other (List.mem_cons_of_mem req hother) n hmem hp)
          rw [hrest, List.append_nil, List.append_nil]
          exact List.filter_sublist.append_left _
      · have hrest : p packet.serial = false ∨
            ∀ other ∈ reqs, ∀ n ∈ other.serials, p n = true → waits iface ip4 other = true :=
          h.imp_right fun hall other hother => hall other (List.mem_cons_of_mem req hother)
        rw [List.flatMap_cons, List.flatMap_cons, List.filter_append, List.filter_append,
          List.append_assoc]
        exact (ih hunique.2 hrest).append_left _

/-- No two requests wait for the same address on the same interface. -/
theorem keys_nodup_call (s : State ι) (e : Event ι) (h : (s.cache.reqList.map ArpReq.key).Nodup) :
    ((s.call e).1.reqList.map ArpReq.key).Nodup := by
  have hround : ∀ round : ArpReq ι → Option (ArpReq ι) × List (Emission ι),
      (∀ req req', (round req).1 = some req' → req'.key = req.key) →
        ((eachReq round s.cache.reqList).1.map ArpReq.key).Nodup := by
    intro round hkey
    refine List.Nodup.sublist ?_ h
    rw [eachReq]
    induction s.cache.reqList with
    | nil => exact List.Sublist.refl _
    | cons req reqs ih =>
        rw [List.filterMap_cons]
        cases hreq : (round req).1 with
        | none => exact ih.cons _
        | some req' =>
            rw [List.map_cons, List.map_cons, hkey req req' hreq]
            exact ih.cons_cons _
  cases e with
  | append iface ip4 frame now =>
      rw [State.call, reqList_appendPacket]
      cases hany : s.cache.reqList.any (waits iface ip4) with
      | true =>
          have hsame : ∀ req : ArpReq ι,
              (req.push { serial := s.calls, frame := frame }).key = req.key := fun _ => rfl
          rw [FirstMatch.map_upsert_of_any hsame hany]
          exact h
      | false =>
          rw [FirstMatch.upsert_of_not_any hany, List.map_append, List.nodup_append]
          refine ⟨h, List.nodup_singleton _, ?_⟩
          intro k hk k' hk' heq
          obtain ⟨req, hreq, rfl⟩ := List.mem_map.mp hk
          rw [List.map_singleton, List.mem_singleton] at hk'
          rw [List.any_eq_false] at hany
          apply hany req hreq
          rw [hk'] at heq
          injection heq with hiface hip
          exact (waits_iff iface ip4 req).mpr ⟨hiface, hip⟩
  | insert ip4 mac now later =>
      apply hround
      intro req req' hreq
      rw [flushReq] at hreq
      split_ifs at hreq
      rw [Option.some.inj hreq]
  | sweep now =>
      apply hround
      intro req req' hreq
      rw [sweepReq] at hreq
      split_ifs at hreq
      · rw [← Option.some.inj hreq]
        rfl
      · rw [Option.some.inj hreq]

theorem keys_nodup_run (events : List (Event ι)) :
    ((State.run events).cache.reqList.map ArpReq.key).Nodup := by
  induction events using List.reverseRecOn with
  | nil => exact List.nodup_nil
  | append_singleton events e ih =>
      rw [run_concat]
      exact keys_nodup_call _ e ih

/-- A record belongs to a call of the run. -/
theorem lt_length_of_mem_records (events : List (Event ι)) {r : Record ι}
    (h : r ∈ (State.run events).records) : r.serial < events.length := by
  by_contra hge
  have hfate := fate_run events r.serial
  rw [Fate, List.getElem?_eq_none (not_lt.mp hge)] at hfate
  have hmem : r ∈ (State.run events).recordsOf r.serial :=
    List.mem_filter.mpr ⟨h, beq_self_eq_true _⟩
  rw [hfate] at hmem
  exact absurd hmem List.not_mem_nil

/-- A packet is queued under a request for its interface and address. -/
theorem key_of_appends (events : List (Event ι)) {req : ArpReq ι}
    (hreq : req ∈ (State.run events).cache.reqList) {n : ℕ} (hn : n ∈ req.serials) {iface : ι}
    {ip4 : UInt32} (happends : appends events iface ip4 n = true) :
    req.iface = iface ∧ req.ip4 = ip4 := by
  obtain ⟨packet, rfl, hmem⟩ := mem_records_of_mem_serials hreq hn
  obtain ⟨frame, now, hevent⟩ := (appends_iff events iface ip4 _).mp happends
  have hfate := fate_run events packet.serial
  rw [Fate, hevent] at hfate
  obtain ⟨r, hrecords, haccounts⟩ := hfate
  have hr : .queued req.iface req.ip4 packet ∈ (State.run events).recordsOf packet.serial :=
    List.mem_filter.mpr ⟨hmem, beq_self_eq_true _⟩
  rw [hrecords, List.mem_singleton] at hr
  rw [← hr] at haccounts
  exact ⟨haccounts.1, haccounts.2.1⟩

/-- The packets appended for the interface and the address: those that have been
sent, and behind them those that are queued. -/
def keyed (events : List (Event ι)) (s : State ι) (iface : ι) (ip4 : UInt32) : List ℕ :=
  (s.sentSerials ++ s.cache.queuedSerials).filter (appends events iface ip4)

theorem serial_lt_length (events : List (Event ι)) {n : ℕ}
    (h : n ∈ (State.run events).sentSerials ++ (State.run events).cache.queuedSerials) :
    n < events.length := by
  rcases List.mem_append.mp h with hsent | hqueued
  · obtain ⟨r, hr, rfl⟩ := mem_records_of_mem_sentSerials hsent
    exact lt_length_of_mem_records events hr
  · obtain ⟨req, hreq, hn⟩ := List.mem_flatMap.mp hqueued
    obtain ⟨packet, rfl, hmem⟩ := mem_records_of_mem_serials hreq hn
    exact lt_length_of_mem_records events hmem

theorem appends_concat_of_lt (events : List (Event ι)) (e : Event ι) (iface : ι) (ip4 : UInt32)
    {n : ℕ} (h : n < events.length) :
    appends (events ++ [e]) iface ip4 n = appends events iface ip4 n := by
  rw [appends, List.getElem?_append_left h, appends]

theorem keyed_concat (events : List (Event ι)) (e : Event ι) (iface : ι) (ip4 : UInt32) :
    keyed (events ++ [e]) (State.run events) iface ip4 =
      keyed events (State.run events) iface ip4 := by
  apply List.filter_congr
  intro n hn
  exact appends_concat_of_lt events e iface ip4 (serial_lt_length events hn)

/-- A call moves packets from the queue to what has been sent without changing
their order, adds its own packet at the end, or gives packets up. -/
theorem keyed_step_sublist (events : List (Event ι)) (e : Event ι) (iface : ι) (ip4 : UInt32) :
    (keyed (events ++ [e]) ((State.run events).step e) iface ip4).Sublist
      (keyed (events ++ [e]) (State.run events) iface ip4 ++ [events.length]) := by
  have hkey : ∀ req ∈ (State.run events).cache.reqList, ∀ n ∈ req.serials,
      appends (events ++ [e]) iface ip4 n = true → req.iface = iface ∧ req.ip4 = ip4 := by
    intro req hreq n hn happends
    have hlt : n < events.length := by
      apply serial_lt_length events
      exact List.mem_append_right _ (List.mem_flatMap.mpr ⟨req, hreq, hn⟩)
    rw [appends_concat_of_lt events e iface ip4 hlt] at happends
    exact key_of_appends events hreq hn happends
  have hsent : ((State.run events).step e).sentSerials =
      (State.run events).sentSerials ++
        ((State.run events).call e).2.filterMap Emission.sentSerial :=
    List.filterMap_append
  rw [keyed, keyed, hsent, ArpCache.queuedSerials, ArpCache.queuedSerials, List.filter_append,
    List.filter_append, List.filter_append, List.append_assoc, List.append_assoc]
  apply List.Sublist.append_left
  cases e with
  | insert ip mac now later =>
      rw [State.call, State.step, State.call, ArpCache.insert, filter_flush]
      · exact List.sublist_append_left _ _
      · by_cases hip : ip = ip4
        · exact Or.inl fun req hreq n hn hp => (hkey req hreq n hn hp).2.trans hip.symm
        · exact Or.inr fun req hreq n hn hp heq => hip (heq.symm.trans (hkey req hreq n hn hp).2)
  | sweep now =>
      rw [State.call, State.step, State.call, ArpCache.sweep, sentSerials_sweep, List.filter_nil,
        List.nil_append]
      exact ((queuedSerials_sweep_sublist now _).filter _).trans (List.sublist_append_left _ _)
  | append iface' ip frame now =>
      have hnothing : ((State.run events).call (.append iface' ip frame now)).2.filterMap
          Emission.sentSerial = [] := by
        rw [State.call, ArpCache.appendPacket]
        split_ifs
        · rfl
        · rfl
      rw [hnothing, List.filter_nil, List.nil_append, State.step, State.call, reqList_appendPacket,
        ← calls_run]
      apply filter_upsert_sublist
      · have hnodup := keys_nodup_run events
        rw [List.Nodup, List.pairwise_map] at hnodup
        refine hnodup.imp fun {a b} hne ha hb => hne ?_
        rw [ArpReq.key, ArpReq.key, ((waits_iff iface' ip a).mp ha).1,
          ((waits_iff iface' ip a).mp ha).2, ((waits_iff iface' ip b).mp hb).1,
          ((waits_iff iface' ip b).mp hb).2]
      · by_cases hself : appends (events ++ [.append iface' ip frame now]) iface ip4
            (State.run events).calls = true
        · right
          intro req hreq n hn hp
          rw [calls_run] at hself
          obtain ⟨frame', now', hevent⟩ := (appends_iff _ iface ip4 _).mp hself
          rw [List.getElem?_concat_length] at hevent
          injection Option.some.inj hevent with hiface hip
          rw [waits_iff, hiface, hip]
          exact hkey req hreq n hn hp
        · exact Or.inl (Bool.of_not_eq_true hself)

theorem keyed_pairwise (events : List (Event ι)) (iface : ι) (ip4 : UInt32) :
    (keyed events (State.run events) iface ip4).Pairwise (· < ·) := by
  induction events using List.reverseRecOn with
  | nil => exact List.Pairwise.nil
  | append_singleton events e ih =>
      rw [run_concat]
      refine List.Pairwise.sublist (keyed_step_sublist events e iface ip4) ?_
      rw [keyed_concat, List.pairwise_append]
      refine ⟨ih, List.pairwise_singleton _ _, ?_⟩
      intro n hn m hm
      rw [List.mem_singleton.mp hm]
      exact serial_lt_length events (List.mem_of_mem_filter hn)

/-- Every packet that has been appended is queued under one request for its
interface and address, or has been sent once, on its interface and to the address
inserted first after it, or has been dropped with one ICMP message. Packets for
the same interface and address are sent in the order in which they were appended,
and there is at most one request for them. -/
theorem pending_neither_lost_nor_duplicated (events : List (Event ι)) :
    (∀ serial iface ip4 frame now, events[serial]? = some (.append iface ip4 frame now) →
      ∃ r, (State.run events).recordsOf serial = [r] ∧
        Accounts iface ip4 { serial := serial, frame := frame } (events.drop (serial + 1)) r) ∧
    (∀ iface ip4, ((State.run events).sentSerials.filter
      (appends events iface ip4)).Pairwise (· < ·)) ∧
    ((State.run events).cache.reqList.map ArpReq.key).Nodup := by
  refine ⟨?_, ?_, keys_nodup_run events⟩
  · intro serial iface ip4 frame now hevent
    have hfate := fate_run events serial
    rw [Fate, hevent] at hfate
    exact hfate
  · intro iface ip4
    refine List.Pairwise.sublist ?_ (keyed_pairwise events iface ip4)
    exact (List.sublist_append_left _ _).filter _

end

end Router

end NetworkLabs
