import Mathlib.Data.List.Chain
import NetworkLabs.Library.Transition
import NetworkLabs.Router.PendingOrder

/-!
# How often a request is sent

The first ARP request is sent by the append that creates the entry, with the counter
at 0. A sweep sends it again as long as the counter is not above 5, and counts
afterwards. So a request is sent seven times before it is given up, and not five
times, and the sweep that gives it up does not look at the clock.
-/

namespace NetworkLabs

namespace Router

variable {ι : Type*}

/-- The clock as an event reads it. -/
def Event.now : Event ι → ℤ
  | append _ _ _ now => now
  | insert _ _ now _ => now
  | sweep now => now

section

variable [DecidableEq ι]

/-- An ARP request for the address on the interface. -/
def Emission.asksFor (key : ι × UInt32) : Emission ι → Bool
  | arpRequest iface ip4 => (iface, ip4) == key
  | _ => false

/-- The times at which the requests were sent for what is pending under each key. They
are forgotten when nothing is pending any more. -/
def noteRequests (s : State ι) (sent : ι × UInt32 → List ℤ) (e : Event ι) :
    ι × UInt32 → List ℤ := fun key =>
  if key ∈ (s.step e).cache.reqList.map ArpReq.key then
    sent key ++ ((s.call e).2.filter (Emission.asksFor key)).map fun _ => e.now
  else []

/-- The state of the cache together with the times. -/
def stepRequests (st : State ι × (ι × UInt32 → List ℤ)) (e : Event ι) :
    State ι × (ι × UInt32 → List ℤ) :=
  (st.1.step e, noteRequests st.1 st.2 e)

def requestTimes (events : List (Event ι)) : ι × UInt32 → List ℤ :=
  (events.foldl stepRequests (.init, fun _ => [])).2

/-- What a run is meant to do with what stays pending: at most five requests are sent,
one second or more apart, and the sweep that comes more than one second after the
fifth one answers every packet with one ICMP message and removes the entry. -/
structure GivesUpAfterFive (events : List (Event ι)) : Prop where
  length_le : ∀ k key, (requestTimes (events.take k) key).length ≤ ARP_REQUEST_MAX_RETRIES
  apart : ∀ k key, (requestTimes (events.take k) key).IsChain fun t t' => t + 1 ≤ t'
  gives_up : ∀ k (h : k < events.length) now, events[k] = .sweep now →
    ∀ req ∈ (State.run (events.take k)).cache.reqList, ∀ last,
      (requestTimes (events.take k) req.key).length = ARP_REQUEST_MAX_RETRIES →
      (requestTimes (events.take k) req.key).getLast? = some last → last + 1 < now →
      req.key ∉ (State.run (events.take (k + 1))).cache.reqList.map ArpReq.key ∧
      ∀ packet ∈ req.cachedPackets,
        (((State.run (events.take k)).call events[k]).2.filterMap Emission.record).filter
          (fun r => r.serial == packet.serial) =
            [.answered packet ICMP_DEST_UNREACH ICMP_HOST_UNREACH]

end

/-- No sweep comes more than one second after the fifth request. -/
def SweepsInTime (s : State ι) : Event ι → Prop
  | .sweep now => ∀ req ∈ s.cache.reqList, req.retries + 1 = ARP_REQUEST_MAX_RETRIES →
      now - req.sent ≤ 1
  | _ => True

/-! ## The counter of a request -/

/-- The counter of a request is one less than the number of times it was sent, and the
time in it is that of the last time. -/
structure Tells (req : ArpReq ι) (times : List ℤ) : Prop where
  length_eq : times.length = req.retries + 1
  getLast_eq : times.getLast? = some req.sent
  apart : times.IsChain fun t t' => t + 1 < t'

theorem Tells.push {req : ArpReq ι} {times : List ℤ} (h : Tells req times) (packet : Packet) :
    Tells (req.push packet) times where
  length_eq := h.length_eq
  getLast_eq := h.getLast_eq
  apart := h.apart

theorem Tells.resend {req : ArpReq ι} {times : List ℤ} (h : Tells req times) {now : ℤ}
    (hnow : now - req.sent > 1) :
    Tells { req with retries := req.retries + 1, sent := now } (times ++ [now]) where
  length_eq := by rw [List.length_append, h.length_eq, List.length_singleton]
  getLast_eq := List.getLast?_concat
  apart := by
    refine h.apart.append (List.isChain_singleton now) ?_
    intro t ht t' ht'
    rw [h.getLast_eq, Option.mem_def, Option.some.injEq] at ht
    rw [List.head?_cons, Option.mem_def, Option.some.injEq] at ht'
    omega

/-- What a sweep makes of a request that it keeps. -/
theorem sweepReq_eq_some {req req' : ArpReq ι} {now : ℤ} (h : (sweepReq now req).1 = some req') :
    req.retries ≤ ARP_REQUEST_MAX_RETRIES ∧
      (now - req.sent > 1 ∧ req' = { req with retries := req.retries + 1, sent := now } ∧
          (sweepReq now req).2 = [.arpRequest req.iface req.ip4] ∨
        now - req.sent ≤ 1 ∧ req' = req ∧ (sweepReq now req).2 = []) := by
  rw [sweepReq] at h ⊢
  split_ifs at h ⊢ with hmax hnow
  · exact ⟨not_lt.mp hmax, Or.inl ⟨hnow, (Option.some.inj h).symm, rfl⟩⟩
  · exact ⟨not_lt.mp hmax, Or.inr ⟨not_lt.mp hnow, (Option.some.inj h).symm, rfl⟩⟩

/-- Of the parts of a list whose keys are distinct, one holds what belongs to a key. -/
theorem filter_flatMap_of_nodup {α β κ : Type*} (key : α → κ) (p : β → Bool) (f : α → List β)
    {l : List α} (hnodup : (l.map key).Nodup) {a : α} (ha : a ∈ l)
    (hother : ∀ b ∈ l, key b ≠ key a → (f b).filter p = []) :
    (l.flatMap f).filter p = (f a).filter p := by
  induction l with
  | nil => exact absurd ha List.not_mem_nil
  | cons b l ih =>
      rw [List.map_cons, List.nodup_cons] at hnodup
      have hrest : ∀ c ∈ l, key c ≠ key a → (f c).filter p = [] :=
        fun c hc => hother c (List.mem_cons_of_mem b hc)
      rw [List.flatMap_cons, List.filter_append]
      rcases List.mem_cons.mp ha with rfl | ha
      · have hnone : (l.flatMap f).filter p = [] := by
          rw [List.filter_flatMap, List.flatMap_eq_nil_iff]
          intro c hc
          apply hrest c hc
          intro heq
          exact hnodup.1 (heq ▸ List.mem_map_of_mem hc)
        rw [hnone, List.append_nil]
      · have hne : key b ≠ key a := fun heq => hnodup.1 (heq ▸ List.mem_map_of_mem ha)
        rw [hother b List.mem_cons_self hne, List.nil_append, ih hnodup.2 ha hrest]

section

variable [DecidableEq ι] {s : State ι} {sent : ι × UInt32 → List ℤ}

theorem filter_request_self (iface : ι) (ip4 : UInt32) :
    [Emission.arpRequest iface ip4].filter (Emission.asksFor (iface, ip4)) =
      [.arpRequest iface ip4] :=
  List.filter_cons_of_pos (beq_self_eq_true (iface, ip4))

theorem filter_request_of_ne {iface : ι} {ip4 : UInt32} {key : ι × UInt32}
    (h : key ≠ (iface, ip4)) :
    [Emission.arpRequest iface ip4].filter (Emission.asksFor key) = [] := by
  rw [List.filter_cons_of_neg, List.filter_nil]
  rw [Emission.asksFor, beq_iff_eq]
  exact h.symm

/-- A sweep sends a request for its own key only. -/
theorem filter_sweepReq_of_ne {req : ArpReq ι} {key : ι × UInt32} (now : ℤ) (h : req.key ≠ key) :
    (sweepReq now req).2.filter (Emission.asksFor key) = [] := by
  rw [sweepReq, List.filter_eq_nil_iff]
  split_ifs
  · intro em hem
    obtain ⟨packet, -, rfl⟩ := List.mem_map.mp hem
    exact Bool.false_ne_true
  · exact List.filter_eq_nil_iff.mp (filter_request_of_ne h.symm)
  · exact fun em hem => absurd hem List.not_mem_nil

theorem filter_flush_asksFor (ip4 : UInt32) (mac : Mac) (reqs : List (ArpReq ι))
    (key : ι × UInt32) :
    (eachReq (flushReq ip4 mac) reqs).2.filter (Emission.asksFor key) = [] := by
  rw [List.filter_eq_nil_iff]
  intro em hem
  obtain ⟨req, -, hround⟩ := List.mem_flatMap.mp hem
  rw [flushReq] at hround
  split_ifs at hround
  · obtain ⟨packet, -, rfl⟩ := List.mem_map.mp hround
    exact Bool.false_ne_true
  · exact absurd hround List.not_mem_nil

/-- What is true of new requests, and kept when a packet is added and when a request is
sent again, is true of all requests after a call. -/
theorem forall_mem_reqList_call {P : ArpReq ι → Prop} (e : Event ι)
    (hpush : ∀ req packet, P req → P (req.push packet))
    (hnew : ∀ iface ip4 now, P (newReq iface ip4 now))
    (hresend : ∀ now, e = .sweep now → ∀ req ∈ s.cache.reqList, P req →
      req.retries ≤ ARP_REQUEST_MAX_RETRIES → now - req.sent > 1 →
      P { req with retries := req.retries + 1, sent := now })
    (h : ∀ req ∈ s.cache.reqList, P req) : ∀ req ∈ (s.call e).1.reqList, P req := by
  cases e with
  | append iface ip4 frame now =>
      rw [State.call, reqList_appendPacket]
      exact FirstMatch.forall_mem_upsert (fun req hreq => hpush req _ hreq) (hnew _ _ _) h
  | insert ip4 mac now later =>
      rw [State.call, ArpCache.insert, reqList_flush]
      exact fun req hreq => h req (List.mem_of_mem_filter hreq)
  | sweep now =>
      intro req' hreq'
      obtain ⟨req, hreq, hround⟩ := List.mem_filterMap.mp hreq'
      obtain ⟨hmax, ⟨hnow, rfl, -⟩ | ⟨-, rfl, -⟩⟩ := sweepReq_eq_some hround
      · exact hresend now rfl req hreq (h req hreq) hmax hnow
      · exact h req' hreq

theorem filter_sweep {reqs : List (ArpReq ι)} (hnodup : (reqs.map ArpReq.key).Nodup)
    {req : ArpReq ι} (hreq : req ∈ reqs) (now : ℤ) :
    (eachReq (sweepReq now) reqs).2.filter (Emission.asksFor req.key) =
      (sweepReq now req).2.filter (Emission.asksFor req.key) :=
  filter_flatMap_of_nodup ArpReq.key _ _ hnodup hreq
    fun _ _ hne => filter_sweepReq_of_ne now hne

/-! ## All requests -/

/-- All requests tell how often they were sent, and there is one for each key. -/
structure Told (s : State ι) (sent : ι × UInt32 → List ℤ) : Prop where
  nodup : (s.cache.reqList.map ArpReq.key).Nodup
  tells : ∀ req ∈ s.cache.reqList, Tells req (sent req.key)
  none : ∀ key, key ∉ s.cache.reqList.map ArpReq.key → sent key = []

omit [DecidableEq ι] in
theorem told_init : Told (.init : State ι) fun _ => [] where
  nodup := List.nodup_nil
  tells := fun _ h => absurd h List.not_mem_nil
  none := fun _ _ => rfl

/-- What remains to be shown of a call. -/
theorem Told.of_tells (h : Told s sent) (e : Event ι)
    (htells : ∀ req ∈ (s.call e).1.reqList, Tells req (sent req.key ++
      ((s.call e).2.filter (Emission.asksFor req.key)).map fun _ => e.now)) :
    Told (s.step e) (noteRequests s sent e) where
  nodup := keys_nodup_call s e h.nodup
  tells := by
    intro req hreq
    rw [noteRequests, if_pos (List.mem_map_of_mem hreq)]
    exact htells req hreq
  none := fun key hkey => if_neg hkey

theorem Told.append (h : Told s sent) (iface : ι) (ip4 : UInt32) (frame : Frame) (now : ℤ) :
    Told (s.step (.append iface ip4 frame now))
      (noteRequests s sent (.append iface ip4 frame now)) := by
  apply h.of_tells
  rw [State.call, reqList_appendPacket]
  cases hany : s.cache.reqList.any (waits iface ip4) with
  | true =>
      have hsilent : (s.cache.appendPacket iface ip4 { serial := s.calls, frame := frame } now).2 =
          [] := if_pos hany
      intro req hreq
      rw [hsilent, List.filter_nil, List.map_nil, List.append_nil]
      rcases FirstMatch.mem_upsert_of_any hany hreq with hold | ⟨old, hold, -, rfl⟩
      · exact h.tells req hold
      · exact (h.tells old hold).push _
  | false =>
      have hsent : (s.cache.appendPacket iface ip4 { serial := s.calls, frame := frame } now).2 =
          [.arpRequest iface ip4] := if_neg (Bool.eq_false_iff.mp hany)
      have hother : ∀ req ∈ s.cache.reqList, req.key ≠ (iface, ip4) := by
        intro req hreq heq
        injection heq with hiface hip
        exact List.any_eq_false.mp hany req hreq ((waits_iff iface ip4 req).mpr ⟨hiface, hip⟩)
      intro req hreq
      rw [FirstMatch.upsert_of_not_any hany] at hreq
      rw [hsent]
      rcases List.mem_append.mp hreq with hold | hnew
      · rw [filter_request_of_ne (hother req hold), List.map_nil, List.append_nil]
        exact h.tells req hold
      · rw [List.mem_singleton.mp hnew]
        have hnone : sent (iface, ip4) = [] := by
          apply h.none
          intro hkey
          obtain ⟨old, hold, heq⟩ := List.mem_map.mp hkey
          exact hother old hold heq
        change Tells _ (sent (iface, ip4) ++
          ([Emission.arpRequest iface ip4].filter (Emission.asksFor (iface, ip4))).map _)
        rw [hnone, filter_request_self]
        exact { length_eq := rfl, getLast_eq := rfl, apart := List.isChain_singleton _ }

theorem Told.sweep (h : Told s sent) (now : ℤ) :
    Told (s.step (.sweep now)) (noteRequests s sent (.sweep now)) := by
  apply h.of_tells
  intro req' hreq'
  obtain ⟨req, hreq, hround⟩ := List.mem_filterMap.mp hreq'
  have hfilter := filter_sweep h.nodup hreq now
  obtain ⟨-, ⟨hnow, rfl, hsent⟩ | ⟨-, rfl, hsent⟩⟩ := sweepReq_eq_some hround
  · change Tells _ (sent req.key ++
      ((eachReq (sweepReq now) s.cache.reqList).2.filter (Emission.asksFor req.key)).map _)
    rw [hfilter, hsent, show req.key = (req.iface, req.ip4) from rfl, filter_request_self]
    exact (h.tells req hreq).resend hnow
  · change Tells _ (sent req'.key ++
      ((eachReq (sweepReq now) s.cache.reqList).2.filter (Emission.asksFor req'.key)).map _)
    rw [hfilter, hsent, List.filter_nil, List.map_nil, List.append_nil]
    exact h.tells req' hreq

theorem Told.step (h : Told s sent) (e : Event ι) : Told (s.step e) (noteRequests s sent e) := by
  cases e with
  | append iface ip4 frame now => exact h.append iface ip4 frame now
  | insert ip4 mac now later =>
      apply h.of_tells
      rw [State.call, ArpCache.insert, reqList_flush]
      intro req hreq
      rw [filter_flush_asksFor, List.map_nil, List.append_nil]
      exact h.tells req (List.mem_of_mem_filter hreq)
  | sweep now => exact h.sweep now

theorem Told.length_le (h : Told s sent) {n : ℕ} (hn : ∀ req ∈ s.cache.reqList, req.retries < n)
    (key : ι × UInt32) : (sent key).length ≤ n := by
  by_cases hkey : key ∈ s.cache.reqList.map ArpReq.key
  · obtain ⟨req, hreq, rfl⟩ := List.mem_map.mp hkey
    rw [(h.tells req hreq).length_eq]
    exact hn req hreq
  · rw [h.none key hkey]
    exact Nat.zero_le n

theorem Told.apart (h : Told s sent) (key : ι × UInt32) :
    (sent key).IsChain fun t t' => t + 1 ≤ t' := by
  by_cases hkey : key ∈ s.cache.reqList.map ArpReq.key
  · obtain ⟨req, hreq, rfl⟩ := List.mem_map.mp hkey
    exact (h.tells req hreq).apart.imp fun _ _ => le_of_lt
  · rw [h.none key hkey]
    exact List.isChain_nil

end

/-! ## Runs -/

section

variable [DecidableEq ι]

theorem told_run (events : List (Event ι)) : Told (State.run events) (requestTimes events) := by
  have hfst : (events.foldl stepRequests ((.init : State ι), fun _ => [])).1 = State.run events :=
    (List.foldl_hom Prod.fst fun _ _ => rfl).symm
  have hinv : Told (events.foldl stepRequests (.init, fun _ => [])).1
      (events.foldl stepRequests (.init, fun _ => [])).2 :=
    Transition.foldl_invariant
      (fun st : State ι × (ι × UInt32 → List ℤ) => Told st.1 st.2) (fun _ e h => h.step e) _ events
      told_init
  rw [hfst] at hinv
  exact hinv

/-- No request is sent more than seven times. -/
theorem requestTimes_length_le (events : List (Event ι)) (key : ι × UInt32) :
    (requestTimes events key).length ≤ ARP_REQUEST_MAX_RETRIES + 2 := by
  refine (told_run events).length_le (n := ARP_REQUEST_MAX_RETRIES + 2) ?_ key
  refine Transition.foldl_invariant
    (fun s : State ι => ∀ req ∈ s.cache.reqList, req.retries < ARP_REQUEST_MAX_RETRIES + 2)
    (fun s e h => ?_) .init events fun _ h => absurd h List.not_mem_nil
  apply forall_mem_reqList_call e (fun _ _ hreq => hreq) (fun _ _ _ => Nat.succ_pos _) _ h
  intro now _ req _ _ hmax _
  exact Nat.lt_succ_of_le (Nat.succ_le_succ hmax)

/-- As long as every sweep comes in time, no request is sent more than five times. -/
theorem retries_lt_of_along (events : List (Event ι))
    (h : Transition.Along State.step SweepsInTime .init events) :
    ∀ req ∈ (State.run events).cache.reqList, req.retries < ARP_REQUEST_MAX_RETRIES := by
  refine Transition.Along.invariant
    (fun s : State ι => ∀ req ∈ s.cache.reqList, req.retries < ARP_REQUEST_MAX_RETRIES)
    (fun s e hs hintime => ?_) .init events (fun _ h => absurd h List.not_mem_nil) h
  apply forall_mem_reqList_call e (fun _ _ hreq => hreq) (fun _ _ _ => Nat.succ_pos _) _ hs
  rintro now rfl req hreq hlt _ hnow
  have hne : req.retries + 1 ≠ ARP_REQUEST_MAX_RETRIES :=
    fun heq => absurd (hintime req hreq heq) (not_le.mpr hnow)
  change req.retries + 1 < ARP_REQUEST_MAX_RETRIES
  omega

theorem along_take {events : List (Event ι)} {guard : State ι → Event ι → Prop}
    (h : Transition.Along State.step guard .init events) (k : ℕ) :
    Transition.Along State.step guard .init (events.take k) := by
  rw [← List.take_append_drop k events, Transition.along_append] at h
  exact h.1

/-- A sweep that comes after the fifth request, and not in time, sends a sixth one. -/
theorem mem_step_sweep {s : State ι} {req : ArpReq ι} (hreq : req ∈ s.cache.reqList)
    (hfive : req.retries + 1 = ARP_REQUEST_MAX_RETRIES) {now : ℤ} (hnow : 1 < now - req.sent) :
    req.key ∈ (s.step (.sweep now)).cache.reqList.map ArpReq.key := by
  have hround : (sweepReq now req).1 =
      some { req with retries := req.retries + 1, sent := now } := by
    rw [sweepReq, if_neg (by omega), if_pos hnow]
  exact List.mem_map.mpr ⟨_, List.mem_filterMap.mpr ⟨req, hreq, hround⟩, rfl⟩

/-- A run gives up after five requests exactly if every sweep comes before that has to
be done. -/
theorem run_givesUp_iff (events : List (Event ι)) :
    GivesUpAfterFive events ↔ Transition.Along State.step SweepsInTime .init events := by
  constructor
  · intro h
    rw [Transition.along_iff_forall_getElem]
    intro k hk
    change SweepsInTime (State.run (events.take k)) events[k]
    cases hevent : events[k] with
    | append iface ip4 frame now => trivial
    | insert ip4 mac now later => trivial
    | sweep now =>
        intro req hreq hfive
        by_contra hlate
        rw [not_le] at hlate
        have htells := (told_run (events.take k)).tells req hreq
        have hgone := (h.gives_up k hk now hevent req hreq req.sent
          (htells.length_eq.trans hfive) htells.getLast_eq (by omega)).1
        have hnext : State.run (events.take (k + 1)) =
            (State.run (events.take k)).step events[k] :=
          Transition.foldl_take_succ State.step .init events hk
        rw [hnext, hevent] at hgone
        exact hgone (mem_step_sweep hreq hfive hlate)
  · intro h
    exact {
      length_le := fun k key =>
        (told_run (events.take k)).length_le (retries_lt_of_along _ (along_take h k)) key
      apart := fun k key => (told_run (events.take k)).apart key
      gives_up := by
        intro k hk now hevent req hreq last hfive hlast hnow
        have htells := (told_run (events.take k)).tells req hreq
        have hintime := (Transition.along_iff_forall_getElem _ _).mp h k hk
        rw [hevent] at hintime
        have hsent := hintime req hreq (htells.length_eq.symm.trans hfive)
        rw [htells.getLast_eq, Option.some.injEq] at hlast
        omega }

end

/-- A packet is appended at 0, and sweeps follow every two seconds: the fifth sweep
sends the sixth request. -/
theorem not_givesUp_sixRequests :
    let events : List (Event Unit) := [.append () 1 (Frame.bare (Vector.replicate ETH_ALEN 1)
      (Vector.replicate ETH_ALEN 2) 1) 0, .sweep 2, .sweep 4, .sweep 6, .sweep 8, .sweep 10]
    (events.map Event.now).Pairwise (· ≤ ·) ∧ ¬ GivesUpAfterFive events := by
  intro events
  refine ⟨by decide, fun h => ?_⟩
  exact absurd (h.length_le 6 ((), 1)) (by decide +kernel)

end Router

end NetworkLabs
