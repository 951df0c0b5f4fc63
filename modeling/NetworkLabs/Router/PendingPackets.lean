import Mathlib.Data.List.Forall2
import Mathlib.Data.List.Induction
import NetworkLabs.Router.ArpCache

/-!
# Packets that wait for an address

Everything that the cache knows or has emitted about packets is a list of
records: a packet is queued under a request, has been transmitted, or has been
answered by an ICMP message. A call turns each record into at most one other,
and an append adds one, so each packet has one record at any time.
-/

namespace NetworkLabs

namespace Router

variable {ι : Type*}

/-! ## Records -/

/-- What has become of a packet. -/
inductive Record (ι : Type*) where
  | queued (iface : ι) (ip4 : UInt32) (packet : Packet)
  | transmitted (iface : ι) (packet : Packet)
  | answered (packet : Packet) (type code : UInt8)

namespace Record

def serial : Record ι → ℕ
  | queued _ _ packet => packet.serial
  | transmitted _ packet => packet.serial
  | answered packet _ _ => packet.serial

/-- The address of the packet is known. -/
def deliver (ip4 : UInt32) (mac : Mac) : Record ι → Record ι
  | queued iface ip packet =>
      if ip = ip4 then transmitted iface (packet.setDhost mac) else queued iface ip packet
  | r => r

/-- The request of the packet is given up. -/
def giveUp : Record ι → Record ι
  | queued _ _ packet => answered packet ICMP_DEST_UNREACH ICMP_HOST_UNREACH
  | r => r

@[simp] theorem serial_deliver (ip4 : UInt32) (mac : Mac) (r : Record ι) :
    (r.deliver ip4 mac).serial = r.serial := by
  cases r with
  | queued iface ip packet =>
      rw [deliver]
      split_ifs
      · rfl
      · rfl
  | transmitted iface packet => rfl
  | answered packet type code => rfl

@[simp] theorem serial_giveUp (r : Record ι) : r.giveUp.serial = r.serial := by
  cases r <;> rfl

end Record

def Emission.record : Emission ι → Option (Record ι)
  | transmit iface packet => some (.transmitted iface packet)
  | arpRequest _ _ => none
  | icmp packet type code => some (.answered packet type code)

def ArpReq.records (req : ArpReq ι) : List (Record ι) :=
  req.cachedPackets.map (.queued req.iface req.ip4)

def ArpCache.records (cache : ArpCache ι) : List (Record ι) := cache.reqList.flatMap ArpReq.records

def State.records (s : State ι) : List (Record ι) :=
  s.cache.records ++ s.emitted.filterMap Emission.record

/-- The records of one packet. -/
def State.recordsOf (s : State ι) (serial : ℕ) : List (Record ι) :=
  s.records.filter fun r => r.serial == serial

/-! ## One call -/

/-- What a call makes of a record. -/
def Evolves : Event ι → Record ι → Record ι → Prop
  | .append _ _ _ _, r, r' => r' = r
  | .insert ip4 mac _ _, r, r' => r' = r.deliver ip4 mac
  | .sweep _, r, r' => r' = r ∨ r' = r.giveUp

theorem Evolves.serial_eq {e : Event ι} {r r' : Record ι} (h : Evolves e r r') :
    r'.serial = r.serial := by
  cases e with
  | append iface ip4 frame now => exact congrArg Record.serial h
  | insert ip4 mac now later => exact (congrArg Record.serial h).trans (r.serial_deliver ip4 mac)
  | sweep now =>
      rcases h with h | h
      · exact congrArg Record.serial h
      · exact (congrArg Record.serial h).trans r.serial_giveUp

/-- What has been emitted stays as it is. -/
theorem evolves_record (e : Event ι) {em : Emission ι} {r : Record ι} (h : em.record = some r) :
    Evolves e r r := by
  cases em with
  | arpRequest iface ip => exact absurd h (by simp [Emission.record])
  | transmit iface packet =>
      obtain rfl := Option.some.inj h
      cases e with
      | append iface ip4 frame now => rfl
      | insert ip4 mac now later => rfl
      | sweep now => exact Or.inl rfl
  | icmp packet type code =>
      obtain rfl := Option.some.inj h
      cases e with
      | append iface ip4 frame now => rfl
      | insert ip4 mac now later => rfl
      | sweep now => exact Or.inl rfl

/-- The records that a round of a loop leaves of its request. -/
def roundRecords (round : ArpReq ι → Option (ArpReq ι) × List (Emission ι)) (req : ArpReq ι) :
    List (Record ι) :=
  ((round req).1.toList.flatMap ArpReq.records) ++ (round req).2.filterMap Emission.record

theorem records_eachReq (round : ArpReq ι → Option (ArpReq ι) × List (Emission ι))
    (reqs : List (ArpReq ι)) :
    ((eachReq round reqs).1.flatMap ArpReq.records ++
      (eachReq round reqs).2.filterMap Emission.record).Perm
      (reqs.flatMap (roundRecords round)) := by
  have hkept : (eachReq round reqs).1.flatMap ArpReq.records =
      reqs.flatMap fun req => (round req).1.toList.flatMap ArpReq.records := by
    rw [eachReq, List.filterMap_eq_flatMap_toList, List.flatMap_assoc]
  have hsent : (eachReq round reqs).2.filterMap Emission.record =
      reqs.flatMap fun req => (round req).2.filterMap Emission.record := by
    rw [eachReq, List.filterMap_flatMap]
  rw [hkept, hsent]
  exact List.flatMap_append_perm reqs _ _

/-- If each round turns the records of its request into others, then so does the
loop. -/
theorem forall₂_eachReq {R : Record ι → Record ι → Prop}
    (round : ArpReq ι → Option (ArpReq ι) × List (Emission ι)) (reqs : List (ArpReq ι))
    (h : ∀ req, List.Forall₂ R req.records (roundRecords round req)) :
    List.Forall₂ R (reqs.flatMap ArpReq.records) (reqs.flatMap (roundRecords round)) := by
  induction reqs with
  | nil => exact List.Forall₂.nil
  | cons req reqs ih =>
      rw [List.flatMap_cons, List.flatMap_cons]
      exact List.rel_append (h req) ih

theorem forall₂_flushReq (ip4 : UInt32) (mac : Mac) (now later : ℤ) (req : ArpReq ι) :
    List.Forall₂ (Evolves (.insert ip4 mac now later)) req.records
      (roundRecords (flushReq ip4 mac) req) := by
  rw [roundRecords, flushReq]
  split_ifs with h
  · have hsent : (none : Option (ArpReq ι)).toList.flatMap ArpReq.records ++
        (req.cachedPackets.map fun packet =>
          Emission.transmit req.iface (packet.setDhost mac)).filterMap Emission.record =
        req.records.map (Record.deliver ip4 mac) := by
      rw [Option.toList_none, List.flatMap_nil, List.nil_append, List.filterMap_map,
        ArpReq.records, List.map_map, List.filterMap_eq_map_iff_forall_eq_some]
      intro packet _
      exact congrArg some (if_pos h).symm
    rw [hsent, List.forall₂_map_right_iff, List.forall₂_same]
    exact fun _ _ => rfl
  · rw [Option.toList_some, List.flatMap_singleton, List.filterMap_nil, List.append_nil,
      List.forall₂_same]
    intro r hr
    obtain ⟨packet, -, rfl⟩ := List.mem_map.mp hr
    exact (if_neg h).symm

theorem forall₂_sweepReq (now : ℤ) (req : ArpReq ι) :
    List.Forall₂ (Evolves (.sweep now)) req.records (roundRecords (sweepReq now) req) := by
  rw [roundRecords, sweepReq]
  split_ifs
  · have hgone : (none : Option (ArpReq ι)).toList.flatMap ArpReq.records ++
        (req.cachedPackets.map fun packet => Emission.icmp packet ICMP_DEST_UNREACH
          ICMP_HOST_UNREACH).filterMap Emission.record =
        req.records.map Record.giveUp := by
      rw [Option.toList_none, List.flatMap_nil, List.nil_append, List.filterMap_map,
        ArpReq.records, List.map_map, List.filterMap_eq_map_iff_forall_eq_some]
      exact fun packet _ => rfl
    rw [hgone, List.forall₂_map_right_iff, List.forall₂_same]
    exact fun _ _ => Or.inr rfl
  · rw [Option.toList_some, List.flatMap_singleton]
    change List.Forall₂ _ req.records (req.records ++ [])
    rw [List.append_nil, List.forall₂_same]
    exact fun _ _ => Or.inl rfl
  · rw [Option.toList_some, List.flatMap_singleton, List.filterMap_nil, List.append_nil,
      List.forall₂_same]
    exact fun _ _ => Or.inl rfl

/-- The packet is added at the end. -/
def ArpReq.push (req : ArpReq ι) (packet : Packet) : ArpReq ι :=
  { req with cachedPackets := req.cachedPackets ++ [packet] }

theorem ArpReq.records_push (req : ArpReq ι) (packet : Packet) :
    (req.push packet).records = req.records ++ [.queued req.iface req.ip4 packet] := by
  rw [ArpReq.records, ArpReq.push, List.map_append, List.map_singleton, ArpReq.records]

/-! ## The fate of a packet -/

/-- The address of the first insertion for `ip4`. -/
def firstInsert (ip4 : UInt32) (events : List (Event ι)) : Option Mac :=
  events.findSome? fun e =>
    match e with
    | .insert ip mac _ _ => if ip = ip4 then some mac else none
    | _ => none

/-- What the record of a packet says: it waits for an address that has not been
inserted yet, or was sent to the address inserted first, or was given up. -/
def Accounts (iface : ι) (ip4 : UInt32) (packet : Packet) (later : List (Event ι)) :
    Record ι → Prop
  | .queued iface' ip p => iface' = iface ∧ ip = ip4 ∧ p = packet ∧ firstInsert ip4 later = none
  | .transmitted iface' p =>
      iface' = iface ∧ ∃ mac, firstInsert ip4 later = some mac ∧ p = packet.setDhost mac
  | .answered p type code => p = packet ∧ type = ICMP_DEST_UNREACH ∧ code = ICMP_HOST_UNREACH

theorem firstInsert_concat (ip4 : UInt32) (later : List (Event ι)) (e : Event ι) :
    firstInsert ip4 (later ++ [e]) = (firstInsert ip4 later).or (firstInsert ip4 [e]) := by
  rw [firstInsert, List.findSome?_append, firstInsert, firstInsert]

theorem Accounts.later {iface : ι} {ip4 : UInt32} {packet : Packet} {later : List (Event ι)}
    {r : Record ι} (h : Accounts iface ip4 packet later r) (hr : ∀ i ip p, r ≠ .queued i ip p)
    (e : Event ι) : Accounts iface ip4 packet (later ++ [e]) r := by
  cases r with
  | queued i ip p => exact absurd rfl (hr i ip p)
  | answered p type code => exact h
  | transmitted i p =>
      obtain ⟨hi, mac, hfirst, hp⟩ := h
      refine ⟨hi, mac, ?_, hp⟩
      rw [firstInsert_concat, hfirst, Option.some_or]

theorem Accounts.queued_later {iface : ι} {ip4 : UInt32} {packet : Packet}
    {later : List (Event ι)} (hfirst : firstInsert ip4 later = none) {e : Event ι}
    (he : firstInsert ip4 [e] = none) :
    Accounts iface ip4 packet (later ++ [e]) (.queued iface ip4 packet) := by
  refine ⟨rfl, rfl, rfl, ?_⟩
  rw [firstInsert_concat, hfirst, he, Option.or_none]

/-- One call, seen from a packet that was appended before. -/
theorem Accounts.evolves {iface : ι} {ip4 : UInt32} {packet : Packet} {later : List (Event ι)}
    {r r' : Record ι} {e : Event ι} (h : Accounts iface ip4 packet later r)
    (hr : Evolves e r r') : Accounts iface ip4 packet (later ++ [e]) r' := by
  cases r with
  | transmitted i p =>
      obtain rfl : r' = .transmitted i p := by
        cases e with
        | append iface' ip frame now => exact hr
        | insert ip mac now later => exact hr
        | sweep now => exact hr.elim id id
      exact h.later (fun _ _ _ => by simp) e
  | answered p type code =>
      obtain rfl : r' = .answered p type code := by
        cases e with
        | append iface' ip frame now => exact hr
        | insert ip mac now later => exact hr
        | sweep now => exact hr.elim id id
      exact h.later (fun _ _ _ => by simp) e
  | queued i ip p =>
      obtain ⟨rfl, rfl, rfl, hfirst⟩ := h
      cases e with
      | append iface' ip' frame now =>
          obtain rfl : r' = .queued i ip p := hr
          exact queued_later hfirst rfl
      | insert ip' mac now later' =>
          change r' = if ip = ip' then _ else _ at hr
          by_cases hip : ip = ip'
          · rw [if_pos hip] at hr
            subst hr hip
            refine ⟨rfl, mac, ?_, rfl⟩
            rw [firstInsert_concat, hfirst, Option.none_or]
            simp [firstInsert]
          · rw [if_neg hip] at hr
            subst hr
            exact queued_later hfirst (by simp [firstInsert, Ne.symm hip])
      | sweep now =>
          rcases hr with rfl | rfl
          · exact queued_later hfirst rfl
          · exact ⟨rfl, rfl, rfl⟩

/-! ## Runs -/

section

variable [DecidableEq ι]

/-- The request that an append is looking for. -/
def waits (iface : ι) (ip4 : UInt32) (req : ArpReq ι) : Bool :=
  req.ip4 == ip4 && req.iface == iface

theorem waits_iff (iface : ι) (ip4 : UInt32) (req : ArpReq ι) :
    waits iface ip4 req = true ↔ req.iface = iface ∧ req.ip4 = ip4 := by
  rw [waits, Bool.and_eq_true, beq_iff_eq, beq_iff_eq, and_comm]

def newReq (iface : ι) (ip4 : UInt32) (now : ℤ) : ArpReq ι where
  iface := iface
  ip4 := ip4
  sent := now
  retries := 0
  cachedPackets := []

theorem reqList_appendPacket (cache : ArpCache ι) (iface : ι) (ip4 : UInt32) (packet : Packet)
    (now : ℤ) :
    (cache.appendPacket iface ip4 packet now).1.reqList =
      FirstMatch.upsert (waits iface ip4) (fun req => req.push packet) (newReq iface ip4 now)
        cache.reqList := rfl

theorem filterMap_appendPacket (cache : ArpCache ι) (iface : ι) (ip4 : UInt32) (packet : Packet)
    (now : ℤ) :
    (cache.appendPacket iface ip4 packet now).2.filterMap Emission.record = [] := by
  rw [ArpCache.appendPacket]
  split_ifs
  · rfl
  · rfl

/-- An append adds the record of its packet. -/
theorem records_upsert (iface : ι) (ip4 : UInt32) (packet : Packet) (now : ℤ)
    (reqs : List (ArpReq ι)) :
    ((FirstMatch.upsert (waits iface ip4) (fun req => req.push packet) (newReq iface ip4 now)
      reqs).flatMap ArpReq.records).Perm
      (.queued iface ip4 packet :: reqs.flatMap ArpReq.records) := by
  induction reqs with
  | nil => exact List.Perm.refl _
  | cons req reqs ih =>
      rw [FirstMatch.upsert]
      split_ifs with hwaits
      · obtain ⟨rfl, rfl⟩ := (waits_iff iface ip4 req).mp hwaits
        rw [List.flatMap_cons, List.flatMap_cons, ArpReq.records_push, List.append_assoc]
        exact List.perm_middle
      · rw [List.flatMap_cons, List.flatMap_cons]
        exact (ih.append_left _).trans List.perm_middle

/-- The record that a call adds. -/
def newRecords (s : State ι) : Event ι → List (Record ι)
  | .append iface ip4 frame _ => [.queued iface ip4 { serial := s.calls, frame := frame }]
  | _ => []

/-- A call turns the records into others, one by one, and adds its own. -/
theorem records_call (s : State ι) (e : Event ι) :
    ∃ l, List.Forall₂ (Evolves e) s.cache.records l ∧
      ((s.call e).1.records ++ (s.call e).2.filterMap Emission.record).Perm
        (newRecords s e ++ l) := by
  cases e with
  | append iface ip4 frame now =>
      refine ⟨s.cache.records, List.forall₂_same.mpr fun _ _ => rfl, ?_⟩
      rw [State.call, filterMap_appendPacket, List.append_nil, ArpCache.records,
        reqList_appendPacket]
      exact records_upsert iface ip4 _ now s.cache.reqList
  | insert ip4 mac now later =>
      exact ⟨_, forall₂_eachReq _ _ (forall₂_flushReq ip4 mac now later),
        records_eachReq (flushReq ip4 mac) s.cache.reqList⟩
  | sweep now =>
      exact ⟨_, forall₂_eachReq _ _ (forall₂_sweepReq now),
        records_eachReq (sweepReq now) s.cache.reqList⟩

theorem records_step (s : State ι) (e : Event ι) :
    ∃ l, List.Forall₂ (Evolves e) s.records l ∧ (s.step e).records.Perm (newRecords s e ++ l) := by
  obtain ⟨l, hforall, hperm⟩ := records_call s e
  refine ⟨l ++ s.emitted.filterMap Emission.record, List.rel_append hforall ?_, ?_⟩
  · rw [List.forall₂_same]
    intro r hr
    obtain ⟨em, -, hem⟩ := List.mem_filterMap.mp hr
    exact evolves_record e hem
  · rw [State.records, State.step, List.filterMap_append, ← List.append_assoc (newRecords s e)]
    refine List.Perm.trans ?_ (hperm.append_right _)
    rw [List.append_assoc]
    exact List.perm_append_comm.append_left _

/-- The records of one packet evolve by themselves. -/
theorem recordsOf_step (s : State ι) (e : Event ι) (serial : ℕ) :
    ∃ l, List.Forall₂ (Evolves e) (s.recordsOf serial) l ∧
      ((s.step e).recordsOf serial).Perm
        ((newRecords s e).filter (fun r => r.serial == serial) ++ l) := by
  obtain ⟨l, hforall, hperm⟩ := records_step s e
  refine ⟨l.filter fun r => r.serial == serial, ?_, ?_⟩
  · apply List.rel_filter (R := Evolves e)
    · intro r r' hr
      simp [hr.serial_eq]
    · exact hforall
  · rw [← List.filter_append]
    exact hperm.filter _

/-- The records of the packet with this number. -/
def Fate (events : List (Event ι)) (serial : ℕ) (records : List (Record ι)) : Prop :=
  match events[serial]? with
  | some (.append iface ip4 frame _) =>
      ∃ r, records = [r] ∧
        Accounts iface ip4 { serial := serial, frame := frame } (events.drop (serial + 1)) r
  | _ => records = []

theorem calls_run (events : List (Event ι)) : (State.run events).calls = events.length := by
  induction events using List.reverseRecOn with
  | nil => rfl
  | append_singleton events e ih =>
      rw [State.run, List.foldl_append, List.length_append]
      exact congrArg (· + 1) ih

theorem run_concat (events : List (Event ι)) (e : Event ι) :
    State.run (events ++ [e]) = (State.run events).step e := by
  rw [State.run, List.foldl_append]
  rfl

/-- The record that a call adds has the number of the call. -/
theorem newRecords_of_ne (events : List (Event ι)) (e : Event ι) {serial : ℕ}
    (h : serial ≠ events.length) :
    (newRecords (State.run events) e).filter (fun r => r.serial == serial) = [] := by
  rw [List.filter_eq_nil_iff]
  intro r hr
  cases e with
  | append iface ip4 frame now =>
      obtain rfl := List.mem_singleton.mp hr
      change ¬ ((State.run events).calls == serial) = true
      rw [calls_run, beq_iff_eq]
      exact h.symm
  | insert ip4 mac now later => exact absurd hr List.not_mem_nil
  | sweep now => exact absurd hr List.not_mem_nil

/-- The fate of a packet appended before the last call. -/
theorem Fate.step {events : List (Event ι)} {serial : ℕ} (e : Event ι)
    (hlt : serial < events.length) (h : Fate events serial ((State.run events).recordsOf serial)) :
    Fate (events ++ [e]) serial (((State.run events).step e).recordsOf serial) := by
  obtain ⟨l, hforall, hperm⟩ := recordsOf_step (State.run events) e serial
  rw [newRecords_of_ne events e hlt.ne, List.nil_append] at hperm
  rw [Fate, List.getElem?_append_left hlt, List.drop_append_of_le_length hlt]
  rw [Fate] at h
  cases hevent : events[serial]? with
  | none => exact absurd hlt (by simpa using hevent)
  | some event =>
      rw [hevent] at h
      cases event with
      | append iface ip4 frame now =>
          obtain ⟨r, hrecords, haccounts⟩ := h
          rw [hrecords] at hforall
          obtain ⟨r', hr, rfl⟩ : ∃ r', Evolves e r r' ∧ l = [r'] := by
            cases hforall with
            | cons hr hnil =>
                cases hnil
                exact ⟨_, hr, rfl⟩
          exact ⟨r', List.perm_singleton.mp hperm, haccounts.evolves hr⟩
      | insert ip4 mac now later =>
          rw [h, List.forall₂_nil_left_iff] at hforall
          rw [hforall] at hperm
          exact List.perm_nil.mp hperm
      | sweep now =>
          rw [h, List.forall₂_nil_left_iff] at hforall
          rw [hforall] at hperm
          exact List.perm_nil.mp hperm

/-- The fate of the packet that the last call has appended. -/
theorem Fate.new (events : List (Event ι)) (e : Event ι)
    (h : (State.run events).recordsOf events.length = []) :
    Fate (events ++ [e]) events.length (((State.run events).step e).recordsOf events.length) := by
  obtain ⟨l, hforall, hperm⟩ := recordsOf_step (State.run events) e events.length
  rw [h, List.forall₂_nil_left_iff] at hforall
  rw [hforall, List.append_nil] at hperm
  have hdrop : (events ++ [e]).drop (events.length + 1) = [] := by simp
  rw [Fate, List.getElem?_concat_length, hdrop]
  cases e with
  | append iface ip4 frame now =>
      have hself : (newRecords (State.run events) (.append iface ip4 frame now)).filter
          (fun r => r.serial == events.length) =
          [.queued iface ip4 { serial := events.length, frame := frame }] := by
        simp [newRecords, Record.serial, calls_run]
      rw [hself] at hperm
      exact ⟨_, List.perm_singleton.mp hperm, rfl, rfl, rfl, rfl⟩
  | insert ip4 mac now later => exact List.perm_nil.mp hperm
  | sweep now => exact List.perm_nil.mp hperm

/-- Every packet has one record, which says what the calls since then have done;
what is not a packet has none. -/
theorem fate_run (events : List (Event ι)) (serial : ℕ) :
    Fate events serial ((State.run events).recordsOf serial) := by
  induction events using List.reverseRecOn generalizing serial with
  | nil => rfl
  | append_singleton events e ih =>
      rw [run_concat]
      have hbeyond : ∀ n, events.length ≤ n → (State.run events).recordsOf n = [] := by
        intro n hn
        have hfate := ih n
        rw [Fate, List.getElem?_eq_none hn] at hfate
        exact hfate
      rcases lt_trichotomy serial events.length with hlt | rfl | hgt
      · exact (ih serial).step e hlt
      · exact Fate.new events e (hbeyond _ le_rfl)
      · obtain ⟨l, hforall, hperm⟩ := recordsOf_step (State.run events) e serial
        rw [hbeyond serial hgt.le, List.forall₂_nil_left_iff] at hforall
        rw [hforall, newRecords_of_ne events e hgt.ne', List.append_nil] at hperm
        have hlength : (events ++ [e]).length ≤ serial := by
          rw [List.length_append]
          exact hgt
        rw [Fate, List.getElem?_eq_none hlength]
        exact List.perm_nil.mp hperm

end

end Router

end NetworkLabs
