import NetworkLabs.Library.Transition
import NetworkLabs.Switching.Table

/-!
# What the switch has learned

In every reachable table an address occurs once, and only in its own bucket, so
the table is a map from addresses to entries: learning adds the entry of an
address that has none, and a sweep takes out the entries that are aged.

An entry is never rewritten. The interface in it is the one that was used last
exactly as long as no host shows up behind another one while its entry lives.
-/

namespace NetworkLabs

namespace Switching

variable {ι : Type*}

/-! ## The table as a map -/

namespace MacPortMap

/-- No address occurs twice in a bucket. -/
def Distinct (map : MacPortMap ι) : Prop :=
  ∀ i, ((map.hashTable i).map MacPortEntry.mac).Nodup

/-- The scan over all buckets finds what a scan of the bucket of the address
finds. -/
theorem findEntry_eq (map : MacPortMap ι) (mac : Mac) :
    map.findEntry mac = (map.hashTable (bucket mac)).find? (fun e => e.mac == mac) := by
  have hother : ∀ i, i ≠ bucket mac →
      (map.hashTable i).find? (fun e => e.mac == mac) = none := by
    intro i hi
    rw [List.find?_eq_none]
    intro e he hmac
    have hplaced := map.placed i e he
    rw [beq_iff_eq.mp hmac] at hplaced
    exact hi hplaced.symm
  rw [findEntry, List.find?_flatMap]
  cases hfind : (map.hashTable (bucket mac)).find? (fun e => e.mac == mac) with
  | none =>
      rw [List.findSome?_eq_none_iff]
      intro i _
      by_cases hi : i = bucket mac
      · rw [hi, hfind]
      · exact hother i hi
  | some e =>
      rw [List.findSome?_eq_some_iff]
      obtain ⟨before, after, hsplit⟩ := List.append_of_mem (List.mem_finRange (bucket mac))
      refine ⟨before, bucket mac, after, hsplit, hfind, ?_⟩
      intro i hi
      apply hother
      intro heq
      have hnodup := List.nodup_finRange HASH_8BITS
      rw [hsplit, List.nodup_append] at hnodup
      exact hnodup.2.2 i hi (bucket mac) List.mem_cons_self heq

@[simp] theorem findEntry_init (mac : Mac) : (init : MacPortMap ι).findEntry mac = none := by
  rw [findEntry_eq]
  rfl

theorem distinct_init : (init : MacPortMap ι).Distinct := fun _ => List.nodup_nil

theorem hashTable_insertMacPort (map : MacPortMap ι) (mac : Mac) (iface : ι) (now : ℤ) :
    (map.insertMacPort mac iface now).hashTable = Function.update map.hashTable (bucket mac)
      (map.hashTable (bucket mac) ++ [{ mac := mac, iface := iface, visited := now }]) := rfl

/-- Learning adds one entry to the map. -/
theorem findEntry_insertMacPort (map : MacPortMap ι) (mac : Mac) (iface : ι) (now : ℤ)
    (hnew : map.findEntry mac = none) :
    (map.insertMacPort mac iface now).findEntry =
      Function.update map.findEntry mac (some { mac := mac, iface := iface, visited := now }) := by
  funext m
  rw [findEntry_eq, hashTable_insertMacPort]
  by_cases hm : m = mac
  · subst hm
    rw [findEntry_eq] at hnew
    rw [Function.update_self, Function.update_self, List.find?_append, hnew, Option.none_or]
    exact List.find?_cons_of_pos (beq_self_eq_true m)
  · rw [Function.update_of_ne hm, findEntry_eq]
    by_cases hbucket : bucket m = bucket mac
    · have hother : ¬ (mac == m) = true := fun h => hm (beq_iff_eq.mp h).symm
      rw [hbucket, Function.update_self, List.find?_append, List.find?_singleton, if_neg hother,
        Option.or_none]
    · rw [Function.update_of_ne hbucket]

theorem distinct_insertMacPort (map : MacPortMap ι) (mac : Mac) (iface : ι) (now : ℤ)
    (hd : map.Distinct) (hnew : map.findEntry mac = none) :
    (map.insertMacPort mac iface now).Distinct := by
  intro i
  rw [hashTable_insertMacPort]
  by_cases hi : i = bucket mac
  · subst hi
    rw [findEntry_eq, List.find?_eq_none] at hnew
    rw [Function.update_self, List.map_append, List.nodup_append]
    refine ⟨hd _, List.nodup_singleton _, ?_⟩
    intro m hm m' hm'
    obtain ⟨e, he, rfl⟩ := List.mem_map.mp hm
    rw [List.map_singleton, List.mem_singleton] at hm'
    rintro rfl
    exact hnew e he (beq_iff_eq.mpr hm')
  · rw [Function.update_of_ne hi]
    exact hd i

theorem hashTable_sweep (map : MacPortMap ι) (now : ℤ) (i : Fin HASH_8BITS) :
    (map.sweepAgedMacPortEntry now).1.hashTable i =
      (map.hashTable i).filter (fun e => !isAged now e) := by
  change (sweepBucket now (map.hashTable i)).1 = _
  rw [sweepBucket_eq]

/-- A sweep keeps the entries of the map that are not aged. -/
theorem findEntry_sweep (map : MacPortMap ι) (now : ℤ) (hd : map.Distinct) (mac : Mac) :
    (map.sweepAgedMacPortEntry now).1.findEntry mac =
      (map.findEntry mac).filter (fun e => !isAged now e) := by
  rw [findEntry_eq, findEntry_eq, hashTable_sweep]
  exact FirstMatch.find?_filter_of_nodup _ mac (hd _)

theorem distinct_sweep (map : MacPortMap ι) (now : ℤ) (hd : map.Distinct) :
    (map.sweepAgedMacPortEntry now).1.Distinct := by
  intro i
  rw [hashTable_sweep]
  exact (hd i).sublist (List.Sublist.map _ List.filter_sublist)

theorem lookupPort_eq_none_iff (map : MacPortMap ι) (mac : Mac) :
    map.lookupPort mac = none ↔ map.findEntry mac = none := by
  rw [lookupPort, Option.map_eq_none_iff]

/-- A port that is known after a sweep was known before. -/
theorem lookupPort_of_sweep (map : MacPortMap ι) (now : ℤ) (hd : map.Distinct) {mac : Mac} {q : ι}
    (h : (map.sweepAgedMacPortEntry now).1.lookupPort mac = some q) :
    map.lookupPort mac = some q := by
  rw [lookupPort, findEntry_sweep map now hd, Option.map_eq_some_iff] at h
  obtain ⟨e, hfilter, hiface⟩ := h
  rw [Option.filter_eq_some_iff] at hfilter
  rw [lookupPort, hfilter.1, Option.map_some, hiface]

end MacPortMap

/-- The table after a frame: the source is learned if it is not known. -/
theorem handlePacket_fst_of_known (ustack : Ustack ι) (map : MacPortMap ι) (iface : ι)
    (frame : Frame) (now : ℤ) {q : ι} (h : map.lookupPort frame.etherShost = some q) :
    (handlePacket ustack map iface frame now).1 = map := by
  rw [handlePacket, h]

theorem handlePacket_fst_of_unknown (ustack : Ustack ι) (map : MacPortMap ι) (iface : ι)
    (frame : Frame) (now : ℤ) (h : map.lookupPort frame.etherShost = none) :
    (handlePacket ustack map iface frame now).1 =
      map.insertMacPort frame.etherShost iface now := by
  rw [handlePacket, h]

theorem distinct_step (ustack : Ustack ι) (map : MacPortMap ι) (e : Event ι) (hd : map.Distinct) :
    (step ustack map e).Distinct := by
  cases e with
  | sweep now => exact map.distinct_sweep now hd
  | frame iface frame now =>
      rw [step]
      cases hlookup : map.lookupPort frame.etherShost with
      | some q =>
          rw [handlePacket_fst_of_known ustack map iface frame now hlookup]
          exact hd
      | none =>
          rw [handlePacket_fst_of_unknown ustack map iface frame now hlookup]
          exact map.distinct_insertMacPort _ iface now hd
            ((map.lookupPort_eq_none_iff _).mp hlookup)

/-! ## The last frame of a host -/

/-- The interface on which each host was heard last. -/
def noteIngress (last : Mac → Option ι) : Event ι → Mac → Option ι
  | .frame iface frame _ => Function.update last frame.etherShost (some iface)
  | .sweep _ => last

def lastIngress (events : List (Event ι)) : Mac → Option ι :=
  events.foldl noteIngress (fun _ => none)

/-- A frame does not come from another interface than the one in the entry of
its source. -/
def SourceStays (map : MacPortMap ι) : Event ι → Prop
  | .frame iface frame _ => ∀ q, map.lookupPort frame.etherShost = some q → q = iface
  | .sweep _ => True

/-- What the table knows is what was heard last. -/
def Current (map : MacPortMap ι) (last : Mac → Option ι) : Prop :=
  ∀ mac q, map.lookupPort mac = some q → last mac = some q

theorem current_init : Current .init (lastIngress ([] : List (Event ι))) := by
  intro mac q h
  rw [MacPortMap.lookupPort, MacPortMap.findEntry_init] at h
  exact h

theorem current_sweep (map : MacPortMap ι) (last : Mac → Option ι) (now : ℤ) (hd : map.Distinct)
    (h : Current map last) : Current (map.sweepAgedMacPortEntry now).1 last :=
  fun mac q hq => h mac q (map.lookupPort_of_sweep now hd hq)

/-- A frame from a host that is not known. -/
theorem current_learn (map : MacPortMap ι) (last : Mac → Option ι) (mac : Mac) (iface : ι)
    (now : ℤ) (hnew : map.findEntry mac = none) (h : Current map last) :
    Current (map.insertMacPort mac iface now) (Function.update last mac (some iface)) := by
  intro m q hq
  rw [MacPortMap.lookupPort, map.findEntry_insertMacPort mac iface now hnew] at hq
  by_cases hm : m = mac
  · subst hm
    rw [Function.update_self, Option.map_some] at hq
    rw [Function.update_self]
    exact hq
  · rw [Function.update_of_ne hm] at hq
    rw [Function.update_of_ne hm]
    exact h m q hq

/-- A frame from a host that is known. -/
theorem current_known_iff (map : MacPortMap ι) (last : Mac → Option ι) (mac : Mac) (iface : ι)
    {q : ι} (hq : map.lookupPort mac = some q) (h : Current map last) :
    Current map (Function.update last mac (some iface)) ↔ q = iface := by
  constructor
  · intro hcurrent
    have hlast := hcurrent mac q hq
    rw [Function.update_self] at hlast
    exact (Option.some.inj hlast).symm
  · rintro rfl m r hr
    by_cases hm : m = mac
    · subst hm
      rw [Function.update_self, ← hq, hr]
    · rw [Function.update_of_ne hm]
      exact h m r hr

/-- One step keeps the table current exactly if the source has not moved. -/
theorem current_step_iff (ustack : Ustack ι) (map : MacPortMap ι) (last : Mac → Option ι)
    (e : Event ι) (hd : map.Distinct) (h : Current map last) :
    Current (step ustack map e) (noteIngress last e) ↔ SourceStays map e := by
  cases e with
  | sweep now => exact iff_of_true (current_sweep map last now hd h) trivial
  | frame iface frame now =>
      rw [step, noteIngress, SourceStays]
      cases hlookup : map.lookupPort frame.etherShost with
      | none =>
          rw [handlePacket_fst_of_unknown ustack map iface frame now hlookup]
          have hnew := (map.lookupPort_eq_none_iff _).mp hlookup
          exact iff_of_true (current_learn map last _ iface now hnew h) (by simp)
      | some q =>
          rw [handlePacket_fst_of_known ustack map iface frame now hlookup,
            current_known_iff map last _ iface hlookup h]
          simp

theorem invariant_step_iff (ustack : Ustack ι) (map : MacPortMap ι) (last : Mac → Option ι)
    (e : Event ι) (h : map.Distinct ∧ Current map last) :
    (step ustack map e).Distinct ∧ Current (step ustack map e) (noteIngress last e) ↔
      SourceStays map e := by
  rw [current_step_iff ustack map last e h.1 h.2]
  exact and_iff_right (distinct_step ustack map e h.1)

/-- In every state of a run the learned ports are those of the last frames,
exactly if every frame comes from the interface in the entry of its source. -/
theorem learnedPorts_current_iff (ustack : Ustack ι) (events : List (Event ι)) :
    (∀ k mac q, (run ustack .init (events.take k)).lookupPort mac = some q →
        lastIngress (events.take k) mac = some q) ↔
      Transition.Along (step ustack) SourceStays .init events := by
  have hinit : (MacPortMap.init : MacPortMap ι).Distinct ∧
      Current MacPortMap.init (lastIngress ([] : List (Event ι))) :=
    ⟨MacPortMap.distinct_init, current_init⟩
  rw [← Transition.forall_take_simulation_iff_along _
    (fun map last e h => invariant_step_iff ustack map last e h) _ _ events hinit]
  constructor
  · intro h k
    exact ⟨Transition.foldl_invariant MacPortMap.Distinct (distinct_step ustack) _ _
      MacPortMap.distinct_init, h k⟩
  · exact fun h k => (h k).2

/-- A frame between the hosts with these numbers. -/
def hostFrame (src dst : UInt8) : Frame where
  etherDhost := Vector.replicate ETH_ALEN dst
  etherShost := Vector.replicate ETH_ALEN src
  rest := []

/-- Two frames of one host, which moves in between. -/
theorem learnedPorts_not_current :
    ¬ ∀ (ustack : Ustack Bool) (events : List (Event Bool)) (mac : Mac) (q : Bool),
      (run ustack .init events).lookupPort mac = some q → lastIngress events mac = some q := by
  intro h
  let host : Mac := Vector.replicate ETH_ALEN 1
  let frame : Frame := { etherDhost := host, etherShost := host, rest := [] }
  let ustack : Ustack Bool := {
    ifaceList := [false, true]
    index := fun iface => if iface then 1 else 0 }
  have hmoved := h ustack [.frame false frame 0, .frame true frame 1] host false (by decide +kernel)
  exact absurd hmoved (by decide +kernel)

end Switching

end NetworkLabs
