import NetworkLabs.Library.MachineInt
import NetworkLabs.Switching.ForwardingSet

/-!
# How long an entry lives

`visited` is set when an entry is created, and never again. So a sweep measures the
time since a host has been learned, and not the time since it was heard. Both agree
on an entry unless its host was learned too long ago and has been heard since.

The age is converted to an `int`, which wraps after 68 years.
-/

namespace NetworkLabs

namespace Switching

variable {ι : Type*}

/-- The clock as an event reads it. -/
def Event.now : Event ι → ℤ
  | frame _ _ now => now
  | sweep now => now

/-- The time at which each host was heard last. -/
def noteHeard (heard : Mac → Option ℤ) : Event ι → Mac → Option ℤ
  | .frame _ frame now => Function.update heard frame.etherShost (some now)
  | .sweep _ => heard

def lastHeard (events : List (Event ι)) : Mac → Option ℤ := events.foldl noteHeard fun _ => none

namespace MacPortMap

/-- The number of entries in the table. -/
def size (map : MacPortMap ι) : ℕ :=
  ((List.finRange HASH_8BITS).map fun i => (map.hashTable i).length).sum

end MacPortMap

/-- What a sweep is meant to do: the entries of the hosts that have not been heard for
too long are removed, and their number is returned. -/
structure Ages (map : MacPortMap ι) (heard : Mac → Option ℤ) (now : ℤ) : Prop where
  removes_iff : ∀ mac e, map.findEntry mac = some e → ∃ time, heard mac = some time ∧
    ((map.sweepAgedMacPortEntry now).1.findEntry mac = none ↔ MAC_PORT_TIMEOUT < now - time)
  count_eq : (map.sweepAgedMacPortEntry now).2 + (map.sweepAgedMacPortEntry now).1.size = map.size

/-- An entry that was created too long ago is that of a host that has not been heard for
too long. After 68 years, what is compared is what is left of the age in an `int`. -/
def AgesAlike (map : MacPortMap ι) (heard : Mac → Option ℤ) (now : ℤ) : Prop :=
  ∀ mac e time, map.findEntry mac = some e → heard mac = some time →
    (now - e.visited < 2 ^ 31 →
      now - e.visited ≤ MAC_PORT_TIMEOUT ∨ MAC_PORT_TIMEOUT < now - time) ∧
    (2 ^ 31 ≤ now - e.visited →
      (MAC_PORT_TIMEOUT < (now - e.visited).bmod (2 ^ 32) ↔ MAC_PORT_TIMEOUT < now - time))

/-! ## One sweep -/

section

variable {map : MacPortMap ι} {heard : Mac → Option ℤ} {now : ℤ}

theorem isAged_iff (now : ℤ) (e : MacPortEntry ι) :
    isAged now e = true ↔ MAC_PORT_TIMEOUT < (now - e.visited).bmod (2 ^ 32) := by
  rw [isAged, decide_eq_true_eq, Int32.toInt_ofInt]
  rfl

/-- The number that a sweep returns is that of the entries it removes. -/
theorem sweep_add_size (map : MacPortMap ι) (now : ℤ) :
    (map.sweepAgedMacPortEntry now).2 + (map.sweepAgedMacPortEntry now).1.size = map.size := by
  have hbucket : ∀ i, (sweepBucket now (map.hashTable i)).2 +
      (sweepBucket now (map.hashTable i)).1.length = (map.hashTable i).length := by
    intro i
    have hsplit := (map.hashTable i).length_eq_countP_add_countP (isAged now)
    rw [sweepBucket_eq]
    simpa [List.countP_eq_length_filter] using hsplit.symm
  change ((List.finRange HASH_8BITS).map fun i => (sweepBucket now (map.hashTable i)).2).sum +
    ((List.finRange HASH_8BITS).map fun i => (sweepBucket now (map.hashTable i)).1.length).sum = _
  rw [← List.sum_map_add, MacPortMap.size]
  simp only [hbucket]

theorem findEntry_sweep_eq_none_iff (hd : map.Distinct) {mac : Mac} {e : MacPortEntry ι}
    (he : map.findEntry mac = some e) (now : ℤ) :
    (map.sweepAgedMacPortEntry now).1.findEntry mac = none ↔ isAged now e = true := by
  rw [map.findEntry_sweep now hd, he, Option.filter_some]
  cases isAged now e with
  | true => simp
  | false => simp

/-- A sweep is right exactly if the time since a host was learned and the time since it
was heard agree on every entry. -/
theorem ages_iff (hd : map.Distinct) (hheard : ∀ mac e, map.findEntry mac = some e →
      ∃ time, heard mac = some time ∧ e.visited ≤ time ∧ time ≤ now) :
    Ages map heard now ↔ AgesAlike map heard now := by
  have hiff : ∀ mac e time, map.findEntry mac = some e → heard mac = some time →
      (((map.sweepAgedMacPortEntry now).1.findEntry mac = none ↔ MAC_PORT_TIMEOUT < now - time) ↔
        (now - e.visited < 2 ^ 31 →
          now - e.visited ≤ MAC_PORT_TIMEOUT ∨ MAC_PORT_TIMEOUT < now - time) ∧
        (2 ^ 31 ≤ now - e.visited →
          (MAC_PORT_TIMEOUT < (now - e.visited).bmod (2 ^ 32) ↔
            MAC_PORT_TIMEOUT < now - time))) := by
    intro mac e time he htime
    obtain ⟨time', htime', hvisited, hnow⟩ := hheard mac e he
    obtain rfl := Option.some.inj (htime.symm.trans htime')
    rw [findEntry_sweep_eq_none_iff hd he, isAged_iff]
    rcases lt_or_ge (now - e.visited) (2 ^ 31) with hshort | hlong
    · rw [Int.bmod_eq_of_le (by omega) (by omega)]
      omega
    · rw [and_iff_right (fun h => absurd h (not_lt.mpr hlong)), forall_prop_of_true hlong]
  constructor
  · intro h mac e time he htime
    obtain ⟨time', htime', hremoves⟩ := h.removes_iff mac e he
    obtain rfl := Option.some.inj (htime.symm.trans htime')
    exact (hiff mac e time he htime).mp hremoves
  · intro h
    refine ⟨fun mac e he => ?_, sweep_add_size map now⟩
    obtain ⟨time, htime, -⟩ := hheard mac e he
    exact ⟨time, htime, (hiff mac e time he htime).mpr (h mac e time he htime)⟩

end

/-! ## Runs -/

section

variable (ustack : Ustack ι) {events : List (Event ι)}

theorem distinct_run (events : List (Event ι)) : (run ustack .init events).Distinct :=
  Transition.foldl_invariant MacPortMap.Distinct (distinct_step ustack) .init events
    MacPortMap.distinct_init

/-- After a frame, an entry is an old one, or the new one of its source. -/
theorem findEntry_handlePacket {map : MacPortMap ι} {iface : ι} {frame : Frame} {now : ℤ}
    {mac : Mac} {e : MacPortEntry ι}
    (h : (handlePacket ustack map iface frame now).1.findEntry mac = some e) :
    map.findEntry mac = some e ∨ mac = frame.etherShost ∧ e.visited = now := by
  cases hlookup : map.lookupPort frame.etherShost with
  | some q =>
      rw [handlePacket_fst_of_known ustack map iface frame now hlookup] at h
      exact Or.inl h
  | none =>
      rw [handlePacket_fst_of_unknown ustack map iface frame now hlookup,
        map.findEntry_insertMacPort _ iface now ((map.lookupPort_eq_none_iff _).mp hlookup)] at h
      by_cases hmac : mac = frame.etherShost
      · rw [hmac, Function.update_self, Option.some.injEq] at h
        exact Or.inr ⟨hmac, h ▸ rfl⟩
      · rw [Function.update_of_ne hmac] at h
        exact Or.inl h

/-- Whatever is in the table was heard at some time, and not before it was learned. -/
theorem exists_lastHeard (hclock : (events.map Event.now).Pairwise (· ≤ ·)) {mac : Mac}
    {e : MacPortEntry ι} (he : (run ustack .init events).findEntry mac = some e) :
    ∃ time, lastHeard events mac = some time ∧ e.visited ≤ time ∧
      ∃ ev ∈ events, time = ev.now := by
  induction events using List.reverseRecOn generalizing mac e with
  | nil => exact absurd he (by simp [run])
  | append_singleton events ev ih =>
      rw [List.map_append, List.pairwise_append] at hclock
      obtain ⟨hsorted, -, hlast⟩ := hclock
      have hle : ∀ a ∈ events, a.now ≤ ev.now := fun a ha =>
        hlast a.now (List.mem_map_of_mem ha) ev.now (List.mem_singleton_self _)
      have hold : (run ustack .init events).findEntry mac = some e → ∃ time,
          lastHeard events mac = some time ∧ e.visited ≤ time ∧
            ∃ a ∈ events ++ [ev], time = a.now := by
        intro h
        obtain ⟨time, htime, hvisited, a, ha, heq⟩ := ih hsorted h
        exact ⟨time, htime, hvisited, a, List.mem_append_left _ ha, heq⟩
      rw [run, List.foldl_append] at he
      rw [lastHeard, List.foldl_append]
      cases ev with
      | sweep now =>
          have hsweep := (run ustack .init events).findEntry_sweep now (distinct_run ustack events)
            mac
          exact hold (Option.filter_eq_some_iff.mp (hsweep.symm.trans he)).1
      | frame iface frame now =>
          change ∃ time, Function.update (lastHeard events) frame.etherShost (some now) mac = _ ∧ _
          by_cases hmac : mac = frame.etherShost
          · subst hmac
            refine ⟨now, Function.update_self _ _ _, ?_, .frame iface frame now, by simp, rfl⟩
            rcases findEntry_handlePacket ustack he with h | ⟨-, h⟩
            · obtain ⟨time, -, hvisited, a, ha, rfl⟩ := ih hsorted h
              exact hvisited.trans (hle a ha)
            · exact h.le
          · rw [Function.update_of_ne hmac]
            rcases findEntry_handlePacket ustack he with h | ⟨h, -⟩
            · exact hold h
            · exact absurd h hmac

end

/-- Something holds of the table, the hosts heard so far and the clock at every sweep of a
run. -/
def AtSweeps (ustack : Ustack ι) (P : MacPortMap ι → (Mac → Option ℤ) → ℤ → Prop)
    (events : List (Event ι)) : Prop :=
  ∀ k (h : k < events.length) now, events[k] = .sweep now →
    P (run ustack .init (events.take k)) (lastHeard (events.take k)) now

/-- In a run whose clock never steps back every sweep is right exactly if none finds an
entry that was created too long ago although its host has been heard since. -/
theorem run_ages_iff (ustack : Ustack ι) (events : List (Event ι))
    (hclock : (events.map Event.now).Pairwise (· ≤ ·)) :
    AtSweeps ustack Ages events ↔ AtSweeps ustack AgesAlike events := by
  apply forall_congr'
  intro k
  apply forall_congr'
  intro hk
  apply forall_congr'
  intro now
  apply imp_congr_right
  intro hevent
  apply ages_iff (distinct_run ustack _)
  intro mac e he
  have hsplit : (events.take k).map Event.now ++ (events.drop k).map Event.now =
      events.map Event.now := by
    rw [← List.map_append, List.take_append_drop]
  rw [← hsplit, List.pairwise_append] at hclock
  obtain ⟨time, htime, hvisited, a, ha, rfl⟩ := exists_lastHeard ustack hclock.1 he
  refine ⟨a.now, htime, hvisited, ?_⟩
  have hnext : .sweep now ∈ events.drop k := by
    rw [List.drop_eq_getElem_cons hk, hevent]
    exact List.mem_cons_self
  exact hclock.2.2 a.now (List.mem_map_of_mem ha) now (List.mem_map.mpr ⟨_, hnext, rfl⟩)

/-- A host is heard once, and its entry is swept out after 31 seconds. -/
theorem run_ages_iff_once :
    AtSweeps twoPorts Ages [.frame false (hostFrame 1 2) 0, .sweep 31] := by
  apply (run_ages_iff twoPorts _ (by decide)).mpr
  intro k hk now hevent mac e time he htime
  obtain rfl : k = 1 := by
    have hlt : k < 2 := hk
    by_contra hne
    obtain rfl : k = 0 := by omega
    exact absurd hevent (by simp)
  obtain rfl : 31 = now := by injection hevent
  have hvisited : e.visited = 0 := by
    rcases findEntry_handlePacket twoPorts he with h | ⟨-, h⟩
    · exact absurd h (by simp)
    · exact h
  have hheard : time = 0 := by
    change Function.update (fun _ => none) _ (some 0) mac = some time at htime
    by_cases hmac : mac = (hostFrame 1 2).etherShost
    · rw [hmac, Function.update_self, Option.some.injEq] at htime
      exact htime.symm
    · rw [Function.update_of_ne hmac] at htime
      exact absurd htime (by simp)
  rw [hvisited, hheard]
  decide

/-- A host is heard again after 30 seconds, and swept out one second later. -/
theorem not_ages_refreshed :
    let events : List (Event Bool) := [.frame false (hostFrame 1 2) 0,
      .frame false (hostFrame 1 2) 30, .sweep 31]
    (events.map Event.now).Pairwise (· ≤ ·) ∧ ¬ AtSweeps twoPorts Ages events := by
  intro events
  refine ⟨by decide, fun h => ?_⟩
  let host : Mac := (hostFrame 1 2).etherShost
  let map : MacPortMap Bool := run twoPorts .init (events.take 2)
  obtain ⟨e, he⟩ : ∃ e, map.findEntry host = some e :=
    Option.isSome_iff_exists.mp (by decide +kernel)
  obtain ⟨time, htime, hremoves⟩ := (h 2 (by decide) 31 rfl).removes_iff host e he
  have hgone : (map.sweepAgedMacPortEntry 31).1.findEntry host = none :=
    Option.isNone_iff_eq_none.mp (by decide +kernel)
  have hheard : lastHeard (events.take 2) host = some 30 := by decide +kernel
  obtain rfl := Option.some.inj (hheard.symm.trans htime)
  exact absurd (hremoves.mp hgone) (by decide)

end Switching

end NetworkLabs
