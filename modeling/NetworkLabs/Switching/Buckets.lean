import NetworkLabs.Switching.LearnedPorts

/-!
# The buckets of the table

An address has at most one entry in the whole table, and that lies in the bucket of
the address. The insertion does not look for an older entry. It is the lookup in front
of it that keeps the addresses distinct, and it does so even if the other thread
sweeps the table in between, since a sweep only takes entries out.
-/

namespace NetworkLabs

namespace Switching

variable {ι : Type*}

namespace MacPortMap

/-- The entries of all buckets, in the order of the scan. -/
def entries (map : MacPortMap ι) : List (MacPortEntry ι) :=
  (List.finRange HASH_8BITS).flatMap map.hashTable

/-- A scan of the bucket of the address alone. -/
def lookupBucket (map : MacPortMap ι) (mac : Mac) : Option ι :=
  ((map.hashTable (bucket mac)).find? fun e => e.mac == mac).map MacPortEntry.iface

/-- The table after some sweeps. -/
def sweeps (map : MacPortMap ι) (times : List ℤ) : MacPortMap ι :=
  times.foldl (fun map now => (map.sweepAgedMacPortEntry now).1) map

theorem lookupPort_eq_lookupBucket (map : MacPortMap ι) (mac : Mac) :
    map.lookupPort mac = map.lookupBucket mac := by
  rw [lookupPort, findEntry_eq, lookupBucket]

/-- What is distinct in each bucket is distinct in the table. -/
theorem Distinct.nodup_entries {map : MacPortMap ι} (hd : map.Distinct) :
    (map.entries.map MacPortEntry.mac).Nodup := by
  rw [entries, List.map_flatMap, List.nodup_flatMap]
  refine ⟨fun i _ => hd i, (List.nodup_finRange HASH_8BITS).imp fun {i j} hij => ?_⟩
  intro mac hi hj
  obtain ⟨e, he, rfl⟩ := List.mem_map.mp hi
  obtain ⟨e', he', heq⟩ := List.mem_map.mp hj
  apply hij
  rw [← map.placed i e he, ← map.placed j e' he', heq]

theorem distinct_sweeps {map : MacPortMap ι} (hd : map.Distinct) (times : List ℤ) :
    (map.sweeps times).Distinct :=
  Transition.foldl_invariant Distinct (fun map now h => map.distinct_sweep now h) map times hd

/-- Sweeps do not bring back an entry. -/
theorem findEntry_sweeps_eq_none {map : MacPortMap ι} (hd : map.Distinct) {mac : Mac}
    (h : map.findEntry mac = none) (times : List ℤ) : (map.sweeps times).findEntry mac = none := by
  refine (Transition.foldl_invariant
    (fun map : MacPortMap ι => map.Distinct ∧ map.findEntry mac = none)
    (fun map now hmap => ⟨map.distinct_sweep now hmap.1, ?_⟩) map times ⟨hd, h⟩).2
  rw [map.findEntry_sweep now hmap.1, hmap.2, Option.filter_none]

end MacPortMap

/-! ## Two threads -/

/-- A sweep, or a frame; other sweeps may come before the source of the frame is looked
up, and before it is inserted. -/
inductive ThreadEvent (ι : Type*) where
  | frame (iface : ι) (frame : Frame) (now : ℤ) (amid later : List ℤ)
  | sweep (now : ℤ)

def stepThreads (map : MacPortMap ι) : ThreadEvent ι → MacPortMap ι
  | .frame iface frame now amid later =>
      match (map.sweeps amid).lookupPort frame.etherShost with
      | some _ => (map.sweeps amid).sweeps later
      | none => ((map.sweeps amid).sweeps later).insertMacPort frame.etherShost iface now
  | .sweep now => (map.sweepAgedMacPortEntry now).1

def runThreads (map : MacPortMap ι) (events : List (ThreadEvent ι)) : MacPortMap ι :=
  events.foldl stepThreads map

/-- The event without sweeps in between. -/
def alone : Event ι → ThreadEvent ι
  | .frame iface frame now => .frame iface frame now [] []
  | .sweep now => .sweep now

theorem stepThreads_alone (ustack : Ustack ι) (map : MacPortMap ι) (e : Event ι) :
    stepThreads map (alone e) = step ustack map e := by
  cases e with
  | frame iface frame now => rfl
  | sweep now => rfl

/-- Runs without sweeps in between are among those with them. -/
theorem runThreads_alone (ustack : Ustack ι) (map : MacPortMap ι) (events : List (Event ι)) :
    runThreads map (events.map alone) = run ustack map events := by
  rw [runThreads, List.foldl_map, run]
  congr 1
  funext map e
  exact stepThreads_alone ustack map e

theorem distinct_stepThreads (map : MacPortMap ι) (e : ThreadEvent ι) (hd : map.Distinct) :
    (stepThreads map e).Distinct := by
  cases e with
  | sweep now => exact map.distinct_sweep now hd
  | frame iface frame now amid later =>
      have hamid := MacPortMap.distinct_sweeps hd amid
      have hlater := MacPortMap.distinct_sweeps hamid later
      rw [stepThreads]
      cases hlookup : (map.sweeps amid).lookupPort frame.etherShost with
      | some q => exact hlater
      | none =>
          apply MacPortMap.distinct_insertMacPort _ _ iface now hlater
          exact MacPortMap.findEntry_sweeps_eq_none hamid
            ((MacPortMap.lookupPort_eq_none_iff _ _).mp hlookup) later

/-- In every state of a run, no address has two entries in the table, every entry lies in
the bucket of its address, which is one of 256, and a scan of all buckets finds what a
scan of that bucket finds. -/
theorem runThreads_buckets (events : List (ThreadEvent ι)) :
    ((runThreads .init events).entries.map MacPortEntry.mac).Nodup ∧
      (∀ i, ∀ e ∈ (runThreads .init events).hashTable i,
        calculateHash e.mac = i ∧ calculateHash e.mac < 256) ∧
      ∀ mac, (runThreads .init events).lookupPort mac =
        (runThreads .init events).lookupBucket mac := by
  refine ⟨?_, ?_, fun mac => MacPortMap.lookupPort_eq_lookupBucket _ mac⟩
  · apply MacPortMap.Distinct.nodup_entries
    exact Transition.foldl_invariant MacPortMap.Distinct distinct_stepThreads .init events
      MacPortMap.distinct_init
  · intro i e he
    have hplaced := (runThreads .init events).placed i e he
    exact ⟨congrArg Fin.val hplaced, calculateHash_lt e.mac⟩

end Switching

end NetworkLabs
