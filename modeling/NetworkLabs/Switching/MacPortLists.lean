import NetworkLabs.Library.RecordLists
import NetworkLabs.Switching.LearnedPorts

/-!
# The table of the switch in memory

The entries of a bucket hang on a list of `hash_table`. Here the loops of `mac.c` and the calls
of `malloc` and `free` are followed through the links, and the table is what the lists say.
-/

namespace NetworkLabs

namespace Switching

open CircularList

/-- The lists of `hash_table`. -/
abbrev MacPortMemory (ι : Type) := Records (Fin HASH_8BITS) ℕ (MacPortEntry ι)

variable {ι : Type}

namespace MacPortMemory

/-! ## `mac.c` -/

def initMacPortTable (garbage : ListHead (Fin HASH_8BITS ⊕ ℕ)) : Option (MacPortMemory ι) :=
  (List.finRange HASH_8BITS).foldlM
    (fun s i => (Records.mallocHead s i garbage).initHead i) Records.empty

/-- The rounds of `lookup_port` over the buckets, which end with the first entry of the
address. -/
def findFrom (s : MacPortMemory ι) (mac : Mac) (fuel : ℕ) :
    List (Fin HASH_8BITS) → Option (Option ℕ)
  | [] => some none
  | i :: rest => do
      match ← s.findEntry i (fun entry => entry.mac == mac) fuel with
      | some entry => return some entry
      | none => findFrom s mac fuel rest

def lookupPort (s : MacPortMemory ι) (mac : Mac) (fuel : ℕ) : Option (Option ι) := do
  match ← s.findFrom mac fuel (List.finRange HASH_8BITS) with
  | some entry =>
      let entry ← s.data entry
      return some entry.iface
  | none => return none

def insertMacPort (s : MacPortMemory ι) (malloc : ℕ) (garbage : ListHead (Fin HASH_8BITS ⊕ ℕ))
    (mac : Mac) (iface : ι) (now : ℤ) : Option (MacPortMemory ι) :=
  (s.malloc malloc { mac := mac, iface := iface, visited := now } garbage).addTail malloc
    (bucket mac)

def sweepAgedMacPortEntry (s : MacPortMemory ι) (now : ℤ) (fuel : ℕ) :
    Option (MacPortMemory ι × ℕ) :=
  (List.finRange HASH_8BITS).foldlM (fun st i => Records.removeIf (isAged now) i fuel st) (s, 0)

/-- Every entry is removed; nobody counts them. -/
def destroyMacPortTable (s : MacPortMemory ι) (fuel : ℕ) : Option (MacPortMemory ι × ℕ) :=
  (List.finRange HASH_8BITS).foldlM
    (fun st i => Records.removeIf (fun _ => true) i fuel st) (s, 0)

/-! ## The table -/

/-- The lists hold the table, and nothing else is allocated. -/
structure Holds (s : MacPortMemory ι) (lists : Fin HASH_8BITS → List (ℕ × MacPortEntry ι))
    (map : MacPortMap ι) : Prop where
  stores : s.Stores fun i => some (lists i)
  hashTable_eq : ∀ i, map.hashTable i = (lists i).map Prod.snd

variable {s : MacPortMemory ι} {lists : Fin HASH_8BITS → List (ℕ × MacPortEntry ι)}
  {map : MacPortMap ι} {fuel : ℕ}

theorem update_some (lists : Fin HASH_8BITS → List (ℕ × MacPortEntry ι)) (i : Fin HASH_8BITS)
    (l : List (ℕ × MacPortEntry ι)) : Function.update (fun i => some (lists i)) i (some l) =
      fun j => some (Function.update lists i l j) := by
  funext j
  by_cases hj : j = i
  · subst hj
    rw [Function.update_self, Function.update_self]
  · rw [Function.update_of_ne hj, Function.update_of_ne hj]

namespace Holds

theorem findFrom_eq (h : s.Holds lists map) (hfuel : ∀ i, (lists i).length < fuel) (mac : Mac)
    (is : List (Fin HASH_8BITS)) :
    ∃ entry, s.findFrom mac fuel is = some entry ∧ (∀ a ∈ entry, (s.data a).isSome) ∧
      entry.bind s.data = (is.flatMap map.hashTable).find? fun e => e.mac == mac := by
  induction is with
  | nil => exact ⟨none, rfl, by simp, rfl⟩
  | cons i is ih =>
      have hfind := h.stores.findEntry_eq rfl (fun entry => entry.mac == mac) (hfuel i)
      rw [List.flatMap_cons, List.find?_append, h.hashTable_eq, List.find?_map]
      cases hfound : (lists i).find? fun y => y.2.mac == mac with
      | some x =>
          have hdata := h.stores.data_eq (k := i) rfl (List.mem_of_find?_eq_some hfound)
          refine ⟨some x.1, ?_, ?_, ?_⟩
          · rw [findFrom, hfind, hfound]
            rfl
          · intro a ha
            rw [← Option.some.inj ha, hdata]
            rfl
          · rw [Option.bind_some, hdata, Function.comp_def, hfound, Option.map_some,
              Option.some_or]
      | none =>
          obtain ⟨entry, hentry, hsome, hbind⟩ := ih
          refine ⟨entry, ?_, hsome, ?_⟩
          · rw [findFrom, hfind, hfound]
            exact hentry
          · rw [hbind, Function.comp_def, hfound, Option.map_none, Option.none_or]

theorem lookupPort (h : s.Holds lists map) (hfuel : ∀ i, (lists i).length < fuel) (mac : Mac) :
    s.lookupPort mac fuel = some (map.lookupPort mac) := by
  obtain ⟨entry, hentry, hsome, hbind⟩ := h.findFrom_eq hfuel mac (List.finRange HASH_8BITS)
  rw [MacPortMap.lookupPort, MacPortMap.findEntry, ← hbind, MacPortMemory.lookupPort, hentry]
  cases entry with
  | none => rfl
  | some a =>
      obtain ⟨e, he⟩ := Option.isSome_iff_exists.mp (hsome a rfl)
      simp [he]

theorem insertMacPort (h : s.Holds lists map) {malloc : ℕ} (hmalloc : s.data malloc = none)
    (garbage : ListHead (Fin HASH_8BITS ⊕ ℕ)) (mac : Mac) (iface : ι) (now : ℤ) :
    ∃ s', s.insertMacPort malloc garbage mac iface now = some s' ∧
      s'.Holds (Function.update lists (bucket mac) (lists (bucket mac) ++
        [(malloc, { mac := mac, iface := iface, visited := now })]))
        (map.insertMacPort mac iface now) := by
  obtain ⟨s', hs', hstores⟩ := h.stores.append (k := bucket mac) rfl hmalloc
    { mac := mac, iface := iface, visited := now } garbage
  rw [update_some] at hstores
  refine ⟨s', hs', hstores, fun i => ?_⟩
  rw [MacPortMap.hashTable_insertMacPort]
  by_cases hi : i = bucket mac
  · subst hi
    rw [Function.update_self, Function.update_self, h.hashTable_eq, List.map_append]
    rfl
  · rw [Function.update_of_ne hi, Function.update_of_ne hi, h.hashTable_eq]

/-- The loop over the buckets. -/
theorem exists_removeIf (h : s.Stores fun i => some (lists i)) (p : MacPortEntry ι → Bool)
    (hfuel : ∀ i, (lists i).length < fuel) (is : List (Fin HASH_8BITS)) (his : is.Nodup) (n : ℕ) :
    ∃ s', is.foldlM (fun st i => Records.removeIf p i fuel st) (s, n) =
        some (s', n + (is.map fun i => (lists i).countP fun x => p x.2).sum) ∧
      s'.Stores fun i => some
        (if i ∈ is then (lists i).filter (fun x => !p x.2) else lists i) := by
  induction is generalizing s lists n with
  | nil => exact ⟨s, rfl, by simpa using h⟩
  | cons i is ih =>
      rw [List.nodup_cons] at his
      obtain ⟨s₁, hs₁, hstores₁⟩ := h.exists_removeIf rfl p (hfuel i) n
      rw [update_some] at hstores₁
      have hsame : ∀ j ∈ is, Function.update lists i ((lists i).filter fun x => !p x.2) j =
          lists j := fun j hj => Function.update_of_ne (ne_of_mem_of_not_mem hj his.1) _ _
      have hfuel₁ : ∀ j, (Function.update lists i ((lists i).filter fun x => !p x.2) j).length <
          fuel := by
        intro j
        by_cases hj : j = i
        · subst hj
          rw [Function.update_self]
          exact (List.length_filter_le _ _).trans_lt (hfuel j)
        · rw [Function.update_of_ne hj]
          exact hfuel j
      obtain ⟨s', hs', hstores'⟩ := ih hstores₁ hfuel₁ his.2 (n + (lists i).countP fun x => p x.2)
      refine ⟨s', ?_, ?_⟩
      · rw [List.foldlM_cons, hs₁, Option.bind_eq_bind, Option.bind_some, hs', List.map_cons,
          List.sum_cons, Nat.add_assoc, List.map_congr_left fun j hj => by rw [hsame j hj]]
      · convert hstores' using 3 with j
        by_cases hj : j = i
        · subst hj
          rw [if_pos List.mem_cons_self, if_neg his.1, Function.update_self]
        · simp only [Function.update_of_ne hj, List.mem_cons, or_iff_right hj]

theorem sweepAgedMacPortEntry (h : s.Holds lists map) (hfuel : ∀ i, (lists i).length < fuel)
    (now : ℤ) : ∃ s', s.sweepAgedMacPortEntry now fuel =
        some (s', (map.sweepAgedMacPortEntry now).2) ∧
      s'.Holds (fun i => (lists i).filter fun x => !isAged now x.2)
        (map.sweepAgedMacPortEntry now).1 := by
  obtain ⟨s', hs', hstores⟩ := exists_removeIf h.stores (isAged now) hfuel
    (List.finRange HASH_8BITS) (List.nodup_finRange _) 0
  simp only [List.mem_finRange, if_true] at hstores
  refine ⟨s', ?_, hstores, fun i => ?_⟩
  · rw [MacPortMemory.sweepAgedMacPortEntry, hs', Nat.zero_add, MacPortMap.sweepAgedMacPortEntry]
    refine congrArg (fun n => some (s', n)) (congrArg List.sum (List.map_congr_left fun i _ => ?_))
    rw [h.hashTable_eq, sweepBucket_eq, List.countP_map]
    rfl
  · rw [MacPortMap.hashTable_sweep, h.hashTable_eq, List.filter_map]
    rfl

/-- Nothing is left but the heads. -/
theorem destroyMacPortTable (h : s.Holds lists map) (hfuel : ∀ i, (lists i).length < fuel) :
    ∃ s' n, s.destroyMacPortTable fuel = some (s', n) ∧ s'.Holds (fun _ => []) .init := by
  obtain ⟨s', hs', hstores⟩ := exists_removeIf h.stores (fun _ => true) hfuel
    (List.finRange HASH_8BITS) (List.nodup_finRange _) 0
  refine ⟨s', _, hs', ?_, fun _ => rfl⟩
  simpa using hstores

end Holds

theorem exists_initMacPortTable (garbage : ListHead (Fin HASH_8BITS ⊕ ℕ)) :
    ∃ s : MacPortMemory ι, initMacPortTable garbage = some s ∧
      s.Holds (fun _ => []) .init := by
  have hloop : ∀ (is : List (Fin HASH_8BITS)) (s : MacPortMemory ι)
      (lists : Fin HASH_8BITS → Option (List (ℕ × MacPortEntry ι))), s.Stores lists →
      is.Nodup → (∀ i ∈ is, lists i = none) → ∃ s',
      is.foldlM (fun s i => (Records.mallocHead s i garbage).initHead i) s = some s' ∧
      s'.Stores fun i => if i ∈ is then some [] else lists i := by
    intro is
    induction is with
    | nil => exact fun s lists h _ _ => ⟨s, rfl, by simpa using h⟩
    | cons i is ih =>
        intro s lists h hnodup hnone
        rw [List.nodup_cons] at hnodup
        obtain ⟨s₁, hs₁, -, hstores₁⟩ := h.newHead (hnone i List.mem_cons_self) garbage
        obtain ⟨s', hs', hstores'⟩ := ih s₁ _ hstores₁ hnodup.2 fun j hj => by
          rw [Function.update_of_ne (ne_of_mem_of_not_mem hj hnodup.1)]
          exact hnone j (List.mem_cons_of_mem i hj)
        refine ⟨s', ?_, ?_⟩
        · rw [List.foldlM_cons, hs₁]
          exact hs'
        · convert hstores' using 2 with j
          by_cases hj : j = i
          · subst hj
            rw [if_pos List.mem_cons_self, if_neg hnodup.1, Function.update_self]
          · simp only [Function.update_of_ne hj, List.mem_cons, or_iff_right hj]
  obtain ⟨s, hs, hstores⟩ := hloop (List.finRange HASH_8BITS) Records.empty _
    Records.Stores.empty (List.nodup_finRange _) fun _ _ => rfl
  simp only [List.mem_finRange, if_true] at hstores
  exact ⟨s, hs, hstores, fun _ => rfl⟩

/-! ## Runs -/

def handlePacket (ustack : Ustack ι) (s : MacPortMemory ι) (fuel malloc : ℕ)
    (garbage : ListHead (Fin HASH_8BITS ⊕ ℕ)) (iface : ι) (frame : Frame) (now : ℤ) :
    Option (MacPortMemory ι × List (ι × Frame)) := do
  let sent := match ← s.lookupPort frame.etherDhost fuel with
    | some tx => [(tx, frame)]
    | none => broadcastPacket ustack iface frame
  match ← s.lookupPort frame.etherShost fuel with
  | some _ => return (s, sent)
  | none =>
      let s ← s.insertMacPort malloc garbage frame.etherShost iface now
      return (s, sent)

/-- The calls, with what `malloc` returns. -/
inductive MemoryEvent (ι : Type) where
  | frame (malloc : ℕ) (garbage : ListHead (Fin HASH_8BITS ⊕ ℕ)) (iface : ι) (frame : Frame)
      (now : ℤ)
  | sweep (now : ℤ)

def MemoryEvent.toEvent : MemoryEvent ι → Event ι
  | .frame _ _ iface f now => .frame iface f now
  | .sweep now => .sweep now

/-- The memory after a call, what is sent, and how many entries a sweep removes. -/
def step (ustack : Ustack ι) (fuel : ℕ) (s : MacPortMemory ι) :
    MemoryEvent ι → Option (MacPortMemory ι × List (ι × Frame) × ℕ)
  | .frame malloc garbage iface frame now =>
      (handlePacket ustack s fuel malloc garbage iface frame now).map fun r => (r.1, r.2, 0)
  | .sweep now => (s.sweepAgedMacPortEntry now fuel).map fun r => (r.1, [], r.2)

/-- What is sent in a call, and how many entries a sweep removes. -/
def results (ustack : Ustack ι) (map : MacPortMap ι) : Event ι → List (ι × Frame) × ℕ
  | .frame iface frame now => ((Switching.handlePacket ustack map iface frame now).2, 0)
  | .sweep now => ([], (map.sweepAgedMacPortEntry now).2)

/-- The results of all calls. -/
def steps (ustack : Ustack ι) (fuel : ℕ) : MacPortMemory ι → List (MemoryEvent ι) →
    Option (MacPortMemory ι × List (List (ι × Frame) × ℕ))
  | s, [] => some (s, [])
  | s, e :: events => do
      let r ← step ustack fuel s e
      let rest ← steps ustack fuel r.1 events
      return (rest.1, r.2 :: rest.2)

def run (ustack : Ustack ι) (fuel : ℕ) (garbage : ListHead (Fin HASH_8BITS ⊕ ℕ))
    (events : List (MemoryEvent ι)) : Option (MacPortMemory ι × List (List (ι × Frame) × ℕ)) := do
  let s ← initMacPortTable garbage
  steps ustack fuel s events

def allResults (ustack : Ustack ι) (map : MacPortMap ι) :
    List (Event ι) → List (List (ι × Frame) × ℕ)
  | [] => []
  | e :: events => results ustack map e :: allResults ustack (Switching.step ustack map e) events

/-- What `malloc` returns is not allocated. -/
def Mallocable (s : MacPortMemory ι) : MemoryEvent ι → Prop
  | .frame malloc _ _ _ _ => s.data malloc = none
  | .sweep _ => True

def Permitted (ustack : Ustack ι) (fuel : ℕ) : MacPortMemory ι → List (MemoryEvent ι) → Prop
  | _, [] => True
  | s, e :: events =>
      s.Mallocable e ∧ ∀ r ∈ step ustack fuel s e, Permitted ustack fuel r.1 events

instance (s : MacPortMemory ι) : (e : MemoryEvent ι) → Decidable (s.Mallocable e)
  | .frame malloc _ _ _ _ => inferInstanceAs (Decidable (s.data malloc = none))
  | .sweep _ => isTrue trivial

def decidablePermitted (ustack : Ustack ι) (fuel : ℕ) : (s : MacPortMemory ι) →
    (events : List (MemoryEvent ι)) → Decidable (s.Permitted ustack fuel events)
  | _, [] => isTrue trivial
  | s, e :: events =>
      have := fun s' => decidablePermitted ustack fuel s' events
      inferInstanceAs (Decidable
        (s.Mallocable e ∧ ∀ r ∈ step ustack fuel s e, Permitted ustack fuel r.1 events))

instance (ustack : Ustack ι) (s : MacPortMemory ι) (events : List (MemoryEvent ι)) :
    Decidable (s.Permitted ustack fuel events) := decidablePermitted ustack fuel s events

namespace Holds

theorem step (h : s.Holds lists map) {n : ℕ} (hlen : ∀ i, (lists i).length ≤ n) (hfuel : n < fuel)
    (ustack : Ustack ι) {e : MemoryEvent ι} (he : s.Mallocable e) :
    ∃ s' lists', MacPortMemory.step ustack fuel s e =
        some (s', results ustack map e.toEvent) ∧
      s'.Holds lists' (Switching.step ustack map e.toEvent) ∧ ∀ i, (lists' i).length ≤ n + 1 := by
  have hlt : ∀ i, (lists i).length < fuel := fun i => (hlen i).trans_lt hfuel
  cases e with
  | frame malloc garbage iface f now =>
      have hdst := h.lookupPort hlt f.etherDhost
      have hsrc := h.lookupPort hlt f.etherShost
      cases hlookup : map.lookupPort f.etherShost with
      | some q =>
          rw [hlookup] at hsrc
          refine ⟨s, lists, ?_, ?_, fun i => Nat.le_succ_of_le (hlen i)⟩
          · simp only [MacPortMemory.step, MacPortMemory.handlePacket, hdst, hsrc, results,
              MemoryEvent.toEvent, Switching.handlePacket]
            rfl
          · rw [MemoryEvent.toEvent, Switching.step,
              handlePacket_fst_of_known ustack map iface f now hlookup]
            exact h
      | none =>
          rw [hlookup] at hsrc
          obtain ⟨s', hs', hholds⟩ := h.insertMacPort he garbage f.etherShost iface now
          refine ⟨s', Function.update lists (bucket f.etherShost) (lists (bucket f.etherShost) ++
            [(malloc, { mac := f.etherShost, iface := iface, visited := now })]), ?_, ?_,
            fun i => ?_⟩
          · simp only [MacPortMemory.step, MacPortMemory.handlePacket, hdst, hsrc, results,
              MemoryEvent.toEvent, Switching.handlePacket, bind, Option.bind, hs']
            rfl
          · rw [MemoryEvent.toEvent, Switching.step,
              handlePacket_fst_of_unknown ustack map iface f now hlookup]
            exact hholds
          · by_cases hi : i = bucket f.etherShost
            · subst hi
              rw [Function.update_self, List.length_append]
              exact Nat.succ_le_succ (hlen _)
            · rw [Function.update_of_ne hi]
              exact Nat.le_succ_of_le (hlen i)
  | sweep now =>
      obtain ⟨s', hs', hholds⟩ := h.sweepAgedMacPortEntry hlt now
      refine ⟨s', _, ?_, hholds, fun i => ?_⟩
      · rw [MacPortMemory.step, hs']
        rfl
      · exact (List.length_filter_le _ _).trans (Nat.le_succ_of_le (hlen i))

theorem steps (h : s.Holds lists map) {n : ℕ} (hlen : ∀ i, (lists i).length ≤ n)
    (ustack : Ustack ι) {events : List (MemoryEvent ι)} (hfuel : n + events.length < fuel)
    (hpermitted : s.Permitted ustack fuel events) :
    ∃ s' lists', MacPortMemory.steps ustack fuel s events =
        some (s', allResults ustack map (events.map MemoryEvent.toEvent)) ∧
      s'.Holds lists' (Switching.run ustack map (events.map MemoryEvent.toEvent)) ∧
      ∀ i, (lists' i).length ≤ n + events.length := by
  induction events generalizing s lists map n with
  | nil => exact ⟨s, lists, rfl, h, hlen⟩
  | cons e events ih =>
      rw [List.length_cons] at hfuel
      have hlt : n < fuel := by omega
      obtain ⟨s₁, lists₁, hs₁, hholds₁, hlen₁⟩ := h.step hlen hlt ustack hpermitted.1
      have hrest : n + 1 + events.length < fuel := by omega
      obtain ⟨s', lists', hs', hholds', hlen'⟩ :=
        ih hholds₁ hlen₁ hrest (hpermitted.2 _ hs₁)
      refine ⟨s', lists', ?_, hholds', fun i => ?_⟩
      · rw [MacPortMemory.steps, hs₁]
        simp only [Option.bind_eq_bind, Option.bind_some, hs']
        rfl
      · rw [List.length_cons, Nat.add_comm events.length, ← Nat.add_assoc]
        exact hlen' i

end Holds

/-- No run faults: the lists hold the table of the switch, the same frames are sent and as many
entries are removed, nothing else is allocated, and the table can be destroyed at any time. -/
theorem run_holds (ustack : Ustack ι) (garbage : ListHead (Fin HASH_8BITS ⊕ ℕ))
    (events : List (MemoryEvent ι)) (hfuel : events.length < fuel)
    (h : ∀ s ∈ initMacPortTable garbage, Permitted ustack fuel s events) :
    ∃ s lists, run ustack fuel garbage events =
        some (s, allResults ustack .init (events.map MemoryEvent.toEvent)) ∧
      s.Holds lists (Switching.run ustack .init (events.map MemoryEvent.toEvent)) ∧
      ∃ s' n, s.destroyMacPortTable fuel = some (s', n) ∧ s'.Holds (fun _ => []) .init := by
  obtain ⟨s₀, hs₀, hholds₀⟩ := exists_initMacPortTable (ι := ι) garbage
  have hlt : 0 + events.length < fuel := by omega
  obtain ⟨s, lists, hs, hholds, hlen⟩ :=
    hholds₀.steps (fun _ => Nat.le_refl 0) ustack hlt (h s₀ hs₀)
  refine ⟨s, lists, by rw [run, hs₀]; exact hs, hholds, ?_⟩
  exact hholds.destroyMacPortTable fun i => (hlen i).trans_lt hlt

/-- Two hosts talk, their entries age, and the memory of one is used again. -/
def reuse : List (MemoryEvent Bool) :=
  let host (n : UInt8) : Mac := Vector.replicate ETH_ALEN n
  [.frame 0 ⟨.inr 3, .inr 4⟩ false ⟨host 2, host 1, []⟩ 0,
    .frame 1 ⟨.inr 3, .inr 4⟩ true ⟨host 1, host 2, []⟩ 5, .sweep 33,
    .frame 0 ⟨.inr 0, .inr 1⟩ true ⟨host 2, host 3, []⟩ 34]

theorem run_holds_reuse : ∃ s lists, run ⟨[false, true], Bool.toInt⟩ 5 ⟨.inr 0, .inr 0⟩ reuse =
      some (s, allResults ⟨[false, true], Bool.toInt⟩ .init (reuse.map MemoryEvent.toEvent)) ∧
    s.Holds lists (Switching.run ⟨[false, true], Bool.toInt⟩ .init
      (reuse.map MemoryEvent.toEvent)) ∧
    ∃ s' n, s.destroyMacPortTable 5 = some (s', n) ∧ s'.Holds (fun _ => []) .init :=
  run_holds _ _ reuse (by decide) (by decide +kernel)

end MacPortMemory

end Switching

end NetworkLabs
