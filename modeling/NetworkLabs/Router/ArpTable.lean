import NetworkLabs.Library.Transition
import NetworkLabs.Router.ArpCache

/-!
# The table as a map with expiry

Over the whole history of the cache there is a map from addresses to the last
mapping that was inserted, until a sweep finds it too old or a full table gives
its slot away. As long as every insertion finds a slot, the valid slots are this
map: that is what the insertions and the sweeps are for.

The lookup does not read it. It compares `valid` with the address, so it answers
only for the address 0.0.0.1, and then with the first mapping of the table.
-/

namespace NetworkLabs

namespace Router

variable {ι : Type*}

theorem ArpCacheEntry.isFor_iff (entry : ArpCacheEntry) (ip4 : UInt32) :
    entry.isFor ip4 = true ↔ entry.valid = true ∧ entry.ip4 = ip4 := by
  rw [ArpCacheEntry.isFor, Bool.and_eq_true, beq_iff_eq]

theorem mem_slots (i : Fin MAX_ARP_SIZE) : i ∈ slots := List.mem_finRange i

/-- A scan that finds nothing has seen every slot. -/
theorem find?_slots_eq_none_iff (p : Fin MAX_ARP_SIZE → Bool) :
    slots.find? p = none ↔ ∀ i, p i = false := by
  rw [List.find?_eq_none]
  constructor
  · intro h i
    exact Bool.of_not_eq_true (h i (mem_slots i))
  · intro h i _
    rw [h i]
    exact Bool.false_ne_true

/-! ## The live mappings -/

/-- A mapping and the time at which it was inserted. -/
abbrev Mapping : Type := Mac × ℤ

/-- The address whose mapping an insertion pushes out of a full table. -/
def evicted (entries : Fin MAX_ARP_SIZE → ArpCacheEntry) (ip4 : UInt32) (now : ℤ) :
    Option UInt32 :=
  match slots.find? (fun i => (entries i).isFor ip4) with
  | some _ => none
  | none => ((findSlot entries now).filter fun i => (entries i).valid).map fun i => (entries i).ip4

/-- What a call does to the live mappings. -/
def noteMapping (entries : Fin MAX_ARP_SIZE → ArpCacheEntry) (live : UInt32 → Option Mapping) :
    Event ι → UInt32 → Option Mapping
  | .append _ _ _ _ => live
  | .insert ip4 mac now later =>
      Function.update (fun ip => if evicted entries ip4 now = some ip then none else live ip) ip4
        (some (mac, if (live ip4).isSome then now else later))
  | .sweep now => fun ip => (live ip).filter fun m => !decide (ARP_ENTRY_TIMEOUT < now - m.2)

/-- The state of the cache together with the live mappings. -/
def stepLive [DecidableEq ι] (st : State ι × (UInt32 → Option Mapping)) (e : Event ι) :
    State ι × (UInt32 → Option Mapping) :=
  (st.1.step e, noteMapping st.1.cache.entries st.2 e)

/-- The live mappings after a run. -/
def live [DecidableEq ι] (events : List (Event ι)) : UInt32 → Option Mapping :=
  (events.foldl stepLive (.init, fun _ => none)).2

/-! ## The slots and the live mappings -/

/-- The valid slots are the live mappings, one slot for each address. -/
structure Represents (entries : Fin MAX_ARP_SIZE → ArpCacheEntry)
    (live : UInt32 → Option Mapping) : Prop where
  unique : ∀ i j ip, (entries i).isFor ip = true → (entries j).isFor ip = true → i = j
  live_iff : ∀ ip m, live ip = some m ↔
    ∃ i, (entries i).isFor ip = true ∧ ((entries i).mac, (entries i).added) = m

namespace Represents

variable {entries : Fin MAX_ARP_SIZE → ArpCacheEntry} {live : UInt32 → Option Mapping}

theorem of_isFor (h : Represents entries live) {i : Fin MAX_ARP_SIZE} {ip : UInt32}
    (hi : (entries i).isFor ip = true) : live ip = some ((entries i).mac, (entries i).added) :=
  (h.live_iff ip _).mpr ⟨i, hi, rfl⟩

/-- The scan of an insertion finds the live mapping. -/
theorem find?_isFor (h : Represents entries live) (ip : UInt32) :
    (slots.find? fun i => (entries i).isFor ip).map
      (fun i => ((entries i).mac, (entries i).added)) = live ip := by
  cases hfind : slots.find? (fun i => (entries i).isFor ip) with
  | some i =>
      have hi : (entries i).isFor ip = true :=
        List.find?_some (p := fun i => (entries i).isFor ip) hfind
      rw [Option.map_some, h.of_isFor hi]
  | none =>
      rw [find?_slots_eq_none_iff] at hfind
      rw [Option.map_none, eq_comm, Option.eq_none_iff_forall_ne_some]
      intro m hm
      obtain ⟨i, hi, -⟩ := (h.live_iff ip m).mp hm
      exact Bool.false_ne_true ((hfind i).symm.trans hi)

theorem start : Represents (fun _ => {}) (fun _ => none) where
  unique := fun i j ip hi => absurd hi Bool.false_ne_true
  live_iff := by
    intro ip m
    constructor
    · intro h
      exact absurd h (by simp)
    · rintro ⟨i, hi, -⟩
      exact absurd hi Bool.false_ne_true

/-- One slot is written with a mapping for an address that no other slot is
for. -/
theorem write (h : Represents entries live) (i : Fin MAX_ARP_SIZE) (ip : UInt32) (mac : Mac)
    (added : ℤ) (hother : ∀ j, j ≠ i → (entries j).isFor ip = false) :
    Represents
      (Function.update entries i { ip4 := ip, mac := mac, added := added, valid := true })
      (Function.update (fun x => if (entries i).isFor x then none else live x) ip
        (some (mac, added))) := by
  have hself : ∀ x, (({ ip4 := ip, mac := mac, added := added, valid := true } :
      ArpCacheEntry).isFor x = true ↔ x = ip) := by
    intro x
    rw [ArpCacheEntry.isFor_iff]
    exact ⟨fun hx => hx.2.symm, fun hx => ⟨rfl, hx.symm⟩⟩
  have hback : ∀ j x, (Function.update entries i
      { ip4 := ip, mac := mac, added := added, valid := true } j).isFor x = true →
      j = i ∧ x = ip ∨ j ≠ i ∧ x ≠ ip ∧ (entries j).isFor x = true := by
    intro j x hj
    by_cases hji : j = i
    · subst hji
      rw [Function.update_self, hself] at hj
      exact Or.inl ⟨rfl, hj⟩
    · rw [Function.update_of_ne hji] at hj
      refine Or.inr ⟨hji, ?_, hj⟩
      rintro rfl
      exact Bool.false_ne_true ((hother j hji).symm.trans hj)
  refine ⟨?_, ?_⟩
  · intro j k x hj hk
    rcases hback j x hj with ⟨rfl, rfl⟩ | ⟨hji, hx, hj⟩
    · rcases hback k x hk with ⟨rfl, -⟩ | ⟨-, hne, -⟩
      · rfl
      · exact absurd rfl hne
    · rcases hback k x hk with ⟨-, rfl⟩ | ⟨-, -, hk⟩
      · exact absurd rfl hx
      · exact h.unique j k x hj hk
  · intro x m
    by_cases hx : x = ip
    · subst hx
      rw [Function.update_self, Option.some.injEq]
      constructor
      · rintro rfl
        refine ⟨i, ?_, ?_⟩
        · rw [Function.update_self, hself]
        · rw [Function.update_self]
      · rintro ⟨j, hj, hm⟩
        rcases hback j x hj with ⟨rfl, -⟩ | ⟨-, hne, -⟩
        · rw [Function.update_self] at hm
          exact hm
        · exact absurd rfl hne
    · rw [Function.update_of_ne hx]
      constructor
      · intro hlive
        split_ifs at hlive with hi
        obtain ⟨j, hj, hm⟩ := (h.live_iff x m).mp hlive
        have hji : j ≠ i := by
          rintro rfl
          exact hi hj
        refine ⟨j, ?_, ?_⟩
        · rw [Function.update_of_ne hji]
          exact hj
        · rw [Function.update_of_ne hji]
          exact hm
      · rintro ⟨j, hj, hm⟩
        rcases hback j x hj with ⟨-, hxip⟩ | ⟨hji, -, hj'⟩
        · exact absurd hxip hx
        · rw [Function.update_of_ne hji] at hm
          have hi : ¬ (entries i).isFor x = true := fun hi => hji (h.unique j i x hj' hi)
          rw [if_neg hi]
          exact (h.live_iff x m).mpr ⟨j, hj', hm⟩

/-- A mapping is inserted for an address that has one. -/
theorem refresh (h : Represents entries live) {i : Fin MAX_ARP_SIZE} {ip : UInt32}
    (hi : (entries i).isFor ip = true) (mac : Mac) (now : ℤ) :
    Represents (Function.update entries i { entries i with mac := mac, added := now })
      (Function.update live ip (some (mac, now))) := by
  have hiff := (entries i).isFor_iff ip
  obtain ⟨hvalid, hip⟩ := hiff.mp hi
  have hentry : ({ entries i with mac := mac, added := now } : ArpCacheEntry) =
      { ip4 := ip, mac := mac, added := now, valid := true } := by
    change ({ ip4 := (entries i).ip4, mac := mac, added := now, valid := (entries i).valid } :
      ArpCacheEntry) = _
    rw [hvalid, hip]
  have hlive : Function.update live ip (some (mac, now)) =
      Function.update (fun x => if (entries i).isFor x then none else live x) ip
        (some (mac, now)) := by
    funext x
    by_cases hx : x = ip
    · rw [hx, Function.update_self, Function.update_self]
    · have hne : ¬ (entries i).isFor x = true := by
        rw [ArpCacheEntry.isFor_iff]
        exact fun hboth => hx (hboth.2.symm.trans hip)
      rw [Function.update_of_ne hx, Function.update_of_ne hx, if_neg hne]
  rw [hentry, hlive]
  apply h.write
  intro j hj
  rw [← Bool.not_eq_true]
  exact fun hfor => hj (h.unique j i ip hfor hi)

theorem sweep (h : Represents entries live) (now : ℤ) :
    Represents (fun i => sweepEntry now (entries i))
      (fun ip => (live ip).filter fun m => !decide (ARP_ENTRY_TIMEOUT < now - m.2)) := by
  have hiff : ∀ i x, (sweepEntry now (entries i)).isFor x = true ↔
      (entries i).isFor x = true ∧ ¬ ARP_ENTRY_TIMEOUT < now - (entries i).added := by
    intro i x
    rw [sweepEntry, ArpCacheEntry.isFor_iff, ArpCacheEntry.isFor_iff]
    by_cases hvalid : (entries i).valid = true
    · by_cases hold : ARP_ENTRY_TIMEOUT < now - (entries i).added
      · simp [hvalid, hold]
      · simp [hvalid, hold]
    · simp [hvalid]
  have hkeep : ∀ i, (sweepEntry now (entries i)).mac = (entries i).mac ∧
      (sweepEntry now (entries i)).added = (entries i).added := by
    intro i
    rw [sweepEntry]
    split_ifs
    · exact ⟨rfl, rfl⟩
    · exact ⟨rfl, rfl⟩
  refine ⟨?_, ?_⟩
  · intro i j x hi hj
    exact h.unique i j x ((hiff i x).mp hi).1 ((hiff j x).mp hj).1
  · intro x m
    rw [Option.filter_eq_some_iff, h.live_iff]
    constructor
    · rintro ⟨⟨i, hi, rfl⟩, hyoung⟩
      refine ⟨i, (hiff i x).mpr ⟨hi, ?_⟩, ?_⟩
      · simpa using hyoung
      · rw [(hkeep i).1, (hkeep i).2]
    · rintro ⟨i, hi, hm⟩
      obtain ⟨hfor, hyoung⟩ := (hiff i x).mp hi
      rw [(hkeep i).1, (hkeep i).2] at hm
      refine ⟨⟨i, hfor, hm⟩, ?_⟩
      rw [← hm]
      simpa using hyoung

theorem insert (h : Represents entries live) (ip : UInt32) (mac : Mac) (now later : ℤ)
    (hslot : slots.find? (fun i => (entries i).isFor ip) = none → findSlot entries now ≠ none) :
    Represents (insertEntry entries ip mac now later)
      (noteMapping entries live (.insert ip mac now later : Event ι)) := by
  have hlive := h.find?_isFor ip
  rw [insertEntry, noteMapping, evicted]
  cases hfind : slots.find? (fun i => (entries i).isFor ip) with
  | some i =>
      rw [hfind, Option.map_some] at hlive
      simp only [← hlive, reduceCtorEq, if_false, Option.isSome_some, if_true]
      exact h.refresh (List.find?_some (p := fun i => (entries i).isFor ip) hfind) mac now
  | none =>
      rw [hfind, Option.map_none] at hlive
      cases hindex : findSlot entries now with
      | none => exact absurd hindex (hslot hfind)
      | some i =>
          have hevict : (fun x => if ((some i).filter fun i => (entries i).valid).map
              (fun i => (entries i).ip4) = some x then none else live x) =
              fun x => if (entries i).isFor x then none else live x := by
            funext x
            apply if_congr _ rfl rfl
            rw [ArpCacheEntry.isFor_iff, Option.map_eq_some_iff]
            constructor
            · rintro ⟨j, hj, hx⟩
              obtain ⟨hji, hvalid⟩ := Option.filter_eq_some_iff.mp hj
              obtain rfl := Option.some.inj hji
              exact ⟨hvalid, hx⟩
            · rintro ⟨hvalid, hx⟩
              exact ⟨i, Option.filter_eq_some_iff.mpr ⟨rfl, hvalid⟩, hx⟩
          simp only [hevict, ← hlive, Option.isSome_none, Bool.false_eq_true, if_false]
          exact h.write i ip mac later
            fun j _ => (find?_slots_eq_none_iff _).mp hfind j

end Represents

/-- An insertion finds a slot: it may only miss one in a table of valid mappings
that are all later than the clock. -/
def FindsSlot (s : State ι) : Event ι → Prop
  | .insert ip4 _ now _ =>
      slots.find? (fun i => (s.cache.entries i).isFor ip4) = none →
        findSlot s.cache.entries now ≠ none
  | _ => True

theorem represents_stepLive [DecidableEq ι] (s : State ι) (live : UInt32 → Option Mapping)
    (e : Event ι) (h : Represents s.cache.entries live) (hslot : FindsSlot s e) :
    Represents (s.step e).cache.entries (noteMapping s.cache.entries live e) := by
  cases e with
  | append iface ip4 frame now => exact h
  | insert ip4 mac now later => exact h.insert ip4 mac now later hslot
  | sweep now => exact h.sweep now

/-- In every run in which the insertions find slots, the valid slots are the live
mappings. -/
theorem represents_run [DecidableEq ι] (events : List (Event ι))
    (hslots : Transition.Along State.step FindsSlot .init events) :
    Represents (State.run events).cache.entries (live events) := by
  have hfst : (events.foldl stepLive ((.init : State ι), fun _ => none)).1 = State.run events :=
    (List.foldl_hom Prod.fst fun _ _ => rfl).symm
  have hinv : Represents (events.foldl stepLive (.init, fun _ => none)).1.cache.entries
      (events.foldl stepLive (.init, fun _ => none)).2 :=
    Transition.Along.invariant (fun st => Represents st.1.cache.entries st.2)
      (fun st e h hslot => represents_stepLive st.1 st.2 e h hslot) _ events Represents.start
      ((Transition.along_map Prod.fst (fun _ _ => rfl) _ events).mpr hslots)
  rw [hfst] at hinv
  exact hinv

/-! ## What the lookup answers -/

/-- The first mapping of the table for an address other than 0.0.0.0. -/
def firstMac (cache : ArpCache ι) : Option Mac :=
  (slots.find? fun i => (cache.entries i).valid && (cache.entries i).ip4 != 0).map
    fun i => (cache.entries i).mac

theorem lookup_eq_none (cache : ArpCache ι) (ip4 : UInt32) (h0 : ip4 ≠ 0) (h1 : ip4 ≠ 1) :
    cache.lookup ip4 = none := by
  rw [ArpCache.lookup, Option.map_eq_none_iff, find?_slots_eq_none_iff]
  intro i
  rw [ArpCacheEntry.answers, Bool.and_eq_false_iff]
  right
  rw [beq_eq_false_iff_ne]
  split_ifs
  · exact h1.symm
  · exact h0.symm

theorem lookup_one (cache : ArpCache ι) : cache.lookup 1 = firstMac cache := by
  have htest : (fun i => (cache.entries i).answers 1) =
      fun i => (cache.entries i).valid && (cache.entries i).ip4 != 0 := by
    funext i
    rw [ArpCacheEntry.answers, Bool.and_comm]
    cases (cache.entries i).valid <;> rfl
  rw [ArpCache.lookup, firstMac, htest]

/-- The lookup of an address tells its live mapping exactly if there is none; for
0.0.0.1 it does if the first mapping of the table has the right address. -/
theorem lookup_eq_live_iff [DecidableEq ι] (events : List (Event ι)) (ip4 : UInt32)
    (h : ip4 ≠ 0) :
    (State.run events).cache.lookup ip4 = (live events ip4).map Prod.fst ↔
      if ip4 = 1 then firstMac (State.run events).cache = (live events 1).map Prod.fst
      else live events ip4 = none := by
  split_ifs with h1
  · rw [h1, lookup_one]
  · rw [lookup_eq_none _ ip4 h h1, eq_comm, Option.map_eq_none_iff]

/-- A mapping that has been swept out is not found. -/
theorem lookup_eq_live_iff_expired :
    let events : List (Event Unit) := [.insert 2 (Vector.replicate ETH_ALEN 7) 0 0, .sweep 16]
    (State.run events).cache.lookup 2 = (live events 2).map Prod.fst :=
  (lookup_eq_live_iff _ 2 (by decide)).mpr (by decide +kernel)

/-- A mapping that has just been inserted is not found. -/
theorem lookup_ne_live :
    ¬ ∀ (events : List (Event Unit)) (ip4 : UInt32), ip4 ≠ 0 →
      (State.run events).cache.lookup ip4 = (live events ip4).map Prod.fst := by
  intro h
  have hlookup := h [.insert 2 (Vector.replicate ETH_ALEN 7) 0 0] 2 (by decide)
  exact absurd hlookup (by decide +kernel)

end Router

end NetworkLabs
