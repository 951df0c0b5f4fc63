import NetworkLabs.Router.ArpTable

/-!
# Which slot an insertion writes

A mapping is written to the slot of its address, or else to a free slot, or else to
the slot that was filled first. The search for that slot starts from an index
outside of the table and from a bound that is one second ahead of the clock. If the
table is full and the clock has been set back behind all of its mappings, no slot is
below the bound, and the store goes to the index -1.
-/

namespace NetworkLabs

namespace Router

variable {ι : Type*}

/-- The slot that an insertion writes; there is none if the index is -1. -/
def writtenSlot (entries : Fin MAX_ARP_SIZE → ArpCacheEntry) (ip4 : UInt32) (now : ℤ) :
    Option (Fin MAX_ARP_SIZE) :=
  (slots.find? fun i => (entries i).isFor ip4).or (findSlot entries now)

/-- A valid slot for another address. -/
def ArpCacheEntry.IsOther (entry : ArpCacheEntry) (ip4 : UInt32) : Prop :=
  entry.valid = true ∧ entry.isFor ip4 = false

/-- What an insertion is meant to do: one slot is written, which then is the only one
for the address. A mapping for another address is lost only from a full table, and
then it is the oldest one. -/
structure Replaces (before after : Fin MAX_ARP_SIZE → ArpCacheEntry) (ip4 : UInt32) (mac : Mac)
    (now : ℤ) : Prop where
  in_range : ∃ i, writtenSlot before ip4 now = some i ∧ ∀ j, j ≠ i → after j = before j
  unique : ∃ i, (after i).isFor ip4 = true ∧ (after i).mac = mac ∧
    ∀ j, (after j).isFor ip4 = true → j = i
  others : ∀ j, (after j).isFor ip4 = false → after j = before j
  kept : ∀ j, (before j).IsOther ip4 → after j = before j ∨
    ∀ i, (before i).IsOther ip4 ∧ (before j).added ≤ (before i).added
  evicts : (∀ i, (before i).IsOther ip4) →
    ∃ j, (after j).isFor ip4 = true ∧ ∀ i, (before j).added ≤ (before i).added

/-- There is a slot for the address, or a free one, or one that was not filled later
than now. -/
def HasRoom (s : State ι) : Event ι → Prop
  | .insert ip4 _ now _ => ∃ i, (s.cache.entries i).isFor ip4 = true ∨
      (s.cache.entries i).valid = false ∨ (s.cache.entries i).added ≤ now
  | _ => True

section

variable {entries : Fin MAX_ARP_SIZE → ArpCacheEntry}

/-! ## The search for a slot -/

/-- The search stops at a free slot, or has found the first of the oldest ones below
the bound. -/
theorem slotLoop_eq_some {l : List (Fin MAX_ARP_SIZE)} {index : Option (Fin MAX_ARP_SIZE)}
    {oldest : ℤ} {i : Fin MAX_ARP_SIZE} (h : slotLoop entries l index oldest = some i) :
    (entries i).valid = false ∨ (∀ j ∈ l, (entries j).valid = true) ∧
      (index = some i ∧ (∀ j ∈ l, oldest ≤ (entries j).added) ∨
        (entries i).added < oldest ∧ ∀ j ∈ l, (entries i).added ≤ (entries j).added) := by
  induction l generalizing index oldest with
  | nil => exact Or.inr ⟨by simp, Or.inl ⟨h, by simp⟩⟩
  | cons a l ih =>
      rw [slotLoop] at h
      split_ifs at h with hfree hold
      · obtain rfl := Option.some.inj h
        exact Or.inl (by simpa using hfree)
      · have hvalid : (entries a).valid = true := by simpa using hfree
        rcases ih h with hi | ⟨hl, ⟨hai, hle⟩ | ⟨hlt, hle⟩⟩
        · exact Or.inl hi
        · obtain rfl := Option.some.inj hai
          exact Or.inr ⟨by simpa using ⟨hvalid, hl⟩, Or.inr ⟨hold, by simpa using hle⟩⟩
        · refine Or.inr ⟨by simpa using ⟨hvalid, hl⟩, Or.inr ⟨hlt.trans hold, ?_⟩⟩
          simpa using ⟨hlt.le, hle⟩
      · have hvalid : (entries a).valid = true := by simpa using hfree
        rw [not_lt] at hold
        rcases ih h with hi | ⟨hl, ⟨hindex, hle⟩ | ⟨hlt, hle⟩⟩
        · exact Or.inl hi
        · exact Or.inr ⟨by simpa using ⟨hvalid, hl⟩, Or.inl ⟨hindex, by simpa using ⟨hold, hle⟩⟩⟩
        · refine Or.inr ⟨by simpa using ⟨hvalid, hl⟩, Or.inr ⟨hlt, ?_⟩⟩
          simpa using ⟨(hlt.trans_le hold).le, hle⟩

theorem slotLoop_eq_none_iff {l : List (Fin MAX_ARP_SIZE)} {index : Option (Fin MAX_ARP_SIZE)}
    {oldest : ℤ} : slotLoop entries l index oldest = none ↔
      index = none ∧ ∀ j ∈ l, (entries j).valid = true ∧ oldest ≤ (entries j).added := by
  induction l generalizing index oldest with
  | nil => simp [slotLoop]
  | cons a l ih =>
      rw [slotLoop, List.forall_mem_cons]
      split_ifs with hfree hold
      · simp only [Bool.not_eq_true'] at hfree
        simp [hfree]
      · rw [ih]
        simp [not_le.mpr hold]
      · rw [ih]
        simp only [Bool.not_eq_true', Bool.not_eq_false] at hfree
        simp [hfree, not_lt.mp hold]

/-- The slot that is found is free, or it is the oldest one of a full table. -/
theorem findSlot_eq_some {now : ℤ} {i : Fin MAX_ARP_SIZE} (h : findSlot entries now = some i) :
    (entries i).valid = false ∨
      (∀ j, (entries j).valid = true) ∧ ∀ j, (entries i).added ≤ (entries j).added := by
  rcases slotLoop_eq_some h with hi | ⟨hvalid, ⟨hnone, -⟩ | ⟨-, hle⟩⟩
  · exact Or.inl hi
  · exact absurd hnone (by simp)
  · exact Or.inr ⟨fun j => hvalid j (mem_slots j), fun j => hle j (mem_slots j)⟩

theorem findSlot_eq_none_iff (now : ℤ) :
    findSlot entries now = none ↔ ∀ j, (entries j).valid = true ∧ now < (entries j).added := by
  rw [findSlot, slotLoop_eq_none_iff, and_iff_right rfl]
  exact ⟨fun h j => h j (mem_slots j), fun h j _ => h j⟩

/-- A slot is written exactly if there is room. -/
theorem writtenSlot_eq_none_iff (ip4 : UInt32) (now : ℤ) : writtenSlot entries ip4 now = none ↔
    ¬ ∃ i, (entries i).isFor ip4 = true ∨ (entries i).valid = false ∨
      (entries i).added ≤ now := by
  rw [writtenSlot, Option.or_eq_none_iff, find?_slots_eq_none_iff, findSlot_eq_none_iff,
    ← forall_and, not_exists]
  apply forall_congr'
  intro i
  rw [not_or, not_or, Bool.not_eq_true, Bool.not_eq_false, not_le]

theorem insertEntry_of_writtenSlot {ip4 : UInt32} {mac : Mac} {now later : ℤ}
    {i : Fin MAX_ARP_SIZE} (h : writtenSlot entries ip4 now = some i) :
    ∃ added, insertEntry entries ip4 mac now later =
      Function.update entries i { ip4 := ip4, mac := mac, added := added, valid := true } := by
  rw [writtenSlot] at h
  rw [insertEntry]
  cases hfind : slots.find? (fun i => (entries i).isFor ip4) with
  | some j =>
      rw [hfind, Option.some_or] at h
      obtain rfl := Option.some.inj h
      have hfor : (entries j).isFor ip4 = true :=
        List.find?_some (p := fun i => (entries i).isFor ip4) hfind
      obtain ⟨hvalid, hip⟩ := ((entries j).isFor_iff ip4).mp hfor
      refine ⟨now, congrArg (Function.update entries j) ?_⟩
      rw [← hip, ← hvalid]
  | none =>
      rw [hfind, Option.none_or] at h
      rw [h]
      exact ⟨later, rfl⟩

theorem insertEntry_of_writtenSlot_eq_none {ip4 : UInt32} {now : ℤ} (mac : Mac) (later : ℤ)
    (h : writtenSlot entries ip4 now = none) :
    insertEntry entries ip4 mac now later = entries := by
  rw [writtenSlot, Option.or_eq_none_iff] at h
  rw [insertEntry, h.1, h.2]

/-! ## One slot for each address -/

/-- No address has two slots. -/
def Unique (entries : Fin MAX_ARP_SIZE → ArpCacheEntry) : Prop :=
  ∀ i j ip4, (entries i).isFor ip4 = true → (entries j).isFor ip4 = true → i = j

theorem Unique.isFor_of_writtenSlot (h : Unique entries) {ip4 : UInt32} {now : ℤ}
    {i j : Fin MAX_ARP_SIZE} (hi : writtenSlot entries ip4 now = some i) (hji : j ≠ i) :
    (entries j).isFor ip4 = false := by
  rw [← Bool.not_eq_true]
  intro hj
  rw [writtenSlot] at hi
  cases hfind : slots.find? (fun i => (entries i).isFor ip4) with
  | some k =>
      rw [hfind, Option.some_or] at hi
      obtain rfl := Option.some.inj hi
      exact hji (h j k ip4 hj (List.find?_some (p := fun i => (entries i).isFor ip4) hfind))
  | none => exact Bool.false_ne_true (((find?_slots_eq_none_iff _).mp hfind j).symm.trans hj)

theorem Unique.insert (h : Unique entries) (ip4 : UInt32) (mac : Mac) (now later : ℤ) :
    Unique (insertEntry entries ip4 mac now later) := by
  cases hslot : writtenSlot entries ip4 now with
  | none =>
      rw [insertEntry_of_writtenSlot_eq_none mac later hslot]
      exact h
  | some i =>
      obtain ⟨added, heq⟩ := @insertEntry_of_writtenSlot entries ip4 mac now later i hslot
      have hother : ∀ j ip, j ≠ i → (entries j).isFor ip = true → ip ≠ ip4 := by
        rintro j ip hj hfor rfl
        exact Bool.false_ne_true ((h.isFor_of_writtenSlot hslot hj).symm.trans hfor)
      rw [heq]
      intro j k ip hj hk
      by_cases hji : j = i
      · by_cases hki : k = i
        · rw [hji, hki]
        · subst hji
          rw [Function.update_self, ArpCacheEntry.isFor_iff] at hj
          rw [Function.update_of_ne hki] at hk
          exact absurd hj.2.symm (hother k ip hki hk)
      · rw [Function.update_of_ne hji] at hj
        by_cases hki : k = i
        · subst hki
          rw [Function.update_self, ArpCacheEntry.isFor_iff] at hk
          exact absurd hk.2.symm (hother j ip hji hj)
        · rw [Function.update_of_ne hki] at hk
          exact h j k ip hj hk

theorem isFor_of_sweepEntry {entry : ArpCacheEntry} {now : ℤ} {ip4 : UInt32}
    (h : (sweepEntry now entry).isFor ip4 = true) : entry.isFor ip4 = true := by
  rw [sweepEntry] at h
  split_ifs at h
  · exact absurd ((ArpCacheEntry.isFor_iff _ _).mp h).1 Bool.false_ne_true
  · exact h

theorem Unique.step [DecidableEq ι] {s : State ι} (h : Unique s.cache.entries) (e : Event ι) :
    Unique (s.step e).cache.entries := by
  cases e with
  | append iface ip4 frame now => exact h
  | insert ip4 mac now later => exact h.insert ip4 mac now later
  | sweep now =>
      intro i j ip4 hi hj
      exact h i j ip4 (isFor_of_sweepEntry hi) (isFor_of_sweepEntry hj)

theorem unique_run [DecidableEq ι] (events : List (Event ι)) :
    Unique (State.run events).cache.entries :=
  Transition.foldl_invariant (fun s : State ι => Unique s.cache.entries)
    (fun _ e h => h.step e) .init events fun _ _ _ hi => absurd hi Bool.false_ne_true

/-! ## The insertion -/

/-- An insertion with a slot does what it is meant to do. -/
theorem Unique.replaces (h : Unique entries) {ip4 : UInt32} {mac : Mac} {now later : ℤ}
    {i : Fin MAX_ARP_SIZE} (hi : writtenSlot entries ip4 now = some i) :
    Replaces entries (insertEntry entries ip4 mac now later) ip4 mac now := by
  obtain ⟨added, heq⟩ := @insertEntry_of_writtenSlot entries ip4 mac now later i hi
  have hself : (insertEntry entries ip4 mac now later i).isFor ip4 = true ∧
      (insertEntry entries ip4 mac now later i).mac = mac := by
    rw [heq, Function.update_self, ArpCacheEntry.isFor_iff]
    exact ⟨⟨rfl, rfl⟩, rfl⟩
  have hframe : ∀ j, j ≠ i → insertEntry entries ip4 mac now later j = entries j := by
    intro j hj
    rw [heq, Function.update_of_ne hj]
  have hother : ∀ j, j ≠ i → (insertEntry entries ip4 mac now later j).isFor ip4 = false := by
    intro j hj
    rw [hframe j hj]
    exact h.isFor_of_writtenSlot hi hj
  have hnone : (entries i).IsOther ip4 →
      (∀ j, (entries j).IsOther ip4) ∧ ∀ j, (entries i).added ≤ (entries j).added := by
    rintro ⟨hvalid, hfor⟩
    rw [writtenSlot] at hi
    cases hfind : slots.find? (fun i => (entries i).isFor ip4) with
    | some k =>
        rw [hfind, Option.some_or] at hi
        obtain rfl := Option.some.inj hi
        have hk : (entries k).isFor ip4 = true :=
          List.find?_some (p := fun i => (entries i).isFor ip4) hfind
        exact absurd (hfor.symm.trans hk) Bool.false_ne_true
    | none =>
        rw [hfind, Option.none_or] at hi
        rcases findSlot_eq_some hi with hfree | ⟨hfull, hle⟩
        · exact absurd (hfree.symm.trans hvalid) Bool.false_ne_true
        · exact ⟨fun j => ⟨hfull j, (find?_slots_eq_none_iff _).mp hfind j⟩, hle⟩
  exact {
    in_range := ⟨i, hi, hframe⟩
    unique := by
      refine ⟨i, hself.1, hself.2, fun j hj => ?_⟩
      by_contra hji
      exact Bool.false_ne_true ((hother j hji).symm.trans hj)
    others := by
      intro j hj
      apply hframe
      rintro rfl
      exact Bool.false_ne_true (hj.symm.trans hself.1)
    kept := by
      intro j hj
      by_cases hji : j = i
      · subst hji
        exact Or.inr fun k => ⟨(hnone hj).1 k, (hnone hj).2 k⟩
      · exact Or.inl (hframe j hji)
    evicts := fun hfull => ⟨i, hself.1, (hnone (hfull i)).2⟩ }

theorem Unique.replaces_iff (h : Unique entries) (ip4 : UInt32) (mac : Mac) (now later : ℤ) :
    Replaces entries (insertEntry entries ip4 mac now later) ip4 mac now ↔
      ∃ i, (entries i).isFor ip4 = true ∨ (entries i).valid = false ∨
        (entries i).added ≤ now := by
  rw [← not_iff_not, ← writtenSlot_eq_none_iff]
  constructor
  · intro hnot
    by_contra hsome
    obtain ⟨i, hi⟩ := Option.ne_none_iff_exists'.mp hsome
    exact hnot (h.replaces hi)
  · intro hnone hreplaces
    obtain ⟨i, hi, -⟩ := hreplaces.in_range
    rw [hnone] at hi
    exact absurd hi (by simp)

end

/-- In a run all insertions do what they are meant to do exactly if there is room for
each of them. -/
theorem run_replaces_iff [DecidableEq ι] (events : List (Event ι)) :
    (∀ k (h : k < events.length) ip4 mac now later, events[k] = .insert ip4 mac now later →
      Replaces (State.run (events.take k)).cache.entries
        (State.run (events.take (k + 1))).cache.entries ip4 mac now) ↔
      Transition.Along State.step HasRoom .init events := by
  rw [Transition.along_iff_forall_getElem]
  apply forall_congr'
  intro k
  apply forall_congr'
  intro hk
  have hunique := unique_run (events.take k)
  have hnext : State.run (events.take (k + 1)) = (State.run (events.take k)).step events[k] :=
    Transition.foldl_take_succ State.step .init events hk
  change _ ↔ HasRoom (State.run (events.take k)) events[k]
  rw [hnext]
  cases events[k] with
  | append iface ip4 frame now => exact iff_of_true (by simp) trivial
  | insert ip4 mac now later =>
      rw [HasRoom, ← hunique.replaces_iff ip4 mac now later]
      constructor
      · exact fun h => h ip4 mac now later rfl
      · intro h ip mac' now' later' heq
        injection heq with hip hmac hnow hlater
        subst hip hmac hnow hlater
        exact h
  | sweep now => exact iff_of_true (by simp) trivial

/-- The table is filled at 100, and the clock is then set back to 0. -/
theorem not_replaces_clockSetBack :
    ¬ ∀ (events : List (Event Unit)) k (h : k < events.length) ip4 mac now later,
      events[k] = .insert ip4 mac now later →
      Replaces (State.run (events.take k)).cache.entries
        (State.run (events.take (k + 1))).cache.entries ip4 mac now := by
  intro h
  let mac : Mac := Vector.replicate ETH_ALEN 7
  let fill : List (Event Unit) :=
    (List.range MAX_ARP_SIZE).map fun n => .insert (UInt32.ofNat n) mac 100 100
  obtain ⟨i, hi, -⟩ := (h (fill ++ [.insert 40 mac 0 0]) 32 (by decide) 40 mac 0 0 rfl).in_range
  have hnone : writtenSlot (State.run fill).cache.entries 40 0 = none := by decide +kernel
  exact absurd (hi.symm.trans hnone) (by simp)

end Router

end NetworkLabs
