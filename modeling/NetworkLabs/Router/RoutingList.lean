import NetworkLabs.Library.RecordLists
import NetworkLabs.Router.PrefixMatch

/-!
# The routing table in memory

The entries of the table hang on `rtable`. Here `rtable.c` and the search in `ip_base.c` are
followed through the links. An entry is removed by its address, and the search returns one.
-/

namespace NetworkLabs

namespace Router

open CircularList

/-- The entries on `rtable`. -/
abbrev RtableMemory (ι : Type) := Records Unit ℕ (RtEntry ι)

variable {ι : Type}

namespace RtableMemory

/-! ## `rtable.c` -/

def initRtable (garbage : ListHead (Unit ⊕ ℕ)) : Option (RtableMemory ι) :=
  (Records.empty.mallocHead () garbage).initHead ()

/-- The flags of an entry stay 0, and its name is only printed. -/
def newRtEntry (s : RtableMemory ι) (entry : ℕ) (rt : RtEntry ι) (garbage : ListHead (Unit ⊕ ℕ)) :
    Option (RtableMemory ι) :=
  (s.malloc entry rt garbage).initEntry entry

def addRtEntry (s : RtableMemory ι) (entry : ℕ) : Option (RtableMemory ι) := s.addTail entry ()

def removeRtEntry (s : RtableMemory ι) (entry : ℕ) : Option (RtableMemory ι) := do
  let s ← s.delete entry
  s.free entry

def clearRtable (s : RtableMemory ι) (fuel : ℕ) : Option (RtableMemory ι) :=
  Records.drain id () removeRtEntry fuel s

/-! ## `ip_base.c` -/

/-- A round of the search, with the longest mask so far and the address of its entry. -/
def matchRound (dst : UInt32) (st : UInt32 × Option ℕ) (entry : ℕ) (rt : RtEntry ι) :
    UInt32 × Option ℕ :=
  if rt.mask > st.1 && rt.matches dst then (rt.mask, some entry) else st

def longestPrefixMatch (s : RtableMemory ι) (dst : UInt32) (fuel : ℕ) : Option (Option ℕ) := do
  let round := fun st entry rt => .ok (matchRound dst st entry rt)
  match ← s.forEachEntry () round fuel (0, none) with
  | .ok st => return st.2
  | .error (e : Empty) => nomatch e

/-! ## The table as a list -/

/-- The entries of the table with their addresses, and nothing else, are allocated. -/
def Holds (s : RtableMemory ι) (table : List (ℕ × RtEntry ι)) : Prop :=
  s.Stores fun _ => some table

variable {s : RtableMemory ι} {table : List (ℕ × RtEntry ι)} {fuel : ℕ}

theorem exists_initRtable (garbage : ListHead (Unit ⊕ ℕ)) :
    ∃ s : RtableMemory ι, initRtable garbage = some s ∧ s.Holds [] := by
  have hempty : (Records.empty : RtableMemory ι).Stores fun _ => none := Records.Stores.empty
  obtain ⟨s, hs, -, hstores⟩ := hempty.newHead (k := ()) rfl garbage
  rw [Records.update_unit] at hstores
  exact ⟨s, hs, hstores⟩

namespace Holds

theorem addRtEntry (h : s.Holds table) {entry : ℕ} (hentry : s.data entry = none) (rt : RtEntry ι)
    (garbage : ListHead (Unit ⊕ ℕ)) : ∃ s',
      (s.newRtEntry entry rt garbage).bind (fun s => RtableMemory.addRtEntry s entry) = some s' ∧
      s'.Holds (table ++ [(entry, rt)]) := by
  obtain ⟨s', hs', hstores⟩ := h.append (k := ()) rfl hentry rt ⟨.inr entry, .inr entry⟩
  rw [Records.update_unit] at hstores
  refine ⟨s', ?_, hstores⟩
  rw [newRtEntry, Records.initEntry_malloc]
  exact hs'

theorem removeRtEntry {entry : ℕ} {rt : RtEntry ι} {l₁ l₂ : List (ℕ × RtEntry ι)}
    (h : s.Holds (l₁ ++ (entry, rt) :: l₂)) :
    ∃ s', s.removeRtEntry entry = some s' ∧ s'.Holds (l₁ ++ l₂) := by
  obtain ⟨s₁, s₂, hdelete, -, hfree, hstores⟩ := h.remove (k := ()) rfl
  rw [Records.update_unit] at hstores
  exact ⟨s₂, by simp [RtableMemory.removeRtEntry, hdelete, hfree], hstores⟩

theorem clearRtable (h : s.Holds table) (hfuel : table.length < fuel) :
    ∃ s', s.clearRtable fuel = some s' ∧ s'.Holds [] := by
  refine Records.Stores.exists_drain (fun rest (s : RtableMemory ι) => s.Holds rest)
    (fun hinv => ⟨_, hinv, rfl⟩) ?_ h hfuel
  intro rest entry rt s hinv
  have hsplit : s.Holds ([] ++ (entry, rt) :: rest) := hinv
  exact hsplit.removeRtEntry

/-- What the search with addresses has found, if this is what the search of the list has. -/
structure Finds (table : List (ℕ × RtEntry ι)) (entry : Option ℕ) (rt : Option (RtEntry ι)) :
    Prop where
  none_iff : entry = none ↔ rt = none
  mem : ∀ a r, entry = some a → rt = some r → (a, r) ∈ table

theorem foldl_matchRound (dst : UInt32) {l : List (ℕ × RtEntry ι)} (hl : l ⊆ table)
    {m : UInt32} {entry : Option ℕ} {rt : Option (RtEntry ι)} (h : Finds table entry rt) :
    Finds table (l.foldl (fun st x => matchRound dst st x.1 x.2) (m, entry)).2
      ((l.map Prod.snd).foldl (Router.matchRound dst) (m, rt)).2 := by
  induction l generalizing m entry rt with
  | nil => exact h
  | cons x l ih =>
      have hrest : l ⊆ table := fun y hy => hl (List.mem_cons_of_mem x hy)
      rw [List.map_cons, List.foldl_cons, List.foldl_cons, matchRound, Router.matchRound]
      dsimp only
      split_ifs
      · refine ih hrest ⟨by simp, ?_⟩
        rintro a r ha hr
        rw [← Option.some.inj ha, ← Option.some.inj hr]
        exact hl List.mem_cons_self
      · exact ih hrest h

/-- The search finds the entry that is to be found, where it is in memory. -/
theorem longestPrefixMatch (h : s.Holds table) (hfuel : table.length < fuel) (dst : UInt32) :
    ∃ entry, s.longestPrefixMatch dst fuel = some entry ∧
      Finds table entry (Router.longestPrefixMatch (table.map Prod.snd) dst) := by
  have hloop := h.forEachEntry_eq (k := ()) rfl
    (fun st entry rt => (.ok (matchRound dst st entry rt) : Except Empty (UInt32 × Option ℕ)))
    hfuel (0, none)
  have hpure : table.foldlM (fun st x =>
      (.ok (matchRound dst st x.1 x.2) : Except Empty (UInt32 × Option ℕ))) (0, none) =
        .ok (table.foldl (fun st x => matchRound dst st x.1 x.2) (0, none)) := List.foldlM_pure
  rw [hpure] at hloop
  refine ⟨_, by rw [RtableMemory.longestPrefixMatch, hloop]; rfl, ?_⟩
  exact foldl_matchRound dst (List.Subset.refl table) ⟨by simp, fun _ _ ha => nomatch ha⟩

end Holds

/-! ## Runs -/

/-- The calls that change the table, with what `malloc` returns. -/
inductive Call (ι : Type) where
  | add (entry : ℕ) (rt : RtEntry ι) (garbage : ListHead (Unit ⊕ ℕ))
  | remove (entry : ℕ)
  | clear

def step (fuel : ℕ) (s : RtableMemory ι) : Call ι → Option (RtableMemory ι)
  | .add entry rt garbage => do
      let s ← s.newRtEntry entry rt garbage
      s.addRtEntry entry
  | .remove entry => s.removeRtEntry entry
  | .clear => s.clearRtable fuel

/-- The table as a list, after a call. -/
def stepTable (table : List (ℕ × RtEntry ι)) : Call ι → List (ℕ × RtEntry ι)
  | .add entry rt _ => table ++ [(entry, rt)]
  | .remove entry => table.filter fun x => x.1 != entry
  | .clear => []

theorem length_stepTable_le (table : List (ℕ × RtEntry ι)) (c : Call ι) :
    (stepTable table c).length ≤ table.length + 1 := by
  cases c with
  | add entry rt garbage =>
      rw [stepTable, List.length_append]
      rfl
  | remove entry => exact Nat.le_succ_of_le (List.length_filter_le _ _)
  | clear => exact Nat.zero_le _

theorem length_foldl_stepTable_le (table : List (ℕ × RtEntry ι)) (calls : List (Call ι)) :
    (calls.foldl stepTable table).length ≤ table.length + calls.length := by
  induction calls generalizing table with
  | nil => exact Nat.le_refl _
  | cons c calls ih =>
      have hstep := length_stepTable_le table c
      have hrest := ih (stepTable table c)
      rw [List.foldl_cons, List.length_cons]
      omega

/-- Memory that `malloc` returns is not allocated, and what is removed is there. -/
def Allowed (table : List (ℕ × RtEntry ι)) : Call ι → Prop
  | .add entry _ _ => entry ∉ table.map Prod.fst
  | .remove entry => entry ∈ table.map Prod.fst
  | .clear => True

instance (table : List (ℕ × RtEntry ι)) : (c : Call ι) → Decidable (Allowed table c)
  | .add entry _ _ => inferInstanceAs (Decidable (entry ∉ table.map Prod.fst))
  | .remove entry => inferInstanceAs (Decidable (entry ∈ table.map Prod.fst))
  | .clear => isTrue trivial

def AllAllowed : List (ℕ × RtEntry ι) → List (Call ι) → Prop
  | _, [] => True
  | table, c :: calls => Allowed table c ∧ AllAllowed (stepTable table c) calls

def decidableAllAllowed :
    (table : List (ℕ × RtEntry ι)) → (calls : List (Call ι)) → Decidable (AllAllowed table calls)
  | _, [] => isTrue trivial
  | table, c :: calls =>
      have := decidableAllAllowed (stepTable table c) calls
      inferInstanceAs (Decidable (Allowed table c ∧ AllAllowed (stepTable table c) calls))

instance (table : List (ℕ × RtEntry ι)) (calls : List (Call ι)) :
    Decidable (AllAllowed table calls) := decidableAllAllowed table calls

def run (fuel : ℕ) (garbage : ListHead (Unit ⊕ ℕ)) (calls : List (Call ι)) :
    Option (RtableMemory ι) := do
  let s ← initRtable garbage
  calls.foldlM (step fuel) s

namespace Holds

theorem not_allocated (h : s.Holds table) {entry : ℕ} (hentry : entry ∉ table.map Prod.fst) :
    s.data entry = none := by
  rw [← Option.not_isSome_iff_eq_none]
  intro hsome
  obtain ⟨k, l, rt, hl, hmem⟩ := h.held hsome
  obtain rfl := Option.some.inj hl
  exact hentry (List.mem_map_of_mem hmem)

theorem step (h : s.Holds table) (hfuel : table.length < fuel) {c : Call ι}
    (hc : Allowed table c) :
    ∃ s', RtableMemory.step fuel s c = some s' ∧ s'.Holds (stepTable table c) := by
  cases c with
  | add entry rt garbage => exact h.addRtEntry (h.not_allocated hc) rt garbage
  | remove entry =>
      obtain ⟨⟨a, rt⟩, hmem, rfl⟩ := List.mem_map.mp hc
      obtain ⟨l₁, l₂, rfl⟩ := List.append_of_mem hmem
      obtain ⟨s', hs', hholds⟩ := h.removeRtEntry
      refine ⟨s', hs', ?_⟩
      have hothers : ∀ x ∈ l₁ ++ l₂, (x.1 != a) = true := fun x hx =>
        bne_iff_ne.mpr (Records.Stores.ne_of_mem (k := ()) h rfl hx)
      rw [stepTable, List.filter_append, List.filter_cons_of_neg (by simp),
        ← List.filter_append, List.filter_eq_self.mpr hothers]
      exact hholds
  | clear => exact h.clearRtable hfuel

theorem steps (h : s.Holds table) {calls : List (Call ι)}
    (hfuel : table.length + calls.length < fuel + 1) (hcalls : AllAllowed table calls) :
    ∃ s', calls.foldlM (RtableMemory.step fuel) s = some s' ∧
      s'.Holds (calls.foldl stepTable table) := by
  induction calls generalizing s table with
  | nil => exact ⟨s, rfl, h⟩
  | cons c calls ih =>
      rw [List.length_cons] at hfuel
      have hlt : table.length < fuel := by omega
      obtain ⟨s₁, hs₁, hholds⟩ := h.step hlt hcalls.1
      have hlen := length_stepTable_le table c
      have hrest : (stepTable table c).length + calls.length < fuel + 1 := by omega
      obtain ⟨s', hs', hend⟩ := ih hholds hrest hcalls.2
      refine ⟨s', ?_, hend⟩
      rw [List.foldlM_cons, hs₁]
      exact hs'

end Holds

/-- No run faults: the memory holds the entries that have been added and not removed, in their
order, and the search returns the address of the one that the list determines. -/
theorem run_finds (garbage : ListHead (Unit ⊕ ℕ)) (calls : List (Call ι)) (dst : UInt32)
    (hfuel : calls.length < fuel) (h : AllAllowed [] calls) :
    ∃ s entry, run fuel garbage calls = some s ∧ s.Holds (calls.foldl stepTable []) ∧
      s.longestPrefixMatch dst fuel = some entry ∧
      Holds.Finds (calls.foldl stepTable []) entry
        (Router.longestPrefixMatch ((calls.foldl stepTable []).map Prod.snd) dst) := by
  obtain ⟨s₀, hs₀, hholds₀⟩ := exists_initRtable (ι := ι) garbage
  have hlt : ([] : List (ℕ × RtEntry ι)).length + calls.length < fuel + 1 := by
    rw [List.length_nil]
    omega
  obtain ⟨s, hs, hholds⟩ := hholds₀.steps hlt h
  have hlen := length_foldl_stepTable_le [] calls
  rw [List.length_nil, Nat.zero_add] at hlen
  obtain ⟨entry, hentry, hfinds⟩ := hholds.longestPrefixMatch (hlen.trans_lt hfuel) dst
  exact ⟨s, entry, by rw [run, hs₀]; exact hs, hholds, hentry, hfinds⟩

/-- An entry is removed, and its memory is used again. -/
def reuse : List (Call Unit) :=
  [.add 0 ⟨0x0a000000, 0xff000000, 0, ()⟩ ⟨.inr 7, .inl ()⟩,
    .add 1 ⟨0x0a000100, 0xffffff00, 1, ()⟩ ⟨.inr 1, .inr 0⟩, .remove 0,
    .add 0 ⟨0x0a000000, 0xffff0000, 2, ()⟩ ⟨.inr 9, .inr 9⟩]

theorem run_finds_reuse : ∃ s entry, run 5 ⟨.inl (), .inl ()⟩ reuse = some s ∧
    s.Holds (reuse.foldl stepTable []) ∧ s.longestPrefixMatch 0x0a000105 5 = some entry ∧
    Holds.Finds (reuse.foldl stepTable []) entry
      (Router.longestPrefixMatch ((reuse.foldl stepTable []).map Prod.snd) 0x0a000105) :=
  run_finds _ reuse 0x0a000105 (by decide) (by decide)

end RtableMemory

end Router

end NetworkLabs
