import Mathlib

/-!
# Maps with ordered iteration

`SortedMap α` is a finite map from natural numbers to `α` whose entries are
kept as one list in increasing order of their keys, so that a traversal of the
map is a fold over `entries`. The order is a field of the structure: a map with
two entries under one key, or with entries out of order, cannot be built.
Every fact about the two updates is an equivalence of memberships.
-/

/-- A finite map whose entries are listed in increasing order of the keys. -/
structure SortedMap (α : Type*) where
  entries : List (ℕ × α)
  sorted : entries.Pairwise (fun e f => e.1 < f.1)

namespace SortedMap

variable {α : Type*}

instance : Membership (ℕ × α) (SortedMap α) := ⟨fun m e => e ∈ m.entries⟩

instance [DecidableEq α] : DecidableEq (SortedMap α) := fun m n =>
  decidable_of_iff (m.entries = n.entries) (by
    cases m
    cases n
    simp)

theorem mem_def (m : SortedMap α) (e : ℕ × α) : e ∈ m ↔ e ∈ m.entries := Iff.rfl

/-- The map without entries. -/
def empty : SortedMap α := ⟨[], List.Pairwise.nil⟩

@[simp] theorem entries_empty : (empty : SortedMap α).entries = [] := rfl

@[simp] theorem not_mem_empty (e : ℕ × α) : e ∉ (empty : SortedMap α) :=
  List.not_mem_nil

/-- The keys, in increasing order. -/
def keys (m : SortedMap α) : List ℕ := m.entries.map Prod.fst

/-- An entry put in front of the first larger key; the entry that has the same
key is replaced. -/
def insertEntry (k : ℕ) (v : α) : List (ℕ × α) → List (ℕ × α)
  | [] => [(k, v)]
  | e :: l =>
      if k < e.1 then (k, v) :: e :: l
      else if k = e.1 then (k, v) :: l
      else e :: insertEntry k v l

theorem mem_insertEntry (k : ℕ) (v : α) (l : List (ℕ × α))
    (h : l.Pairwise (fun e f => e.1 < f.1)) (e : ℕ × α) :
    e ∈ insertEntry k v l ↔ e = (k, v) ∨ (e ∈ l ∧ e.1 ≠ k) := by
  induction l with
  | nil => simp [insertEntry]
  | cons f l ih =>
      rw [List.pairwise_cons] at h
      have hgt : e ∈ l → f.1 < e.1 := fun he => h.1 e he
      have hf : e = f → e.1 = f.1 := fun he => by rw [he]
      rw [insertEntry]
      split_ifs with hlt heq
      · simp only [List.mem_cons]
        grind
      · simp only [List.mem_cons]
        grind
      · simp only [List.mem_cons, ih h.2]
        grind

theorem insertEntry_sorted (k : ℕ) (v : α) (l : List (ℕ × α))
    (h : l.Pairwise (fun e f => e.1 < f.1)) :
    (insertEntry k v l).Pairwise (fun e f => e.1 < f.1) := by
  induction l with
  | nil => simp [insertEntry]
  | cons f l ih =>
      have hcons := List.pairwise_cons.mp h
      rw [insertEntry]
      split_ifs with hlt heq
      · refine List.pairwise_cons.mpr ⟨?_, h⟩
        intro e he
        rcases List.mem_cons.mp he with rfl | he
        · exact hlt
        · exact lt_trans hlt (hcons.1 e he)
      · refine List.pairwise_cons.mpr ⟨?_, hcons.2⟩
        intro e he
        exact heq ▸ hcons.1 e he
      · refine List.pairwise_cons.mpr ⟨?_, ih hcons.2⟩
        intro e he
        rcases (mem_insertEntry k v l hcons.2 e).mp he with rfl | he
        · exact lt_of_le_of_ne (not_lt.mp hlt) (Ne.symm heq)
        · exact hcons.1 e he.1

/-- Assignment to a key: the entry is added, or replaces the one there. -/
def insert (m : SortedMap α) (k : ℕ) (v : α) : SortedMap α :=
  ⟨insertEntry k v m.entries, insertEntry_sorted k v m.entries m.sorted⟩

@[simp] theorem mem_insert (m : SortedMap α) (k : ℕ) (v : α) (e : ℕ × α) :
    e ∈ m.insert k v ↔ e = (k, v) ∨ (e ∈ m ∧ e.1 ≠ k) :=
  mem_insertEntry k v m.entries m.sorted e

/-- An entry behind all others is listed last. -/
theorem entries_insert_of_lt (m : SortedMap α) (k : ℕ) (v : α) (h : ∀ e ∈ m, e.1 < k) :
    (m.insert k v).entries = m.entries ++ [(k, v)] := by
  have hlist : ∀ l : List (ℕ × α), (∀ e ∈ l, e.1 < k) → insertEntry k v l = l ++ [(k, v)] := by
    intro l
    induction l with
    | nil => exact fun _ => rfl
    | cons e l ih =>
        intro hl
        have he := hl e List.mem_cons_self
        rw [insertEntry, if_neg (not_lt.mpr he.le), if_neg he.ne',
          ih fun f hf => hl f (List.mem_cons_of_mem e hf), List.cons_append]
  exact hlist m.entries h

/-- The map without the entries whose keys are in `ks`. -/
def eraseAll (m : SortedMap α) (ks : List ℕ) : SortedMap α :=
  ⟨m.entries.filter (fun e => e.1 ∉ ks), m.sorted.filter _⟩

@[simp] theorem mem_eraseAll (m : SortedMap α) (ks : List ℕ) (e : ℕ × α) :
    e ∈ m.eraseAll ks ↔ e ∈ m ∧ e.1 ∉ ks := by
  simp [mem_def, eraseAll]

theorem eraseAll_nil (m : SortedMap α) : m.eraseAll [] = m := by
  cases m
  simp [eraseAll]

theorem keys_nodup (m : SortedMap α) : m.keys.Nodup := by
  rw [keys, List.Nodup, List.pairwise_map]
  exact m.sorted.imp fun hlt => hlt.ne

theorem entries_nodup (m : SortedMap α) : m.entries.Nodup :=
  m.keys_nodup.of_map

theorem mem_keys (m : SortedMap α) (k : ℕ) : k ∈ m.keys ↔ ∃ v, (k, v) ∈ m := by
  simp [keys, mem_def]

/-- A key occurs in one entry at most. -/
theorem eq_of_key_eq (m : SortedMap α) (e f : ℕ × α) (he : e ∈ m) (hf : f ∈ m)
    (h : e.1 = f.1) : e = f :=
  List.inj_on_of_nodup_map m.keys_nodup he hf h

/-- The map with every value replaced by its image. -/
def mapValues {β : Type*} (f : α → β) (m : SortedMap α) : SortedMap β :=
  ⟨m.entries.map fun e => (e.1, f e.2), List.pairwise_map.mpr m.sorted⟩

@[simp] theorem entries_mapValues {β : Type*} (f : α → β) (m : SortedMap α) :
    (m.mapValues f).entries = m.entries.map fun e => (e.1, f e.2) := rfl

theorem mem_mapValues {β : Type*} (f : α → β) (m : SortedMap α) (e : ℕ × β) :
    e ∈ m.mapValues f ↔ ∃ d ∈ m, (d.1, f d.2) = e := by
  simp only [mem_def, entries_mapValues, List.mem_map]

theorem mapValues_insert {β : Type*} (f : α → β) (m : SortedMap α) (k : ℕ) (v : α) :
    (m.insert k v).mapValues f = (m.mapValues f).insert k (f v) := by
  have hlist : ∀ l : List (ℕ × α), (insertEntry k v l).map (fun e => (e.1, f e.2)) =
      insertEntry k (f v) (l.map fun e => (e.1, f e.2)) := by
    intro l
    induction l with
    | nil => rfl
    | cons e l ih =>
        simp only [insertEntry, List.map_cons]
        split_ifs
        · rfl
        · rfl
        · rw [List.map_cons, ih]
  simp only [insert, mapValues, hlist]

theorem mapValues_eraseAll {β : Type*} (f : α → β) (m : SortedMap α) (ks : List ℕ) :
    (m.eraseAll ks).mapValues f = (m.mapValues f).eraseAll ks := by
  simp only [eraseAll, mapValues, List.filter_map]
  rfl

/-- The rule for a loop over the entries: what holds before the first entry,
and is carried over each entry with the smaller keys behind it, holds of the
whole map after the loop. -/
theorem foldl_induction {β : Type*} (m : SortedMap α) (f : β → ℕ × α → β)
    (P : List (ℕ × α) → β → Prop) (b : β) (hinit : P [] b)
    (hstep : ∀ seen e b, (∀ d ∈ seen, d ∈ m) → e ∈ m → (∀ d ∈ seen, d.1 < e.1) →
      P seen b → P (seen ++ [e]) (f b e)) :
    P m.entries (m.entries.foldl f b) := by
  have hloop : ∀ (todo seen : List (ℕ × α)) (b : β), m.entries = seen ++ todo →
      P seen b → P m.entries (todo.foldl f b) := by
    intro todo
    induction todo with
    | nil =>
        intro seen b hsplit hP
        rw [hsplit, List.append_nil]
        exact hP
    | cons e todo ih =>
        intro seen b hsplit hP
        have hsorted := m.sorted
        rw [hsplit] at hsorted
        have hlt : ∀ d ∈ seen, d.1 < e.1 := fun d hd =>
          (List.pairwise_append.mp hsorted).2.2 d hd e List.mem_cons_self
        have hmem : ∀ d ∈ seen, d ∈ m := fun d hd => by
          rw [mem_def, hsplit]
          exact List.mem_append_left _ hd
        have he : e ∈ m := by
          rw [mem_def, hsplit]
          exact List.mem_append_right _ List.mem_cons_self
        exact ih (seen ++ [e]) (f b e) (by rw [hsplit]; simp) (hstep seen e b hmem he hlt hP)
  exact hloop m.entries [] b rfl hinit

end SortedMap
