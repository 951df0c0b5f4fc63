import NetworkLabs.Library.CircularList

/-!
# Records that hang on circular lists

A program that keeps records in circular lists allocates a record, hangs it on one of
several heads, reads and writes its fields, and unlinks it before it is freed. Here the
links of the heads and of the records are in one memory, and what a record holds beside its
links is kept apart. An access to a head or a record that is not allocated faults.

`Stores s lists` says that the heads have these lists of records, that each record is in one
of them, and that nothing else is allocated. The operations are operations on the lists, and
none of them faults.
-/

namespace CircularList

universe u

/-- The heads and the records that are allocated. -/
structure Records (κ α β : Type*) where
  links : Memory (κ ⊕ α)
  data : α → Option β

variable {κ α β ρ σ : Type u}

namespace Records

def empty : Records κ α β where
  links := fun _ => none
  data := fun _ => none

section

variable [DecidableEq κ] [DecidableEq α]

def mallocHead (s : Records κ α β) (k : κ) (garbage : ListHead (κ ⊕ α)) : Records κ α β :=
  { s with links := s.links.alloc (.inl k) garbage }

def initHead (s : Records κ α β) (k : κ) : Option (Records κ α β) :=
  (initListHead s.links (.inl k)).map fun links => { s with links := links }

def freeHead (s : Records κ α β) (k : κ) : Option (Records κ α β) :=
  (s.links.free (.inl k)).map fun links => { s with links := links }

/-- A new record, whose fields are set. -/
def malloc (s : Records κ α β) (a : α) (b : β) (garbage : ListHead (κ ⊕ α)) : Records κ α β where
  links := s.links.alloc (.inr a) garbage
  data := Function.update s.data a (some b)

def initEntry (s : Records κ α β) (a : α) : Option (Records κ α β) :=
  (initListHead s.links (.inr a)).map fun links => { s with links := links }

def addTail (s : Records κ α β) (a : α) (k : κ) : Option (Records κ α β) :=
  (listAddTail s.links (.inr a) (.inl k)).map fun links => { s with links := links }

def delete (s : Records κ α β) (a : α) : Option (Records κ α β) :=
  (listDeleteEntry s.links (.inr a)).map fun links => { s with links := links }

def free (s : Records κ α β) (a : α) : Option (Records κ α β) := do
  let links ← s.links.free (.inr a)
  let _ ← s.data a
  return { links := links, data := Function.update s.data a none }

def write (s : Records κ α β) (a : α) (f : β → β) : Option (Records κ α β) :=
  (s.data a).map fun b => { s with data := Function.update s.data a (some (f b)) }

/-- The body of a loop is given the record of a node. A head is not part of one. -/
def atEntry {τ : Type*} (body : α → Option τ) : κ ⊕ α → Option τ
  | .inl _ => none
  | .inr a => body a

/-- `list_for_each_entry`, where the body reads the record. -/
def forEachEntry (s : Records κ α β) (k : κ) (body : σ → α → β → Except ρ σ) (fuel : ℕ) (x : σ) :
    Option (Except ρ σ) :=
  listForEach s.links (.inl k)
    (fun x => atEntry fun a => (s.data a).map (body x a)) fuel x

/-- A loop that looks for a record, and is left with it. -/
def findEntry (s : Records κ α β) (k : κ) (p : β → Bool) (fuel : ℕ) : Option (Option α) :=
  (s.forEachEntry k (fun _ a b => if p b then .error a else .ok PUnit.unit) fuel PUnit.unit).map
    fun found => match found with
      | .error a => some a
      | .ok _ => none

/-- `list_for_each_entry_safe`. -/
def forEachEntrySafe (records : σ → Records κ α β) (k : κ) (body : σ → α → Option σ) (fuel : ℕ)
    (x : σ) : Option σ :=
  listForEachSafe (fun x => (records x).links) (.inl k)
    (fun x => atEntry (body x)) fuel x

/-- A loop that takes the first record until the list is empty. -/
def drain (records : σ → Records κ α β) (k : κ) (body : σ → α → Option σ) (fuel : ℕ) (x : σ) :
    Option σ :=
  listDrain (fun x => (records x).links) (.inl k)
    (fun x => atEntry (body x)) fuel x

/-- A round of a loop that frees the records of a kind and counts them. -/
def removeRound (p : β → Bool) (st : Records κ α β × ℕ) (a : α) : Option (Records κ α β × ℕ) := do
  let b ← st.1.data a
  if p b then
    let s ← st.1.delete a
    let s ← s.free a
    return (s, st.2 + 1)
  else return st

def removeIf (p : β → Bool) (k : κ) (fuel : ℕ) (st : Records κ α β × ℕ) :
    Option (Records κ α β × ℕ) :=
  forEachEntrySafe Prod.fst k (removeRound p) fuel st

end

/-- The links of a new record can be set at once: whatever was in them, they point to
itself. -/
theorem initEntry_malloc [DecidableEq κ] [DecidableEq α] (s : Records κ α β) (a : α) (b : β)
    (garbage : ListHead (κ ⊕ α)) :
    (s.malloc a b garbage).initEntry a = some (s.malloc a b ⟨.inr a, .inr a⟩) := by
  simp [initEntry, malloc, initListHead, Memory.alloc, Memory.setPrev, Memory.setNext]

/-- A list that is the only one. -/
theorem update_unit {τ : Type*} (x y : τ) : Function.update (fun _ : Unit => x) () y = fun _ => y :=
  Function.update_eq_const_of_subsingleton () y _

/-- The record is in one of the lists. -/
def Listed (lists : κ → Option (List (α × β))) (a : α) : Prop :=
  ∃ k l b, lists k = some l ∧ (a, b) ∈ l

/-- The record is in the list of another head. -/
def Elsewhere (lists : κ → Option (List (α × β))) (k : κ) (a : α) : Prop :=
  ∃ k' l b, k' ≠ k ∧ lists k' = some l ∧ (a, b) ∈ l

/-- The nodes of a list. -/
def nodes (l : List (α × β)) : List (κ ⊕ α) := l.map fun x => .inr x.1

/-- The heads that are allocated have these lists of records, and all records that are
allocated are in them. -/
structure Stores (s : Records κ α β) (lists : κ → Option (List (α × β))) : Prop where
  represents : ∀ {k l}, lists k = some l → Represents s.links (.inl k) (nodes l)
  data_eq : ∀ {k l a b}, lists k = some l → (a, b) ∈ l → s.data a = some b
  owner : ∀ {k k' l l' a b b'}, lists k = some l → lists k' = some l' → (a, b) ∈ l →
    (a, b') ∈ l' → k = k'
  heads : ∀ {k}, (s.links (.inl k)).isSome → (lists k).isSome
  linked : ∀ {a}, (s.links (.inr a)).isSome → Listed lists a
  held : ∀ {a}, (s.data a).isSome → Listed lists a

theorem mem_nodes {l : List (α × β)} {a : α} :
    (.inr a : κ ⊕ α) ∈ nodes l ↔ ∃ b, (a, b) ∈ l := by
  simp [nodes]

theorem inl_notMem_nodes {l : List (α × β)} {k : κ} : (.inl k : κ ⊕ α) ∉ nodes l := by
  simp [nodes]

theorem listed_iff {lists : κ → Option (List (α × β))} {k : κ} {l : List (α × β)} {a : α}
    (hk : lists k = some l) : Listed lists a ↔ (∃ b, (a, b) ∈ l) ∨ Elsewhere lists k a := by
  constructor
  · rintro ⟨k', l', b, hk', hmem⟩
    by_cases heq : k' = k
    · subst heq
      rw [hk, Option.some.injEq] at hk'
      exact Or.inl ⟨b, hk' ▸ hmem⟩
    · exact Or.inr ⟨k', l', b, heq, hk', hmem⟩
  · rintro (⟨b, hmem⟩ | ⟨k', l', b, -, hk', hmem⟩)
    · exact ⟨k, l, b, hk, hmem⟩
    · exact ⟨k', l', b, hk', hmem⟩

namespace Stores

variable {s s' : Records κ α β} {lists : κ → Option (List (α × β))} {k : κ}
  {l l' l₁ l₂ : List (α × β)} {a : α} {b : β}

theorem empty : Stores (Records.empty : Records κ α β) fun _ => none where
  represents := by simp
  data_eq := by simp
  owner := by simp
  heads := by simp [Records.empty]
  linked := by simp [Records.empty]
  held := by simp [Records.empty]

/-- A record that is not allocated is in no list, and its links are free. -/
theorem not_listed (h : Stores s lists) (ha : s.data a = none) : ¬ Listed lists a := by
  rintro ⟨k, l, b, hk, hmem⟩
  rw [h.data_eq hk hmem] at ha
  exact Option.some_ne_none b ha

theorem not_elsewhere (h : Stores s lists) (hk : lists k = some l) (hmem : (a, b) ∈ l) :
    ¬ Elsewhere lists k a := by
  rintro ⟨k', l', b', hne, hk', hmem'⟩
  exact hne (h.owner hk' hk hmem' hmem)

theorem nodup (h : Stores s lists) (hk : lists k = some l) : (l.map Prod.fst).Nodup := by
  have hnodup := (List.nodup_cons.mp (h.represents hk).nodup).2
  have hnodes : (nodes l : List (κ ⊕ α)) = (l.map Prod.fst).map Sum.inr := by simp [nodes]
  rw [hnodes] at hnodup
  exact hnodup.of_map _

/-- The other records of a list have other addresses. -/
theorem ne_of_mem (h : Stores s lists) (hk : lists k = some (l₁ ++ (a, b) :: l₂)) {y : α × β}
    (hy : y ∈ l₁ ++ l₂) : y.1 ≠ a := by
  have hnodup := h.nodup hk
  rw [List.map_append, List.map_cons, List.nodup_middle, ← List.map_append,
    List.nodup_cons] at hnodup
  exact ne_of_mem_of_not_mem (List.mem_map_of_mem hy) hnodup.1

variable [DecidableEq κ]

/-- The list of one head is replaced, and the records of the other heads are left alone. -/
theorem set (h : Stores s lists) (hrep : Represents s'.links (.inl k) (nodes l'))
    (hdata : ∀ {a b}, (a, b) ∈ l' → s'.data a = some b)
    (hnew : ∀ {a b}, (a, b) ∈ l' → ¬ Elsewhere lists k a)
    (hheads : ∀ k', k' ≠ k → s'.links (.inl k') = s.links (.inl k'))
    (hsame : ∀ a, Elsewhere lists k a → s'.links (.inr a) = s.links (.inr a) ∧
      s'.data a = s.data a)
    (hlinked : ∀ {a}, (s'.links (.inr a)).isSome → (∃ b, (a, b) ∈ l') ∨ Elsewhere lists k a)
    (hheld : ∀ {a}, (s'.data a).isSome → (∃ b, (a, b) ∈ l') ∨ Elsewhere lists k a) :
    Stores s' (Function.update lists k (some l')) := by
  have hself : Function.update lists k (some l') k = some l' := Function.update_self _ _ _
  have hlisted : ∀ {a}, (∃ b, (a, b) ∈ l') ∨ Elsewhere lists k a →
      Listed (Function.update lists k (some l')) a := by
    rintro a (⟨b, hmem⟩ | ⟨k', l, b, hne, hk', hmem⟩)
    · exact ⟨k, l', b, hself, hmem⟩
    · exact ⟨k', l, b, by rw [Function.update_of_ne hne, hk'], hmem⟩
  refine ⟨?_, ?_, ?_, ?_, fun ha => hlisted (hlinked ha), fun ha => hlisted (hheld ha)⟩
  · intro k' l hk'
    by_cases hne : k' = k
    · subst hne
      rw [hself, Option.some.injEq] at hk'
      exact hk' ▸ hrep
    · rw [Function.update_of_ne hne] at hk'
      apply (h.represents hk').frame
      intro node hnode
      rcases List.mem_cons.mp hnode with rfl | hnode
      · exact hheads k' hne
      · cases node with
        | inl k'' => exact absurd hnode inl_notMem_nodes
        | inr a =>
            obtain ⟨b, hmem⟩ := mem_nodes.mp hnode
            exact (hsame a ⟨k', l, b, hne, hk', hmem⟩).1
  · intro k' l a b hk' hmem
    by_cases hne : k' = k
    · subst hne
      rw [hself, Option.some.injEq] at hk'
      exact hdata (hk' ▸ hmem)
    · rw [Function.update_of_ne hne] at hk'
      rw [(hsame a ⟨k', l, b, hne, hk', hmem⟩).2, h.data_eq hk' hmem]
  · intro k₁ k₂ m₁ m₂ a b₁ b₂ hk₁ hk₂ hmem₁ hmem₂
    by_cases hne₁ : k₁ = k
    · by_cases hne₂ : k₂ = k
      · rw [hne₁, hne₂]
      · rw [hne₁, hself, Option.some.injEq] at hk₁
        rw [Function.update_of_ne hne₂] at hk₂
        exact absurd ⟨k₂, m₂, b₂, hne₂, hk₂, hmem₂⟩ (hnew (hk₁ ▸ hmem₁))
    · rw [Function.update_of_ne hne₁] at hk₁
      by_cases hne₂ : k₂ = k
      · rw [hne₂, hself, Option.some.injEq] at hk₂
        exact absurd ⟨k₁, m₁, b₁, hne₁, hk₁, hmem₁⟩ (hnew (hk₂ ▸ hmem₂))
      · rw [Function.update_of_ne hne₂] at hk₂
        exact h.owner hk₁ hk₂ hmem₁ hmem₂
  · intro k' hk'
    by_cases hne : k' = k
    · rw [hne, hself]
      rfl
    · rw [Function.update_of_ne hne]
      exact h.heads (hheads k' hne ▸ hk')

variable [DecidableEq α]

theorem newHead (h : Stores s lists) (hk : lists k = none) (garbage : ListHead (κ ⊕ α)) :
    ∃ s', (s.mallocHead k garbage).initHead k = some s' ∧ s'.data = s.data ∧
      Stores s' (Function.update lists k (some [])) := by
  have hsome : (s.links.alloc (.inl k) garbage (.inl k)).isSome := by simp [Memory.alloc]
  obtain ⟨m', hm', hrep, hedited⟩ := Represents.init hsome
  have heq : ∀ node, node ≠ .inl k → m' node = s.links node := by
    intro node hne
    rw [hedited.eq_of node (by simpa using hne), Memory.alloc, Function.update_of_ne hne]
  have helse : ∀ {a}, Listed lists a → Elsewhere lists k a := by
    rintro a ⟨k', l, b, hk', hmem⟩
    refine ⟨k', l, b, ?_, hk', hmem⟩
    rintro rfl
    rw [hk] at hk'
    exact Option.some_ne_none _ hk'.symm
  refine ⟨{ s with links := m' }, by simp [initHead, mallocHead, hm'], rfl,
    h.set hrep ?_ ?_ ?_ ?_ ?_ ?_⟩
  · exact fun hmem => absurd hmem List.not_mem_nil
  · exact fun hmem => absurd hmem List.not_mem_nil
  · exact fun k' hne => heq _ (by simpa using hne)
  · exact fun a _ => ⟨heq _ Sum.inr_ne_inl, rfl⟩
  · intro a ha
    dsimp only at ha
    rw [heq _ Sum.inr_ne_inl] at ha
    exact Or.inr (helse (h.linked ha))
  · exact fun ha => Or.inr (helse (h.held ha))

theorem freeHead (h : Stores s lists) (hk : lists k = some []) :
    ∃ s', s.freeHead k = some s' ∧ Stores s' (Function.update lists k none) := by
  have hsome := (h.represents hk).isSome List.mem_cons_self
  obtain ⟨links, hlinks⟩ := Option.isSome_iff_exists.mp hsome
  have hne_of : ∀ {k' l}, Function.update lists k none k' = some l →
      k' ≠ k ∧ lists k' = some l := by
    intro k' l hk'
    by_cases hne : k' = k
    · rw [hne, Function.update_self] at hk'
      exact absurd hk'.symm (Option.some_ne_none l)
    · rw [Function.update_of_ne hne] at hk'
      exact ⟨hne, hk'⟩
  have hlisted : ∀ {a}, Listed lists a → Listed (Function.update lists k none) a := by
    rintro a ⟨k', l, b, hk', hmem⟩
    refine ⟨k', l, b, ?_, hmem⟩
    rwa [Function.update_of_ne]
    rintro rfl
    rw [hk, Option.some.injEq] at hk'
    exact absurd (hk' ▸ hmem) List.not_mem_nil
  refine ⟨{ s with links := Function.update s.links (.inl k) none },
    by rw [Records.freeHead, Memory.free, hlinks]; rfl, ?_, ?_, ?_, ?_, ?_, ?_⟩
  · intro k' l hk'
    obtain ⟨hne, hk'⟩ := hne_of hk'
    apply (h.represents hk').frame
    intro node hnode
    apply Function.update_of_ne
    rintro rfl
    rcases List.mem_cons.mp hnode with heq | hnode
    · exact hne (Sum.inl.inj heq).symm
    · exact inl_notMem_nodes hnode
  · exact fun hk' hmem => h.data_eq (hne_of hk').2 hmem
  · exact fun hk₁ hk₂ hmem₁ hmem₂ => h.owner (hne_of hk₁).2 (hne_of hk₂).2 hmem₁ hmem₂
  · intro k' hk'
    dsimp only at hk'
    by_cases hne : k' = k
    · rw [hne, Function.update_self] at hk'
      exact absurd hk' Bool.false_ne_true
    · rw [Function.update_of_ne (by simpa using hne)] at hk'
      rw [Function.update_of_ne hne]
      exact h.heads hk'
  · intro a ha
    dsimp only at ha
    rw [Function.update_of_ne Sum.inr_ne_inl] at ha
    exact hlisted (h.linked ha)
  · exact fun ha => hlisted (h.held ha)

/-- A new record goes to the end of a list. -/
theorem append (h : Stores s lists) (hk : lists k = some l) (ha : s.data a = none) (b : β)
    (garbage : ListHead (κ ⊕ α)) : ∃ s', (s.malloc a b garbage).addTail a k = some s' ∧
      Stores s' (Function.update lists k (some (l ++ [(a, b)]))) := by
  have hfree := h.not_listed ha
  have hnode : (.inr a : κ ⊕ α) ∉ .inl k :: nodes l := by
    intro hmem
    rcases List.mem_cons.mp hmem with heq | hmem
    · exact absurd heq Sum.inr_ne_inl
    · obtain ⟨b', hmem⟩ := mem_nodes.mp hmem
      exact hfree ⟨k, l, b', hk, hmem⟩
  have halloc : ∀ node, node ≠ .inr a → s.links.alloc (.inr a) garbage node = s.links node :=
    fun node hne => Function.update_of_ne hne _ _
  have hsome : (s.links.alloc (.inr a) garbage (.inr a)).isSome := by simp [Memory.alloc]
  have hrep : Represents (s.links.alloc (.inr a) garbage) (.inl k) (nodes l) :=
    (h.represents hk).frame fun node hmem => halloc node (ne_of_mem_of_not_mem hmem hnode)
  obtain ⟨m', hm', hrep', hedited⟩ := hrep.addTail hsome hnode
  have heq : ∀ node, node ≠ .inr a → node ∉ .inl k :: nodes l → m' node = s.links node := by
    intro node hne hmem
    rw [hedited.eq_of node (by rw [List.mem_cons, not_or]; exact ⟨hne, hmem⟩), halloc node hne]
  have hne : ∀ {a'}, Elsewhere lists k a' → a' ≠ a := by
    rintro a' helse rfl
    exact hfree ((listed_iff hk).mpr (Or.inr helse))
  refine ⟨⟨m', Function.update s.data a (some b)⟩, by simp [addTail, malloc, hm'],
    h.set ?_ ?_ ?_ ?_ ?_ ?_ ?_⟩
  · simpa [nodes] using hrep'
  · intro a' b' hmem
    rcases List.mem_append.mp hmem with hmem | hmem
    · have hlisted : Listed lists a' := ⟨k, l, b', hk, hmem⟩
      exact (Function.update_of_ne (fun heq' : a' = a => hfree (heq' ▸ hlisted)) _ _).trans
        (h.data_eq hk hmem)
    · obtain ⟨rfl, rfl⟩ := Prod.mk.inj (List.mem_singleton.mp hmem)
      exact Function.update_self _ _ _
  · intro a' b' hmem helse
    rcases List.mem_append.mp hmem with hmem | hmem
    · exact h.not_elsewhere hk hmem helse
    · obtain ⟨rfl, -⟩ := Prod.mk.inj (List.mem_singleton.mp hmem)
      exact hne helse rfl
  · intro k' hk'
    apply heq _ Sum.inl_ne_inr
    rw [List.mem_cons, not_or]
    exact ⟨by simpa using hk', inl_notMem_nodes⟩
  · intro a' helse
    refine ⟨heq _ (by simpa using hne helse) ?_, Function.update_of_ne (hne helse) _ _⟩
    rw [List.mem_cons, not_or]
    refine ⟨Sum.inr_ne_inl, fun hmem => ?_⟩
    obtain ⟨b', hmem⟩ := mem_nodes.mp hmem
    exact h.not_elsewhere hk hmem helse
  · intro a' ha'
    rw [hedited.isSome_eq] at ha'
    by_cases heq' : a' = a
    · exact Or.inl ⟨b, by simp [heq']⟩
    · rw [halloc _ (by simpa using heq')] at ha'
      rcases (listed_iff hk).mp (h.linked ha') with ⟨b', hmem⟩ | helse
      · exact Or.inl ⟨b', List.mem_append_left _ hmem⟩
      · exact Or.inr helse
  · intro a' ha'
    dsimp only at ha'
    by_cases heq' : a' = a
    · exact Or.inl ⟨b, by simp [heq']⟩
    · rw [Function.update_of_ne heq'] at ha'
      rcases (listed_iff hk).mp (h.held ha') with ⟨b', hmem⟩ | helse
      · exact Or.inl ⟨b', List.mem_append_left _ hmem⟩
      · exact Or.inr helse

/-- A record is unlinked; it can still be read, and is freed then. -/
theorem remove (h : Stores s lists) (hk : lists k = some (l₁ ++ (a, b) :: l₂)) :
    ∃ s₁ s₂, s.delete a = some s₁ ∧ s₁.data = s.data ∧ s₁.free a = some s₂ ∧
      Stores s₂ (Function.update lists k (some (l₁ ++ l₂))) := by
  have hrep := h.represents hk
  have hsplit : (nodes (l₁ ++ (a, b) :: l₂) : List (κ ⊕ α)) = nodes l₁ ++ .inr a :: nodes l₂ := by
    simp [nodes]
  have happend : (nodes (l₁ ++ l₂) : List (κ ⊕ α)) = nodes l₁ ++ nodes l₂ := by simp [nodes]
  rw [hsplit] at hrep
  have hlinked : (s.links (.inr a)).isSome := by
    apply hrep.isSome
    exact List.mem_cons_of_mem _ (List.mem_append_right _ List.mem_cons_self)
  obtain ⟨m₁, hm₁, hrep₁, hedited⟩ := hrep.delete
  have hnode : (.inr a : κ ⊕ α) ∉ .inl k :: (nodes l₁ ++ nodes l₂) := by
    have hnodup := hrep.nodup
    rw [← List.cons_append, List.nodup_middle] at hnodup
    exact (List.nodup_cons.mp hnodup).1
  obtain ⟨m₂, hm₂, hrep₂, hnone, heq⟩ :=
    hrep₁.free_of_not_mem ((hedited.isSome_eq _).trans hlinked) hnode
  have hmem : (a, b) ∈ l₁ ++ (a, b) :: l₂ := List.mem_append_right _ List.mem_cons_self
  have hdata := h.data_eq hk hmem
  have hsub : ∀ {x}, x ∈ l₁ ++ l₂ → x ∈ l₁ ++ (a, b) :: l₂ := by
    intro x hx
    rcases List.mem_append.mp hx with hx | hx
    · exact List.mem_append_left _ hx
    · exact List.mem_append_right _ (List.mem_cons_of_mem _ hx)
  have hother : ∀ {a' b'}, (a', b') ∈ l₁ ++ l₂ → a' ≠ a := by
    rintro a' b' hmem' rfl
    apply hnode
    rw [← happend]
    exact List.mem_cons_of_mem _ (mem_nodes.mpr ⟨b', hmem'⟩)
  have hne : ∀ {a'}, Elsewhere lists k a' → a' ≠ a := by
    rintro a' helse rfl
    exact h.not_elsewhere hk hmem helse
  have hkept : ∀ {a'}, a' ≠ a → Listed lists a' → (∃ b', (a', b') ∈ l₁ ++ l₂) ∨
      Elsewhere lists k a' := by
    intro a' hne' hlisted
    rcases (listed_iff hk).mp hlisted with ⟨b', hmem'⟩ | helse
    · refine Or.inl ⟨b', ?_⟩
      rcases List.mem_append.mp hmem' with hmem' | hmem'
      · exact List.mem_append_left _ hmem'
      · rcases List.mem_cons.mp hmem' with heq' | hmem'
        · exact absurd (Prod.mk.inj heq').1 hne'
        · exact List.mem_append_right _ hmem'
    · exact Or.inr helse
  have hlinks : ∀ node, node ≠ .inr a → node ∉ .inl k :: (nodes l₁ ++ nodes l₂) →
      m₂ node = s.links node := by
    intro node hne' hmem'
    rw [heq node hne', hedited.eq_of node hmem']
  refine ⟨{ s with links := m₁ }, ⟨m₂, Function.update s.data a none⟩,
    by simp [Records.delete, hm₁], rfl, by simp [Records.free, hm₂, hdata],
    h.set (by rwa [happend]) ?_ ?_ ?_ ?_ ?_ ?_⟩
  · exact fun hmem' => (Function.update_of_ne (hother hmem') _ _).trans (h.data_eq hk (hsub hmem'))
  · exact fun hmem' => h.not_elsewhere hk (hsub hmem')
  · intro k' hk'
    apply hlinks _ Sum.inl_ne_inr
    rw [← happend, List.mem_cons, not_or]
    exact ⟨by simpa using hk', inl_notMem_nodes⟩
  · intro a' helse
    refine ⟨hlinks _ (by simpa using hne helse) ?_, Function.update_of_ne (hne helse) _ _⟩
    rw [← happend, List.mem_cons, not_or]
    refine ⟨Sum.inr_ne_inl, fun hmem' => ?_⟩
    obtain ⟨b', hmem'⟩ := mem_nodes.mp hmem'
    exact h.not_elsewhere hk (hsub hmem') helse
  · intro a' ha'
    dsimp only at ha'
    have hne' : a' ≠ a := by
      rintro rfl
      rw [hnone] at ha'
      exact absurd ha' Bool.false_ne_true
    rw [heq _ (by simpa using hne'), hedited.isSome_eq] at ha'
    exact hkept hne' (h.linked ha')
  · intro a' ha'
    dsimp only at ha'
    have hne' : a' ≠ a := by
      rintro rfl
      rw [Function.update_self] at ha'
      exact absurd ha' Bool.false_ne_true
    rw [Function.update_of_ne hne'] at ha'
    exact hkept hne' (h.held ha')

/-- A record is written where it is. -/
theorem write (h : Stores s lists) (hk : lists k = some (l₁ ++ (a, b) :: l₂)) (f : β → β) :
    ∃ s', s.write a f = some s' ∧
      Stores s' (Function.update lists k (some (l₁ ++ (a, f b) :: l₂))) := by
  have hmem : (a, b) ∈ l₁ ++ (a, b) :: l₂ := List.mem_append_right _ List.mem_cons_self
  have hdata := h.data_eq hk hmem
  have hrep := h.represents hk
  have hsplit : ∀ b', (nodes (l₁ ++ (a, b') :: l₂) : List (κ ⊕ α)) =
      nodes l₁ ++ .inr a :: nodes l₂ := fun b' => by simp [nodes]
  have hnode : (.inr a : κ ⊕ α) ∉ nodes l₁ ++ nodes l₂ := by
    have hnodup := (List.nodup_cons.mp hrep.nodup).2
    rw [hsplit, List.nodup_middle] at hnodup
    exact (List.nodup_cons.mp hnodup).1
  have hcases : ∀ {a' b' b''}, (a', b') ∈ l₁ ++ (a, b'') :: l₂ →
      (a' = a ∧ b' = b'') ∨ (a' ≠ a ∧ ∀ b'', (a', b') ∈ l₁ ++ (a, b'') :: l₂) := by
    intro a' b' b'' hmem'
    by_cases heq : (a', b') = (a, b'')
    · exact Or.inl (Prod.mk.inj heq)
    · have hrest : (a', b') ∈ l₁ ++ l₂ := by
        rcases List.mem_append.mp hmem' with hmem' | hmem'
        · exact List.mem_append_left _ hmem'
        · exact List.mem_append_right _ ((List.mem_cons.mp hmem').resolve_left heq)
      refine Or.inr ⟨?_, fun b'' => ?_⟩
      · rintro rfl
        apply hnode
        have hmem'' := mem_nodes (κ := κ).mpr ⟨b', hrest⟩
        simpa [nodes] using hmem''
      · rcases List.mem_append.mp hrest with hrest | hrest
        · exact List.mem_append_left _ hrest
        · exact List.mem_append_right _ (List.mem_cons_of_mem _ hrest)
  have hlisted : ∀ {a'}, Listed lists a' →
      (∃ b', (a', b') ∈ l₁ ++ (a, f b) :: l₂) ∨ Elsewhere lists k a' := by
    intro a' hlisted
    rcases (listed_iff hk).mp hlisted with ⟨b', hmem'⟩ | helse
    · rcases hcases hmem' with ⟨rfl, -⟩ | ⟨-, hmem'⟩
      · exact Or.inl ⟨f b, List.mem_append_right _ List.mem_cons_self⟩
      · exact Or.inl ⟨b', hmem' (f b)⟩
    · exact Or.inr helse
  refine ⟨{ s with data := Function.update s.data a (some (f b)) }, by simp [Records.write, hdata],
    h.set (by rwa [hsplit] at hrep ⊢) ?_ ?_ (fun _ _ => rfl) ?_ ?_ ?_⟩
  · intro a' b' hmem'
    rcases hcases hmem' with ⟨rfl, rfl⟩ | ⟨hne, hmem'⟩
    · exact Function.update_self _ _ _
    · exact (Function.update_of_ne hne _ _).trans (h.data_eq hk (hmem' b))
  · intro a' b' hmem'
    rcases hcases hmem' with ⟨rfl, -⟩ | ⟨-, hmem'⟩
    · exact h.not_elsewhere hk hmem
    · exact h.not_elsewhere hk (hmem' b)
  · intro a' helse
    refine ⟨rfl, Function.update_of_ne ?_ _ _⟩
    rintro rfl
    exact h.not_elsewhere hk hmem helse
  · exact fun ha' => hlisted (h.linked ha')
  · intro a' ha'
    by_cases heq : a' = a
    · exact Or.inl ⟨f b, by simp [heq]⟩
    · dsimp only at ha'
      rw [Function.update_of_ne heq] at ha'
      exact hlisted (h.held ha')

/-! ## Loops -/

variable {fuel : ℕ}

omit [DecidableEq κ] [DecidableEq α] in
theorem foldlM_nodes {f : σ → κ ⊕ α → Except ρ σ} {g : σ → α × β → Except ρ σ}
    (h : ∀ y ∈ l, ∀ x, f x (.inr y.1) = g x y) (x : σ) :
    (nodes l).foldlM f x = l.foldlM g x := by
  induction l generalizing x with
  | nil => rfl
  | cons y l ih =>
      rw [List.forall_mem_cons] at h
      rw [nodes, List.map_cons, List.foldlM_cons, List.foldlM_cons, h.1]
      exact bind_congr fun x' => ih h.2 x'

/-- A loop that only reads is a loop over the list. -/
theorem forEachEntry_eq (h : Stores s lists) (hk : lists k = some l)
    (body : σ → α → β → Except ρ σ) (hfuel : l.length < fuel) (x : σ) :
    s.forEachEntry k body fuel x = some (l.foldlM (fun x y => body x y.1 y.2) x) := by
  have hbody : ∀ x, ∀ node ∈ nodes l, atEntry (fun a => (s.data a).map (body x a)) node =
      some (Sum.elim (fun _ : κ => .ok x) (fun a => (s.data a).elim (.ok x) (body x a)) node) := by
    intro x node hnode
    cases node with
    | inl k' => exact absurd hnode inl_notMem_nodes
    | inr a =>
        obtain ⟨b, hmem⟩ := mem_nodes.mp hnode
        rw [atEntry, Sum.elim_inr, h.data_eq hk hmem]
        rfl
  rw [Records.forEachEntry, (h.represents hk).listForEach_eq hbody (by simpa [nodes] using hfuel),
    foldlM_nodes]
  rintro ⟨a, b⟩ hmem x
  rw [Sum.elim_inr, h.data_eq hk hmem]
  rfl

theorem findEntry_eq (h : Stores s lists) (hk : lists k = some l) (p : β → Bool)
    (hfuel : l.length < fuel) :
    s.findEntry k p fuel = some ((l.find? fun y => p y.2).map Prod.fst) := by
  rw [findEntry, h.forEachEntry_eq hk _ hfuel, Option.map_some, Option.some.injEq]
  clear h hk hfuel
  induction l with
  | nil => rfl
  | cons y l ih =>
      rw [List.foldlM_cons, List.find?_cons]
      cases hp : p y.2 with
      | true => rfl
      | false => exact ih

/-- A safe loop meets the records that were in the list when it began. The invariant says what
is left of the list, and that this still hangs on the head. -/
theorem exists_forEachEntrySafe {records : σ → Records κ α β} {body : σ → α → Option σ}
    (inv : List (α × β) → List (α × β) → σ → Prop)
    (hlist : ∀ {done rest : List (α × β)} {x : σ}, inv done rest x →
      ∃ lists kept, Stores (records x) lists ∧ lists k = some (kept ++ rest))
    (hbody : ∀ {done rest : List (α × β)} {a : α} {b : β} {x : σ}, inv done ((a, b) :: rest) x →
      ∃ x', body x a = some x' ∧ inv (done ++ [(a, b)]) rest x')
    {x : σ} (h : Stores (records x) lists) (hk : lists k = some l) (hinv : inv [] l x)
    (hfuel : l.length < fuel) :
    ∃ x', forEachEntrySafe records k body fuel x = some x' ∧ inv l [] x' := by
  have hloop : ∃ x', forEachEntrySafe records k body fuel x = some x' ∧ ∃ done rest,
      done ++ rest = l ∧ [] = nodes (κ := κ) rest ∧ inv done rest x' := exists_listForEachSafe
    (fun _ rest x => ∃ done' rest', done' ++ rest' = l ∧ rest = nodes rest' ∧ inv done' rest' x)
    ?_ ?_ (h.represents hk) ⟨[], l, rfl, rfl, hinv⟩ (by simpa [nodes] using hfuel)
  · obtain ⟨x', hx', done, rest, hl, hrest, hend⟩ := hloop
    obtain rfl : rest = [] := by simpa [nodes] using hrest.symm
    rw [List.append_nil] at hl
    exact ⟨x', hx', hl ▸ hend⟩
  · rintro done rest x ⟨done', rest', -, rfl, hinv⟩
    obtain ⟨lists, kept, hstores, hk⟩ := hlist hinv
    refine ⟨nodes kept, ?_⟩
    have hrep := hstores.represents hk
    rwa [nodes, List.map_append] at hrep
  · rintro done node rest x ⟨done', rest', hl, hrest, hinv⟩
    cases rest' with
    | nil => exact absurd hrest (List.cons_ne_nil _ _)
    | cons y rest' =>
        obtain ⟨rfl, rfl⟩ := List.cons.inj hrest
        obtain ⟨x', hx', hinv'⟩ := hbody hinv
        exact ⟨x', hx', done' ++ [y], rest', by simpa using hl, rfl, hinv'⟩

/-- The records that are kept stay in their order. -/
theorem exists_removeIf (h : Stores s lists) (hk : lists k = some l) (p : β → Bool)
    (hfuel : l.length < fuel) (n : ℕ) : ∃ s',
      removeIf p k fuel (s, n) = some (s', n + l.countP fun y => p y.2) ∧
      Stores s' (Function.update lists k (some (l.filter fun y => !p y.2))) := by
  obtain ⟨st, hst, hstores, hn⟩ : ∃ st : Records κ α β × ℕ,
      removeIf p k fuel (s, n) = some st ∧
      Stores st.1 (Function.update lists k (some (l.filter (fun y => !p y.2) ++ []))) ∧
      st.2 = n + l.countP fun y => p y.2 := by
    refine exists_forEachEntrySafe
      (fun done rest (st : Records κ α β × ℕ) =>
        Stores st.1 (Function.update lists k (some (done.filter (fun y => !p y.2) ++ rest))) ∧
        st.2 = n + done.countP fun y => p y.2)
      (fun hinv => ⟨_, _, hinv.1, Function.update_self _ _ _⟩) ?_ h hk ⟨?_, by simp⟩ hfuel
    · rintro done rest a b st ⟨hstores, hn⟩
      have hk' := Function.update_self k (some (done.filter (fun y => !p y.2) ++ (a, b) :: rest))
        lists
      have hdata := hstores.data_eq hk' (List.mem_append_right _ List.mem_cons_self)
      rw [List.filter_append, List.countP_append]
      by_cases hp : p b = true
      · obtain ⟨s₁, s₂, hdelete, -, hfree, hstores'⟩ := hstores.remove hk'
        rw [Function.update_idem] at hstores'
        refine ⟨(s₂, st.2 + 1), ?_, ?_, ?_⟩
        · simp [removeRound, hdata, hp, hdelete, hfree]
        · rw [List.filter_cons_of_neg (by simp [hp]), List.filter_nil, List.append_nil]
          exact hstores'
        · simp [hn, hp, Nat.add_assoc]
      · refine ⟨st, ?_, ?_, ?_⟩
        · simp [removeRound, hdata, hp]
        · rw [List.filter_cons_of_pos (by simp [hp]), List.filter_nil, List.append_assoc]
          exact hstores
        · simp [hn, hp]
    · rw [List.filter_nil, List.nil_append, ← hk, Function.update_eq_self]
      exact h
  refine ⟨st.1, ?_, ?_⟩
  · rw [hst, ← hn]
  · rwa [List.append_nil] at hstores

/-- A loop that takes the first record out in each round ends with an empty list. -/
theorem exists_drain {records : σ → Records κ α β} {body : σ → α → Option σ}
    (inv : List (α × β) → σ → Prop)
    (hlist : ∀ {rest : List (α × β)} {x : σ}, inv rest x →
      ∃ lists, Stores (records x) lists ∧ lists k = some rest)
    (hbody : ∀ {rest : List (α × β)} {a : α} {b : β} {x : σ}, inv ((a, b) :: rest) x →
      ∃ x', body x a = some x' ∧ inv rest x')
    {x : σ} (hinv : inv l x) (hfuel : l.length < fuel) :
    ∃ x', drain records k body fuel x = some x' ∧ inv [] x' := by
  have hloop : ∃ x', drain records k body fuel x = some x' ∧ ∃ rest,
      [] = nodes (κ := κ) rest ∧ inv rest x' := exists_listDrain
    (fun rest x => ∃ rest', rest = nodes rest' ∧ inv rest' x)
    ?_ ?_ ⟨l, rfl, hinv⟩ (by simpa [nodes] using hfuel)
  · obtain ⟨x', hx', rest, hrest, hend⟩ := hloop
    obtain rfl : rest = [] := by simpa [nodes] using hrest.symm
    exact ⟨x', hx', hend⟩
  · rintro rest x ⟨rest', rfl, hinv⟩
    obtain ⟨lists, hstores, hk⟩ := hlist hinv
    exact hstores.represents hk
  · rintro node rest x ⟨rest', hrest, hinv⟩
    cases rest' with
    | nil => exact absurd hrest (List.cons_ne_nil _ _)
    | cons y rest' =>
        obtain ⟨rfl, rfl⟩ := List.cons.inj hrest
        obtain ⟨x', hx', hinv'⟩ := hbody hinv
        exact ⟨x', hx', rest', rfl, hinv'⟩

end Stores

end Records

end CircularList
