import Mathlib

/-!
# Circular doubly linked lists

A list of this kind has a head, and its nodes are linked to a circle that begins and ends
with the head; a node is a part of the element that it links. The memory is a partial
function, and an access to a node that is not allocated faults.

`Represents m head l` says that the nodes of `l` hang on `head` in this order. Each operation
on the links is an operation on `l`, if its nodes are where it expects them, and it leaves
alone the lists that it does not touch. A loop over the nodes is a loop over `l`, also when
the body takes the node of the round out of the list and frees it.
-/

namespace CircularList

universe u

/-- The links of a node. -/
structure ListHead (α : Type*) where
  next : α
  prev : α

/-- The nodes that are allocated. -/
abbrev Memory (α : Type*) := α → Option (ListHead α)

section

variable {α : Type*} [DecidableEq α]

namespace Memory

def setNext (m : Memory α) (a b : α) : Option (Memory α) :=
  (m a).map fun h => Function.update m a (some { h with next := b })

def setPrev (m : Memory α) (a b : α) : Option (Memory α) :=
  (m a).map fun h => Function.update m a (some { h with prev := b })

/-- A node that is new holds anything. -/
def alloc (m : Memory α) (a : α) (garbage : ListHead α) : Memory α :=
  Function.update m a (some garbage)

def free (m : Memory α) (a : α) : Option (Memory α) :=
  (m a).map fun _ => Function.update m a none

def nextOf (m : Memory α) (a : α) : Option α := (m a).map ListHead.next

def prevOf (m : Memory α) (a : α) : Option α := (m a).map ListHead.prev

end Memory

def initListHead (m : Memory α) (list : α) : Option (Memory α) := do
  let m ← m.setPrev list list
  m.setNext list list

def listInsert (m : Memory α) (new prev next : α) : Option (Memory α) := do
  let m ← m.setPrev next new
  let m ← m.setNext prev new
  let m ← m.setNext new next
  m.setPrev new prev

def listAddTail (m : Memory α) (new head : α) : Option (Memory α) := do
  let h ← m head
  listInsert m new h.prev head

def listDeleteEntry (m : Memory α) (entry : α) : Option (Memory α) := do
  let h ← m entry
  let m ← m.setPrev h.next h.prev
  let h ← m entry
  m.setNext h.prev h.next

/-! ## What the operations do to the links -/

/-- The memory has been changed to these links, and the same nodes are allocated. -/
structure Relinked (m : Memory α) (next prev : α → Option α) (m' : Memory α) : Prop where
  nextOf_eq : m'.nextOf = next
  prevOf_eq : m'.prevOf = prev
  isSome_eq : ∀ x, (m' x).isSome = (m x).isSome

/-- Only the given nodes have been changed, and the same ones are allocated. -/
structure Edited (nodes : List α) (m m' : Memory α) : Prop where
  eq_of : ∀ x, x ∉ nodes → m' x = m x
  isSome_eq : ∀ x, (m' x).isSome = (m x).isSome

omit [DecidableEq α] in
theorem Relinked.edited {m m' : Memory α} {next prev : α → Option α} {nodes : List α}
    (h : Relinked m next prev m')
    (hnodes : ∀ x, x ∉ nodes → next x = m.nextOf x ∧ prev x = m.prevOf x) : Edited nodes m m' where
  isSome_eq := h.isSome_eq
  eq_of := by
    intro x hx
    obtain ⟨hnext, hprev⟩ := hnodes x hx
    rw [← h.nextOf_eq, Memory.nextOf, Memory.nextOf] at hnext
    rw [← h.prevOf_eq, Memory.prevOf, Memory.prevOf] at hprev
    cases hx' : m' x with
    | none =>
        rw [hx'] at hnext
        exact (Option.map_eq_none_iff.mp hnext.symm).symm
    | some links =>
        rw [hx'] at hnext hprev
        obtain ⟨links', hlinks', hnext'⟩ := Option.map_eq_some_iff.mp hnext.symm
        rw [hlinks'] at hprev ⊢
        cases links
        cases links'
        simp_all

variable {m : Memory α}

theorem exists_setNext {a : α} (b : α) (ha : (m a).isSome) : ∃ m', m.setNext a b = some m' ∧
    Relinked m (Function.update m.nextOf a (some b)) m.prevOf m' := by
  obtain ⟨h, hh⟩ := Option.isSome_iff_exists.mp ha
  refine ⟨_, by rw [Memory.setNext, hh]; rfl, funext fun x => ?_, funext fun x => ?_, fun x => ?_⟩
  · by_cases hx : x = a
    · subst hx
      simp [Memory.nextOf]
    · simp [Memory.nextOf, hx]
  · by_cases hx : x = a
    · subst hx
      simp [Memory.prevOf, hh]
    · simp [Memory.prevOf, hx]
  · by_cases hx : x = a
    · subst hx
      simp [hh]
    · simp [hx]

theorem exists_setPrev {a : α} (b : α) (ha : (m a).isSome) : ∃ m', m.setPrev a b = some m' ∧
    Relinked m m.nextOf (Function.update m.prevOf a (some b)) m' := by
  obtain ⟨h, hh⟩ := Option.isSome_iff_exists.mp ha
  refine ⟨_, by rw [Memory.setPrev, hh]; rfl, funext fun x => ?_, funext fun x => ?_, fun x => ?_⟩
  · by_cases hx : x = a
    · subst hx
      simp [Memory.nextOf, hh]
    · simp [Memory.nextOf, hx]
  · by_cases hx : x = a
    · subst hx
      simp [Memory.prevOf]
    · simp [Memory.prevOf, hx]
  · by_cases hx : x = a
    · subst hx
      simp [hh]
    · simp [hx]

theorem exists_initListHead {list : α} (h : (m list).isSome) :
    ∃ m', initListHead m list = some m' ∧
      Relinked m (Function.update m.nextOf list (some list))
        (Function.update m.prevOf list (some list)) m' := by
  obtain ⟨m₁, hm₁, hlinks₁⟩ := exists_setPrev list h
  obtain ⟨m₂, hm₂, hlinks₂⟩ := exists_setNext list ((hlinks₁.isSome_eq list).trans h)
  refine ⟨m₂, by simp [initListHead, hm₁, hm₂], ?_, ?_, fun x => ?_⟩
  · rw [hlinks₂.nextOf_eq, hlinks₁.nextOf_eq]
  · rw [hlinks₂.prevOf_eq, hlinks₁.prevOf_eq]
  · rw [hlinks₂.isSome_eq, hlinks₁.isSome_eq]

theorem exists_listInsert {new prev next : α} (hnew : (m new).isSome) (hprev : (m prev).isSome)
    (hnext : (m next).isSome) : ∃ m', listInsert m new prev next = some m' ∧
      Relinked m (Function.update (Function.update m.nextOf prev (some new)) new (some next))
        (Function.update (Function.update m.prevOf next (some new)) new (some prev)) m' := by
  obtain ⟨m₁, hm₁, hlinks₁⟩ := exists_setPrev new hnext
  have hkept₁ := hlinks₁.isSome_eq
  obtain ⟨m₂, hm₂, hlinks₂⟩ := exists_setNext new ((hkept₁ prev).trans hprev)
  have hkept₂ := fun x => (hlinks₂.isSome_eq x).trans (hkept₁ x)
  obtain ⟨m₃, hm₃, hlinks₃⟩ := exists_setNext next ((hkept₂ new).trans hnew)
  have hkept₃ := fun x => (hlinks₃.isSome_eq x).trans (hkept₂ x)
  obtain ⟨m₄, hm₄, hlinks₄⟩ := exists_setPrev prev ((hkept₃ new).trans hnew)
  refine ⟨m₄, by simp [listInsert, hm₁, hm₂, hm₃, hm₄], ?_, ?_, fun x => ?_⟩
  · rw [hlinks₄.nextOf_eq, hlinks₃.nextOf_eq, hlinks₂.nextOf_eq, hlinks₁.nextOf_eq]
  · rw [hlinks₄.prevOf_eq, hlinks₃.prevOf_eq, hlinks₂.prevOf_eq, hlinks₁.prevOf_eq]
  · rw [hlinks₄.isSome_eq, hkept₃]

omit [DecidableEq α] in
theorem isSome_of_nextOf {x y : α} (h : m.nextOf x = some y) : (m x).isSome := by
  rw [Memory.nextOf, Option.map_eq_some_iff] at h
  obtain ⟨links, hlinks, -⟩ := h
  rw [hlinks]
  rfl

omit [DecidableEq α] in
theorem isSome_of_prevOf {x y : α} (h : m.prevOf x = some y) : (m x).isSome := by
  rw [Memory.prevOf, Option.map_eq_some_iff] at h
  obtain ⟨links, hlinks, -⟩ := h
  rw [hlinks]
  rfl

omit [DecidableEq α] in
/-- A node is read as a whole. -/
theorem eq_some_of_links {x next prev : α} (hnext : m.nextOf x = some next)
    (hprev : m.prevOf x = some prev) : m x = some ⟨next, prev⟩ := by
  obtain ⟨links, hlinks⟩ := Option.isSome_iff_exists.mp (isSome_of_nextOf hnext)
  rw [Memory.nextOf, hlinks] at hnext
  rw [Memory.prevOf, hlinks] at hprev
  obtain rfl := Option.some.inj hnext
  obtain rfl := Option.some.inj hprev
  exact hlinks

theorem exists_listDeleteEntry {entry next prev : α} (hnext : m.nextOf entry = some next)
    (hprev : m.prevOf entry = some prev) (hn : (m next).isSome) (hp : (m prev).isSome)
    (hne : entry ≠ next) : ∃ m', listDeleteEntry m entry = some m' ∧
      Relinked m (Function.update m.nextOf prev (some next))
        (Function.update m.prevOf next (some prev)) m' := by
  have hentry := eq_some_of_links hnext hprev
  obtain ⟨m₁, hm₁, hlinks₁⟩ := exists_setPrev prev hn
  have hnext₁ : m₁.nextOf entry = some next := by rw [hlinks₁.nextOf_eq, hnext]
  have hprev₁ : m₁.prevOf entry = some prev := by
    rw [hlinks₁.prevOf_eq, Function.update_of_ne hne, hprev]
  have hentry₁ := eq_some_of_links hnext₁ hprev₁
  obtain ⟨m₂, hm₂, hlinks₂⟩ := exists_setNext next ((hlinks₁.isSome_eq prev).trans hp)
  refine ⟨m₂, by simp [listDeleteEntry, hentry, hm₁, hentry₁, hm₂], ?_, ?_, fun x => ?_⟩
  · rw [hlinks₂.nextOf_eq, hlinks₁.nextOf_eq]
  · rw [hlinks₂.prevOf_eq, hlinks₁.prevOf_eq]
  · rw [hlinks₂.isSome_eq, hlinks₁.isSome_eq]

end

/-! ## Lists -/

section

variable {α : Type*}

theorem forall₂_append_iff {β : Type*} {R : α → β → Prop} {xs xs' : List α} {ys ys' : List β}
    (hlen : xs.length = ys.length) : List.Forall₂ R (xs ++ xs') (ys ++ ys') ↔
      List.Forall₂ R xs ys ∧ List.Forall₂ R xs' ys' := by
  induction xs generalizing ys with
  | nil =>
      obtain rfl := List.eq_nil_of_length_eq_zero hlen.symm
      simp
  | cons x xs ih =>
      cases ys with
      | nil => exact absurd hlen (Nat.succ_ne_zero _)
      | cons y ys =>
          rw [List.cons_append, List.cons_append, List.forall₂_cons, List.forall₂_cons,
            ih (Nat.succ.inj hlen), and_assoc]

/-- `b` comes behind `a`. -/
def Link (m : Memory α) (a b : α) : Prop := m.nextOf a = some b ∧ m.prevOf b = some a

theorem links_frame {m m' : Memory α} {xs ys : List α} (h : List.Forall₂ (Link m) xs ys)
    (hnext : ∀ x ∈ xs, m'.nextOf x = m.nextOf x) (hprev : ∀ y ∈ ys, m'.prevOf y = m.prevOf y) :
    List.Forall₂ (Link m') xs ys := by
  induction h with
  | nil => exact List.Forall₂.nil
  | @cons x y xs ys hlink _ ih =>
      rw [List.forall_mem_cons] at hnext hprev
      refine List.Forall₂.cons ⟨?_, ?_⟩ (ih hnext.2 hprev.2)
      · rw [hnext.1, hlink.1]
      · rw [hprev.1, hlink.2]

/-- The place between the nodes of `l₁` and those of `l₂` in a circle: it is behind `a` and
in front of `b`. -/
structure Gap (head : α) (l₁ l₂ xs : List α) (a b : α) (ys : List α) : Prop where
  before : head :: l₁ = xs ++ [a]
  behind : l₂ ++ [head] = b :: ys

theorem exists_gap (head : α) (l₁ l₂ : List α) : ∃ xs a b ys, Gap head l₁ l₂ xs a b ys := by
  obtain ⟨xs, a, hbefore⟩ : ∃ xs a, head :: l₁ = xs ++ [a] := by
    rcases List.eq_nil_or_concat (head :: l₁) with hnil | ⟨xs, a, h⟩
    · exact absurd hnil (List.cons_ne_nil _ _)
    · exact ⟨xs, a, by rw [h, List.concat_eq_append]⟩
  cases l₂ with
  | nil => exact ⟨xs, a, head, [], hbefore, rfl⟩
  | cons b l₂ => exact ⟨xs, a, b, l₂ ++ [head], hbefore, rfl⟩

namespace Gap

variable {m : Memory α} {head a b : α} {l₁ l₂ xs ys : List α}

theorem length_eq (h : Gap head l₁ l₂ xs a b ys) : xs.length = l₁.length := by
  have hlen := congrArg List.length h.before
  simpa using hlen.symm

/-- The links of a circle around a gap. -/
theorem links_iff (h : Gap head l₁ l₂ xs a b ys) :
    List.Forall₂ (Link m) (head :: (l₁ ++ l₂)) (l₁ ++ l₂ ++ [head]) ↔
      List.Forall₂ (Link m) xs l₁ ∧ Link m a b ∧ List.Forall₂ (Link m) l₂ ys := by
  have hleft : head :: (l₁ ++ l₂) = xs ++ a :: l₂ := by
    rw [← List.cons_append, h.before, List.append_assoc, List.singleton_append]
  rw [hleft, List.append_assoc, h.behind, forall₂_append_iff h.length_eq, List.forall₂_cons]

/-- The gap in front of a new node, and the one behind it. -/
theorem insert (h : Gap head l₁ l₂ xs a b ys) (e : α) :
    Gap head (l₁ ++ [e]) l₂ (xs ++ [a]) e b ys where
  before := by rw [← List.cons_append, h.before]
  behind := h.behind

/-- The links of a circle around one of its nodes. -/
theorem links_cons_iff (h : Gap head l₁ l₂ xs a b ys) (e : α) :
    List.Forall₂ (Link m) (head :: (l₁ ++ e :: l₂)) (l₁ ++ e :: l₂ ++ [head]) ↔
      (List.Forall₂ (Link m) xs l₁ ∧ Link m a e) ∧ Link m e b ∧ List.Forall₂ (Link m) l₂ ys := by
  rw [List.append_cons, (h.insert e).links_iff, forall₂_append_iff h.length_eq,
    List.forall₂_cons, and_iff_left List.Forall₂.nil]

theorem mem_before (h : Gap head l₁ l₂ xs a b ys) : a ∈ head :: l₁ := by
  rw [h.before]
  exact List.mem_append_right _ (List.mem_singleton_self a)

theorem mem_behind (h : Gap head l₁ l₂ xs a b ys) : b = head ∨ b ∈ l₂ := by
  have hb : b ∈ l₂ ++ [head] := by
    rw [h.behind]
    exact List.mem_cons_self
  rw [List.mem_append, List.mem_singleton] at hb
  exact hb.symm

theorem mem_left (h : Gap head l₁ l₂ xs a b ys) : a ∈ head :: (l₁ ++ l₂) :=
  List.mem_append_left l₂ h.mem_before

theorem mem_right (h : Gap head l₁ l₂ xs a b ys) : b ∈ head :: (l₁ ++ l₂) := by
  rcases h.mem_behind with rfl | hb
  · exact List.mem_cons_self
  · exact List.mem_cons_of_mem _ (List.mem_append_right _ hb)

theorem mem_of_left (h : Gap head l₁ l₂ xs a b ys) {x : α} (hx : x ∈ xs) :
    x ∈ head :: (l₁ ++ l₂) := by
  rw [← List.cons_append, h.before]
  exact List.mem_append_left _ (List.mem_append_left _ hx)

theorem mem_of_right (h : Gap head l₁ l₂ xs a b ys) {x : α} (hx : x ∈ ys) :
    x ∈ head :: (l₁ ++ l₂) := by
  have hx' : x ∈ l₂ ++ [head] := by
    rw [h.behind]
    exact List.mem_cons_of_mem _ hx
  rcases List.mem_append.mp hx' with hx' | hx'
  · exact List.mem_cons_of_mem _ (List.mem_append_right _ hx')
  · rw [List.mem_singleton.mp hx']
    exact List.mem_cons_self

/-- The nodes on the two sides of a gap occur nowhere else. -/
structure Distinct (l₁ l₂ xs : List α) (a b : α) (ys : List α) : Prop where
  left : a ∉ xs
  right : b ∉ ys
  left_behind : a ∉ l₂
  right_before : b ∉ l₁

theorem distinct (h : Gap head l₁ l₂ xs a b ys) (hnodup : (head :: (l₁ ++ l₂)).Nodup) :
    Distinct l₁ l₂ xs a b ys := by
  have hleft : (xs ++ [a]).Nodup := by
    rw [← h.before]
    exact hnodup.sublist (List.cons_sublist_cons.mpr (List.sublist_append_left _ _))
  have hright : (b :: ys).Nodup := by
    rw [← h.behind, List.nodup_append_comm]
    exact hnodup.sublist (List.cons_sublist_cons.mpr (List.sublist_append_right _ _))
  rw [List.nodup_cons, List.nodup_append] at hnodup
  obtain ⟨hhead, -, -, hdisjoint⟩ := hnodup
  refine ⟨?_, (List.nodup_cons.mp hright).1, fun hmem => ?_, fun hmem => ?_⟩
  · rw [List.nodup_append] at hleft
    exact fun hmem => hleft.2.2 a hmem a (List.mem_singleton_self a) rfl
  · rcases List.mem_cons.mp h.mem_before with rfl | ha
    · exact hhead (List.mem_append_right _ hmem)
    · exact hdisjoint a ha a hmem rfl
  · rcases h.mem_behind with rfl | hb
    · exact hhead (List.mem_append_left _ hmem)
    · exact hdisjoint b hmem b hb rfl

end Gap

/-- The nodes of `l` hang on the head, in this order, and each of them only once. -/
structure Represents (m : Memory α) (head : α) (l : List α) : Prop where
  nodup : (head :: l).Nodup
  links : List.Forall₂ (Link m) (head :: l) (l ++ [head])

namespace Represents

variable {m m' : Memory α} {head : α} {l l₁ l₂ : List α}

theorem isSome (h : Represents m head l) {x : α} (hx : x ∈ head :: l) : (m x).isSome := by
  obtain ⟨n, hn, rfl⟩ := List.getElem_of_mem hx
  have hlen : n < (l ++ [head]).length := h.links.length_eq ▸ hn
  exact isSome_of_nextOf (h.links.get hn hlen).1

/-- A list is not affected by what happens to other nodes. -/
theorem frame (h : Represents m head l) (heq : ∀ x ∈ head :: l, m' x = m x) :
    Represents m' head l where
  nodup := h.nodup
  links := by
    apply links_frame h.links
    · intro x hx
      rw [Memory.nextOf, heq x hx, Memory.nextOf]
    · intro y hy
      have hy' : y ∈ head :: l := by simpa [or_comm] using hy
      rw [Memory.prevOf, heq y hy', Memory.prevOf]

/-- The first node, or the head itself. -/
theorem nextOf_head (h : Represents m head l) {x : α} {rest : List α}
    (hx : l ++ [head] = x :: rest) : m.nextOf head = some x := by
  have hlinks := h.links
  rw [hx, List.forall₂_cons] at hlinks
  exact hlinks.1.1

variable [DecidableEq α]

theorem init (h : (m head).isSome) : ∃ m', initListHead m head = some m' ∧
    Represents m' head [] ∧ Edited [head] m m' := by
  obtain ⟨m', hm', hlinks⟩ := exists_initListHead h
  refine ⟨m', hm', ⟨List.nodup_singleton head, ?_⟩, hlinks.edited fun x hx => ?_⟩
  · refine List.Forall₂.cons ⟨?_, ?_⟩ List.Forall₂.nil
    · rw [hlinks.nextOf_eq, Function.update_self]
    · rw [hlinks.prevOf_eq, Function.update_self]
  · rw [List.mem_singleton] at hx
    exact ⟨Function.update_of_ne hx _ _, Function.update_of_ne hx _ _⟩

variable {xs ys : List α} {a b e : α}

theorem insert (h : Represents m head (l₁ ++ l₂)) (hgap : Gap head l₁ l₂ xs a b ys)
    (he : (m e).isSome) (hfresh : e ∉ head :: (l₁ ++ l₂)) :
    ∃ m', listInsert m e a b = some m' ∧ Represents m' head (l₁ ++ e :: l₂) ∧
      Edited (e :: head :: (l₁ ++ l₂)) m m' := by
  have ha : a ∈ head :: (l₁ ++ l₂) := hgap.mem_left
  have hb : b ∈ head :: (l₁ ++ l₂) := hgap.mem_right
  have hea : e ≠ a := (ne_of_mem_of_not_mem ha hfresh).symm
  have heb : e ≠ b := (ne_of_mem_of_not_mem hb hfresh).symm
  obtain ⟨m', hm', hlinks⟩ := exists_listInsert he (h.isSome ha) (h.isSome hb)
  have hdistinct := hgap.distinct h.nodup
  obtain ⟨hleft, -, hright⟩ := hgap.links_iff.mp h.links
  have hnext : ∀ x, x ≠ e → x ≠ a → m'.nextOf x = m.nextOf x := by
    intro x hxe hxa
    rw [hlinks.nextOf_eq, Function.update_of_ne hxe, Function.update_of_ne hxa]
  have hprev : ∀ x, x ≠ e → x ≠ b → m'.prevOf x = m.prevOf x := by
    intro x hxe hxb
    rw [hlinks.prevOf_eq, Function.update_of_ne hxe, Function.update_of_ne hxb]
  refine ⟨m', hm', ⟨?_, (hgap.links_cons_iff e).mpr ⟨⟨?_, ?_, ?_⟩, ⟨?_, ?_⟩, ?_⟩⟩,
    hlinks.edited fun x hx => ?_⟩
  · rw [← List.cons_append, List.nodup_middle, List.cons_append]
    exact List.nodup_cons.mpr ⟨hfresh, h.nodup⟩
  · apply links_frame hleft
    · intro x hx
      apply hnext x _ (ne_of_mem_of_not_mem hx hdistinct.left)
      rintro rfl
      exact hfresh (hgap.mem_of_left hx)
    · intro y hy
      apply hprev y _ (ne_of_mem_of_not_mem hy hdistinct.right_before)
      rintro rfl
      exact hfresh (List.mem_cons_of_mem _ (List.mem_append_left _ hy))
  · rw [hlinks.nextOf_eq, Function.update_of_ne hea.symm, Function.update_self]
  · rw [hlinks.prevOf_eq, Function.update_self]
  · rw [hlinks.nextOf_eq, Function.update_self]
  · rw [hlinks.prevOf_eq, Function.update_of_ne heb.symm, Function.update_self]
  · apply links_frame hright
    · intro x hx
      apply hnext x _ (ne_of_mem_of_not_mem hx hdistinct.left_behind)
      rintro rfl
      exact hfresh (List.mem_cons_of_mem _ (List.mem_append_right _ hx))
    · intro y hy
      apply hprev y _ (ne_of_mem_of_not_mem hy hdistinct.right)
      rintro rfl
      exact hfresh (hgap.mem_of_right hy)
  · rw [List.mem_cons, not_or] at hx
    have hxa : x ≠ a := (ne_of_mem_of_not_mem ha hx.2).symm
    have hxb : x ≠ b := (ne_of_mem_of_not_mem hb hx.2).symm
    constructor
    · rw [Function.update_of_ne hx.1, Function.update_of_ne hxa]
    · rw [Function.update_of_ne hx.1, Function.update_of_ne hxb]

theorem addTail (h : Represents m head l) (he : (m e).isSome) (hfresh : e ∉ head :: l) :
    ∃ m', listAddTail m e head = some m' ∧ Represents m' head (l ++ [e]) ∧
      Edited (e :: head :: l) m m' := by
  obtain ⟨xs, a, b, ys, hgap⟩ := exists_gap head l []
  obtain ⟨rfl, rfl⟩ := List.cons.inj hgap.behind
  rw [← List.append_nil l] at h hfresh
  have hlink := (hgap.links_iff.mp h.links).2.1
  obtain ⟨links, hlinks, hprev⟩ := Option.map_eq_some_iff.mp hlink.2
  obtain ⟨m', hm', hrep, hedited⟩ := h.insert hgap he hfresh
  rw [List.append_nil] at hedited
  refine ⟨m', ?_, hrep, hedited⟩
  rw [listAddTail, hlinks]
  change listInsert m e links.prev head = some m'
  rw [hprev, hm']

/-- The links of the node itself stay as they are. -/
theorem delete (h : Represents m head (l₁ ++ e :: l₂)) :
    ∃ m', listDeleteEntry m e = some m' ∧ Represents m' head (l₁ ++ l₂) ∧
      Edited (head :: (l₁ ++ l₂)) m m' := by
  obtain ⟨xs, a, b, ys, hgap⟩ := exists_gap head l₁ l₂
  have hnodup := h.nodup
  rw [← List.cons_append, List.nodup_middle, List.nodup_cons, List.cons_append] at hnodup
  have ha : a ∈ head :: (l₁ ++ l₂) := hgap.mem_left
  have hb : b ∈ head :: (l₁ ++ l₂) := hgap.mem_right
  have heb : e ≠ b := (ne_of_mem_of_not_mem hb hnodup.1).symm
  have hdistinct := hgap.distinct hnodup.2
  obtain ⟨⟨hleft, hae⟩, heb', hright⟩ := (hgap.links_cons_iff e).mp h.links
  obtain ⟨m', hm', hlinks⟩ := exists_listDeleteEntry heb'.1 hae.2 (isSome_of_prevOf heb'.2)
    (isSome_of_nextOf hae.1) heb
  refine ⟨m', hm', ⟨hnodup.2, hgap.links_iff.mpr ⟨?_, ⟨?_, ?_⟩, ?_⟩⟩, hlinks.edited fun x hx => ?_⟩
  · apply links_frame hleft
    · intro x hx
      rw [hlinks.nextOf_eq, Function.update_of_ne (ne_of_mem_of_not_mem hx hdistinct.left)]
    · intro y hy
      rw [hlinks.prevOf_eq, Function.update_of_ne (ne_of_mem_of_not_mem hy hdistinct.right_before)]
  · rw [hlinks.nextOf_eq, Function.update_self]
  · rw [hlinks.prevOf_eq, Function.update_self]
  · apply links_frame hright
    · intro x hx
      rw [hlinks.nextOf_eq, Function.update_of_ne (ne_of_mem_of_not_mem hx hdistinct.left_behind)]
    · intro y hy
      rw [hlinks.prevOf_eq, Function.update_of_ne (ne_of_mem_of_not_mem hy hdistinct.right)]
  · exact ⟨Function.update_of_ne (ne_of_mem_of_not_mem ha hx).symm _ _,
      Function.update_of_ne (ne_of_mem_of_not_mem hb hx).symm _ _⟩

theorem free_of_not_mem (h : Represents m head l) (he : (m e).isSome) (hmem : e ∉ head :: l) :
    ∃ m', m.free e = some m' ∧ Represents m' head l ∧ m' e = none ∧ ∀ x, x ≠ e → m' x = m x := by
  obtain ⟨links, hlinks⟩ := Option.isSome_iff_exists.mp he
  refine ⟨Function.update m e none, by rw [Memory.free, hlinks]; rfl, h.frame fun x hx => ?_,
    Function.update_self _ _ _, fun x hx => Function.update_of_ne hx _ _⟩
  exact Function.update_of_ne (ne_of_mem_of_not_mem hx hmem) _ _

omit [DecidableEq α] in
theorem nextOf_of_split (h : Represents m head (l₁ ++ e :: l₂)) {x : α} {rest : List α}
    (hx : l₂ ++ [head] = x :: rest) : m.nextOf e = some x := by
  obtain ⟨xs, a, b, ys, hgap⟩ := exists_gap head l₁ l₂
  obtain ⟨rfl, -⟩ := List.cons.inj (hgap.behind.symm.trans hx)
  exact ((hgap.links_cons_iff e).mp h.links).2.1.1

omit [DecidableEq α] in
theorem ne_head (h : Represents m head (l₁ ++ e :: l₂)) : e ≠ head := by
  have hhead := (List.nodup_cons.mp h.nodup).1
  rintro rfl
  exact hhead (List.mem_append_right _ List.mem_cons_self)

end Represents

end

/-! ## Loops -/

section

variable {α ρ σ : Type u} [DecidableEq α]

/-- The rounds of `list_for_each` from the node `pos` on. The body may leave the loop. -/
def forEachFrom (m : Memory α) (head : α) (body : σ → α → Option (Except ρ σ)) :
    ℕ → α → σ → Option (Except ρ σ)
  | 0, _, _ => none
  | fuel + 1, pos, s =>
      if pos = head then some (.ok s)
      else do
        match ← body s pos with
        | .error r => return .error r
        | .ok s =>
            let h ← m pos
            forEachFrom m head body fuel h.next s

def listForEach (m : Memory α) (head : α) (body : σ → α → Option (Except ρ σ)) (fuel : ℕ) (s : σ) :
    Option (Except ρ σ) := do
  let h ← m head
  forEachFrom m head body fuel h.next s

/-- The rounds of `list_for_each_safe` from the node `pos` on, where `q` was read before the
body is called. The body may change the memory. -/
def forEachSafeFrom (mem : σ → Memory α) (head : α) (body : σ → α → Option σ) :
    ℕ → α → α → σ → Option σ
  | 0, _, _, _ => none
  | fuel + 1, pos, q, s =>
      if pos = head then some s
      else do
        let s ← body s pos
        let h ← mem s q
        forEachSafeFrom mem head body fuel q h.next s

def listForEachSafe (mem : σ → Memory α) (head : α) (body : σ → α → Option σ) (fuel : ℕ)
    (s : σ) : Option σ := do
  let h ← mem s head
  let h' ← mem s h.next
  forEachSafeFrom mem head body fuel h.next h'.next s

/-- A loop that takes the first node until the list is empty. -/
def listDrain (mem : σ → Memory α) (head : α) (body : σ → α → Option σ) : ℕ → σ → Option σ
  | 0, _ => none
  | fuel + 1, s => do
      let h ← mem s head
      if h.next = head then return s
      else
        let s ← body s h.next
        listDrain mem head body fuel s

omit [DecidableEq α] in
theorem exists_append_eq_cons (l : List α) (a : α) : ∃ x xs, l ++ [a] = x :: xs := by
  cases l with
  | nil => exact ⟨a, [], rfl⟩
  | cons x xs => exact ⟨x, xs ++ [a], rfl⟩

variable {m : Memory α} {head : α} {l : List α} {fuel : ℕ}

/-- The rounds from the node behind `done` on, when `rest` is left. -/
theorem Represents.forEachFrom_eq {body : σ → α → Option (Except ρ σ)} {f : σ → α → Except ρ σ} :
    ∀ (rest done : List α) {fuel : ℕ} {pos : α} {after : List α} (s : σ),
      Represents m head (done ++ rest) → rest ++ [head] = pos :: after → rest.length < fuel →
      (∀ s, ∀ x ∈ rest, body s x = some (f s x)) →
      forEachFrom m head body fuel pos s = some (rest.foldlM f s) := by
  intro rest
  induction rest with
  | nil =>
      intro done fuel pos after s _ hpos hfuel _
      obtain ⟨rfl, -⟩ := List.cons.inj hpos
      cases fuel with
      | zero => exact absurd hfuel (Nat.lt_irrefl 0)
      | succ fuel =>
          rw [forEachFrom, if_pos rfl]
          rfl
  | cons x rest ih =>
      intro done fuel pos after s h hpos hfuel hbody
      obtain ⟨rfl, -⟩ := List.cons.inj hpos
      cases fuel with
      | zero => exact absurd hfuel (Nat.not_lt_zero _)
      | succ fuel =>
          have hx := hbody s x List.mem_cons_self
          rw [forEachFrom, if_neg h.ne_head, hx, List.foldlM_cons]
          cases f s x with
          | error r => rfl
          | ok s' =>
              obtain ⟨y, ys, hy⟩ := exists_append_eq_cons rest head
              obtain ⟨links, hlinks, rfl⟩ := Option.map_eq_some_iff.mp (h.nextOf_of_split hy)
              rw [List.append_cons] at h
              have hrest := ih (done ++ [x]) s' h hy (Nat.succ_lt_succ_iff.mp hfuel)
                fun s y hy => hbody s y (List.mem_cons_of_mem x hy)
              simp only [hlinks, bind, Option.bind, Except.bind]
              exact hrest

/-- The loop over the nodes is the loop over the list, and ends. -/
theorem Represents.listForEach_eq (h : Represents m head l)
    {body : σ → α → Option (Except ρ σ)} {f : σ → α → Except ρ σ}
    (hbody : ∀ s, ∀ x ∈ l, body s x = some (f s x)) (hfuel : l.length < fuel) (s : σ) :
    listForEach m head body fuel s = some (l.foldlM f s) := by
  obtain ⟨x, xs, hx⟩ := exists_append_eq_cons l head
  obtain ⟨links, hlinks, rfl⟩ := Option.map_eq_some_iff.mp (h.nextOf_head hx)
  rw [listForEach, hlinks]
  exact h.forEachFrom_eq l [] s hx hfuel hbody

/-- The rounds of a safe loop. The invariant says what is left of the list, and that this
still hangs on the head, behind the nodes that the body has kept. -/
theorem exists_forEachSafeFrom {mem : σ → Memory α} {body : σ → α → Option σ}
    (inv : List α → List α → σ → Prop)
    (hlist : ∀ {done rest : List α} {s : σ}, inv done rest s →
      ∃ kept, Represents (mem s) head (kept ++ rest))
    (hbody : ∀ {done : List α} {x : α} {rest : List α} {s : σ}, inv done (x :: rest) s →
      ∃ s', body s x = some s' ∧ inv (done ++ [x]) rest s') :
    ∀ (rest : List α) {done : List α} {fuel : ℕ} {pos q : α} {after : List α} {s : σ},
      inv done rest s → rest ++ [head] = pos :: after →
      (∀ y ys, after = y :: ys → q = y) → rest.length < fuel →
      ∃ s', forEachSafeFrom mem head body fuel pos q s = some s' ∧ inv (done ++ rest) [] s' := by
  intro rest
  induction rest with
  | nil =>
      intro done fuel pos q after s h hpos _ hfuel
      obtain ⟨rfl, -⟩ := List.cons.inj hpos
      cases fuel with
      | zero => exact absurd hfuel (Nat.lt_irrefl 0)
      | succ fuel =>
          rw [forEachSafeFrom, if_pos rfl, List.append_nil]
          exact ⟨s, rfl, h⟩
  | cons x rest ih =>
      intro done fuel pos q after s h hpos hq hfuel
      obtain ⟨rfl, hafter⟩ := List.cons.inj hpos
      cases fuel with
      | zero => exact absurd hfuel (Nat.not_lt_zero _)
      | succ fuel =>
          obtain ⟨kept, hkept⟩ := hlist h
          obtain ⟨s', hs', hinv⟩ := hbody h
          obtain ⟨y, ys, hy⟩ := exists_append_eq_cons rest head
          obtain rfl : q = y := hq y ys (hafter.symm.trans hy)
          -- The node that was read before the body is still there after it.
          obtain ⟨kept', hkept'⟩ := hlist hinv
          have hmem : q ∈ head :: (kept' ++ rest) := by
            have hq' : q ∈ rest ++ [head] := hy ▸ List.mem_cons_self
            rcases List.mem_append.mp hq' with hq' | hq'
            · exact List.mem_cons_of_mem _ (List.mem_append_right _ hq')
            · rw [List.mem_singleton.mp hq']
              exact List.mem_cons_self
          obtain ⟨links, hlinks⟩ := Option.isSome_iff_exists.mp (hkept'.isSome hmem)
          have hnext : ∀ z zs, ys = z :: zs → links.next = z := by
            rintro z zs rfl
            cases rest with
            | nil => exact absurd (List.cons.inj hy).2.symm (List.cons_ne_nil _ _)
            | cons q' rest =>
                obtain ⟨rfl, hz⟩ := List.cons.inj hy
                have hread := hkept'.nextOf_of_split hz
                rw [Memory.nextOf, hlinks] at hread
                exact Option.some.inj hread
          obtain ⟨s'', hs'', hend⟩ := ih hinv hy hnext (Nat.succ_lt_succ_iff.mp hfuel)
          refine ⟨s'', ?_, ?_⟩
          · rw [forEachSafeFrom, if_neg hkept.ne_head, hs']
            simp only [bind, Option.bind, hlinks]
            exact hs''
          · rwa [← List.append_cons] at hend

/-- A safe loop meets the nodes that were in the list when it began, in their order, and
ends. -/
theorem exists_listForEachSafe {mem : σ → Memory α} {body : σ → α → Option σ}
    (inv : List α → List α → σ → Prop)
    (hlist : ∀ {done rest : List α} {s : σ}, inv done rest s →
      ∃ kept, Represents (mem s) head (kept ++ rest))
    (hbody : ∀ {done : List α} {x : α} {rest : List α} {s : σ}, inv done (x :: rest) s →
      ∃ s', body s x = some s' ∧ inv (done ++ [x]) rest s')
    {s : σ} (h : Represents (mem s) head l) (hinv : inv [] l s) (hfuel : l.length < fuel) :
    ∃ s', listForEachSafe mem head body fuel s = some s' ∧ inv l [] s' := by
  obtain ⟨x, xs, hx⟩ := exists_append_eq_cons l head
  obtain ⟨links, hlinks, rfl⟩ := Option.map_eq_some_iff.mp (h.nextOf_head hx)
  have hmem : links.next ∈ head :: l := by
    have hx' : links.next ∈ l ++ [head] := hx ▸ List.mem_cons_self
    simpa [or_comm] using hx'
  obtain ⟨links', hlinks'⟩ := Option.isSome_iff_exists.mp (h.isSome hmem)
  have hq : ∀ y ys, xs = y :: ys → links'.next = y := by
    rintro y ys rfl
    cases l with
    | nil => exact absurd (List.cons.inj hx).2.symm (List.cons_ne_nil _ _)
    | cons z l =>
        obtain ⟨hz, hy⟩ := List.cons.inj hx
        have h' : Represents (mem s) head ([] ++ z :: l) := h
        have hread := h'.nextOf_of_split hy
        rw [Memory.nextOf, hz, hlinks'] at hread
        exact Option.some.inj hread
  obtain ⟨s', hs', hend⟩ := exists_forEachSafeFrom inv hlist hbody l hinv hx hq hfuel
  refine ⟨s', ?_, hend⟩
  rw [listForEachSafe, hlinks]
  simp only [bind, Option.bind, hlinks']
  exact hs'

/-- If each round takes the first node out, then the loop empties the list, and ends. -/
theorem exists_listDrain {mem : σ → Memory α} {body : σ → α → Option σ}
    (inv : List α → σ → Prop)
    (hlist : ∀ {rest : List α} {s : σ}, inv rest s → Represents (mem s) head rest)
    (hbody : ∀ {x : α} {rest : List α} {s : σ}, inv (x :: rest) s →
      ∃ s', body s x = some s' ∧ inv rest s')
    {s : σ} (h : inv l s) (hfuel : l.length < fuel) :
    ∃ s', listDrain mem head body fuel s = some s' ∧ inv [] s' := by
  induction l generalizing s fuel with
  | nil =>
      obtain ⟨links, hlinks, hnext⟩ := Option.map_eq_some_iff.mp ((hlist h).nextOf_head rfl)
      cases fuel with
      | zero => exact absurd hfuel (Nat.lt_irrefl 0)
      | succ fuel =>
          refine ⟨s, ?_, h⟩
          simp only [listDrain, hlinks, bind, Option.bind, hnext, if_true, pure]
  | cons x rest ih =>
      obtain ⟨links, hlinks, rfl⟩ := Option.map_eq_some_iff.mp ((hlist h).nextOf_head rfl)
      have h' : Represents (mem s) head ([] ++ links.next :: rest) := hlist h
      have hne : links.next ≠ head := h'.ne_head
      cases fuel with
      | zero => exact absurd hfuel (Nat.not_lt_zero _)
      | succ fuel =>
          obtain ⟨s', hs', hinv⟩ := hbody h
          obtain ⟨s'', hs'', hend⟩ := ih hinv (Nat.succ_lt_succ_iff.mp hfuel)
          refine ⟨s'', ?_, hend⟩
          simp only [listDrain, hlinks, bind, Option.bind, if_neg hne, hs']
          exact hs''

end

end CircularList
