import Mathlib.Data.List.Basic

/-!
# Lists that are searched from the front

A hash chain is a list in which the first entry that fits a key is the one that
counts. `upsert` updates the first entry that satisfies `p`, or appends a new
one and updates that. Updates that keep the keys of an entry change neither
which entry is found first under another key nor what its keys are.
-/

namespace NetworkLabs

namespace FirstMatch

variable {α : Type*} {p q : α → Bool} {f : α → α} {a fresh : α} {l : List α}

/-- The entry that a search ends with: the first one that satisfies `p`, or a
fresh one. -/
def entry (p : α → Bool) (fresh : α) (l : List α) : α := (l.find? p).getD fresh

/-- The first entry that satisfies `p` is updated; a fresh one is appended and
updated when there is none. -/
def upsert (p : α → Bool) (f : α → α) (fresh : α) : List α → List α
  | [] => [f fresh]
  | a :: l => if p a then f a :: l else a :: upsert p f fresh l

/-- An update appends when there is nothing to update. -/
theorem upsert_of_not_any (h : l.any p = false) : upsert p f fresh l = l ++ [f fresh] := by
  induction l with
  | nil => rfl
  | cons b l ih =>
      rw [List.any_cons, Bool.or_eq_false_iff] at h
      rw [upsert, if_neg (by simp [h.1]), ih h.2, List.cons_append]

/-- The entry that is updated stays where it is. -/
theorem upsert_append_cons {l₁ l₂ : List α} (h : ∀ b ∈ l₁, p b = false) (ha : p a = true) :
    upsert p f fresh (l₁ ++ a :: l₂) = l₁ ++ f a :: l₂ := by
  induction l₁ with
  | nil => rw [List.nil_append, upsert, if_pos ha, List.nil_append]
  | cons b l₁ ih =>
      rw [List.forall_mem_cons] at h
      rw [List.cons_append, upsert, if_neg (by simp [h.1]), ih h.2, List.cons_append]

/-- Otherwise whatever the update leaves alone in an entry stays as it is. -/
theorem map_upsert_of_any {β : Type*} {key : α → β} (hkey : ∀ b, key (f b) = key b)
    (h : l.any p = true) : (upsert p f fresh l).map key = l.map key := by
  induction l with
  | nil => exact absurd h (by simp)
  | cons b l ih =>
      rw [upsert]
      split_ifs with hp
      · rw [List.map_cons, List.map_cons, hkey]
      · rw [List.any_cons, Bool.of_not_eq_true hp, Bool.false_or] at h
        rw [List.map_cons, List.map_cons, ih h]

/-- An update of entries that carry something along is an update of the entries
without it. -/
theorem map_upsert {β : Type*} (g : α → β) {p' : β → Bool} {f' : β → β}
    (hp : ∀ b, p b = p' (g b)) (hf : ∀ b, g (f b) = f' (g b)) :
    (upsert p f fresh l).map g = upsert p' f' (g fresh) (l.map g) := by
  induction l with
  | nil => rw [List.map_nil, upsert, upsert, List.map_cons, List.map_nil, hf]
  | cons b l ih =>
      rw [List.map_cons, upsert, upsert, ← hp]
      split_ifs
      · rw [List.map_cons, hf]
      · rw [List.map_cons, ih]

/-- What is true of all entries and of a fresh one, and kept by the update, is
true of all entries after it. -/
theorem forall_mem_upsert {P : α → Prop} (hf : ∀ b, P b → P (f b)) (hfresh : P fresh)
    (h : ∀ b ∈ l, P b) : ∀ b ∈ upsert p f fresh l, P b := by
  induction l with
  | nil =>
      intro b hb
      rw [List.mem_singleton.mp hb]
      exact hf fresh hfresh
  | cons c l ih =>
      rw [List.forall_mem_cons] at h
      rw [upsert]
      split_ifs
      · rw [List.forall_mem_cons]
        exact ⟨hf c h.1, h.2⟩
      · rw [List.forall_mem_cons]
        exact ⟨h.1, ih h.2⟩

/-- What an update leaves is an entry as it was, or the updated one. -/
theorem mem_upsert_of_any (h : l.any p = true) {b : α} (hb : b ∈ upsert p f fresh l) :
    b ∈ l ∨ ∃ c ∈ l, p c = true ∧ b = f c := by
  induction l with
  | nil => exact absurd h (by simp)
  | cons c l ih =>
      rw [upsert] at hb
      split_ifs at hb with hp
      · rcases List.mem_cons.mp hb with rfl | hb
        · exact Or.inr ⟨c, List.mem_cons_self, hp, rfl⟩
        · exact Or.inl (List.mem_cons_of_mem c hb)
      · rw [List.any_cons, Bool.of_not_eq_true hp, Bool.false_or] at h
        rcases List.mem_cons.mp hb with rfl | hb
        · exact Or.inl List.mem_cons_self
        · rcases ih h hb with hold | ⟨d, hd, hpd, rfl⟩
          · exact Or.inl (List.mem_cons_of_mem c hold)
          · exact Or.inr ⟨d, List.mem_cons_of_mem c hd, hpd, rfl⟩

theorem length_upsert_le : (upsert p f fresh l).length ≤ l.length + 1 := by
  induction l with
  | nil => exact Nat.le_refl 1
  | cons b l ih =>
      rw [upsert]
      split_ifs
      · exact Nat.le_succ _
      · exact Nat.succ_le_succ ih

theorem mem_upsert {b : α} (hb : b ∈ upsert p f fresh l) :
    b ∈ l ∨ (∃ c ∈ l, b = f c) ∨ b = f fresh := by
  by_cases h : l.any p = true
  · rcases mem_upsert_of_any h hb with hold | ⟨c, hc, -, rfl⟩
    · exact Or.inl hold
    · exact Or.inr (Or.inl ⟨c, hc, rfl⟩)
  · rw [upsert_of_not_any (Bool.of_not_eq_true h), List.mem_append, List.mem_singleton] at hb
    exact hb.imp_right Or.inr

theorem entry_satisfies (hfresh : p fresh = true) : p (entry p fresh l) = true := by
  rw [entry]
  cases hfind : l.find? p with
  | none => exact hfresh
  | some a => exact List.find?_some hfind

/-- If no entry in front of the updated one satisfies `q`, then the updated one is
the first that satisfies one of the two. -/
theorem find?_or_upsert (hfront : ∀ b ∈ l.takeWhile (fun b => !p b), q b = false)
    (hp : p (f (entry p fresh l)) = true) :
    (upsert p f fresh l).find? (fun b => p b || q b) = some (f (entry p fresh l)) := by
  induction l with
  | nil =>
      apply List.find?_cons_of_pos
      rw [Bool.or_eq_true]
      exact Or.inl hp
  | cons b l ih =>
      rw [upsert]
      by_cases hb : p b = true
      · have hentry : entry p fresh (b :: l) = b := by
          rw [entry, List.find?_cons_of_pos hb, Option.getD_some]
        rw [hentry] at hp ⊢
        rw [if_pos hb]
        apply List.find?_cons_of_pos
        rw [Bool.or_eq_true]
        exact Or.inl hp
      · have hentry : entry p fresh (b :: l) = entry p fresh l := by
          rw [entry, entry, List.find?_cons_of_neg hb]
        rw [List.takeWhile_cons_of_pos (by simpa using hb)] at hfront
        have hq := hfront b List.mem_cons_self
        rw [hentry] at hp ⊢
        rw [if_neg hb, List.find?_cons_of_neg (by simp [hb, hq])]
        exact ih (fun c hc => hfront c (List.mem_cons_of_mem b hc)) hp

/-- If some entry in front of the updated one satisfies `q`, then the first one
that satisfies `q` is not the updated one. -/
theorem find?_upsert_of_front (f : α → α) (fresh : α) {b : α}
    (hb : b ∈ l.takeWhile (fun b => !p b)) (hq : q b = true) :
    ∃ c, (upsert p f fresh l).find? q = some c ∧ p c = false := by
  induction l with
  | nil => exact absurd hb (by simp)
  | cons c l ih =>
      by_cases hc : p c = true
      · rw [List.takeWhile_cons_of_neg (by simpa using hc)] at hb
        exact absurd hb List.not_mem_nil
      · rw [List.takeWhile_cons_of_pos (by simpa using hc)] at hb
        rw [upsert, if_neg hc]
        by_cases hqc : q c = true
        · exact ⟨c, List.find?_cons_of_pos hqc, Bool.of_not_eq_true hc⟩
        · rw [List.find?_cons_of_neg hqc]
          rcases List.mem_cons.mp hb with rfl | hmem
          · exact absurd hq hqc
          · exact ih hmem

/-- The first entry that satisfies one of two tests, if it satisfies the first
test. -/
theorem find?_of_find?_or (h : l.find? (fun b => p b || q b) = some a) (hp : p a = true) :
    l.find? p = some a := by
  induction l with
  | nil => exact absurd h (by simp)
  | cons b l ih =>
      by_cases hb : (p b || q b) = true
      · rw [List.find?_cons_of_pos (p := fun b => p b || q b) hb] at h
        obtain rfl := Option.some.inj h
        exact List.find?_cons_of_pos hp
      · rw [List.find?_cons_of_neg (p := fun b => p b || q b) hb] at h
        have hpb : ¬ p b = true := fun hpb => hb (by rw [hpb, Bool.true_or])
        rw [List.find?_cons_of_neg hpb]
        exact ih h

/-- A search that an update does not interfere with finds the same entry, which
the update may have changed. -/
theorem find?_upsert (p : α → Bool) (fresh : α) (hq : ∀ b, q (f b) = q b)
    (h : l.find? q = some a) :
    (upsert p f fresh l).find? q = some a ∨ (upsert p f fresh l).find? q = some (f a) := by
  induction l with
  | nil => exact absurd h (by simp)
  | cons b l ih =>
      rw [upsert]
      by_cases hqb : q b = true
      · obtain rfl : b = a := by simpa [hqb] using h
        split_ifs
        · exact Or.inr (List.find?_cons_of_pos ((hq b).trans hqb))
        · exact Or.inl (List.find?_cons_of_pos hqb)
      · rw [List.find?_cons_of_neg hqb] at h
        split_ifs
        · rw [List.find?_cons_of_neg (by rwa [hq b])]
          exact Or.inl h
        · rw [List.find?_cons_of_neg hqb]
          exact ih h

/-- An entry that is kept by a filter is found first among those that are
kept. -/
theorem find?_filter_of_keep {keep : α → Bool} (h : l.find? q = some a) (hkeep : keep a = true) :
    (l.filter keep).find? q = some a := by
  induction l with
  | nil => exact absurd h (by simp)
  | cons b l ih =>
      by_cases hqb : q b = true
      · obtain rfl : b = a := by simpa [hqb] using h
        rw [List.filter_cons_of_pos hkeep]
        exact List.find?_cons_of_pos hqb
      · rw [List.find?_cons_of_neg hqb] at h
        rw [List.filter_cons]
        split_ifs
        · rw [List.find?_cons_of_neg hqb]
          exact ih h
        · exact ih h

/-- Where no key occurs twice, a filter decides whether the entry of a key is
still found. -/
theorem find?_filter_of_nodup {κ : Type*} [BEq κ] [LawfulBEq κ] {key : α → κ} (keep : α → Bool)
    (k : κ) (h : (l.map key).Nodup) :
    (l.filter keep).find? (fun b => key b == k) =
      (l.find? (fun b => key b == k)).filter keep := by
  induction l with
  | nil => rfl
  | cons b l ih =>
      rw [List.map_cons, List.nodup_cons] at h
      by_cases hb : key b = k
      · have hbk : (key b == k) = true := beq_iff_eq.mpr hb
        rw [List.find?_cons_of_pos (p := fun b => key b == k) hbk]
        by_cases hkeep : keep b = true
        · rw [List.filter_cons_of_pos hkeep,
            List.find?_cons_of_pos (p := fun b => key b == k) hbk, Option.filter_some,
            if_pos hkeep]
        · have hnone : l.find? (fun b => key b == k) = none := by
            rw [List.find?_eq_none]
            intro c hc hck
            exact h.1 (hb ▸ beq_iff_eq.mp hck ▸ List.mem_map_of_mem hc)
          rw [List.filter_cons_of_neg hkeep, ih h.2, hnone, Option.filter_some, if_neg hkeep]
          rfl
      · have hbk : ¬ (key b == k) = true := fun hbk => hb (beq_iff_eq.mp hbk)
        rw [List.find?_cons_of_neg (p := fun b => key b == k) hbk, List.filter_cons]
        split_ifs
        · rw [List.find?_cons_of_neg (p := fun b => key b == k) hbk]
          exact ih h.2
        · exact ih h.2

end FirstMatch

end NetworkLabs
