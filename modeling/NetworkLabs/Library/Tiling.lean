import Mathlib

/-!
# Pieces laid end to end

A list whose elements have lengths is laid out from a position `n` on, every
piece right behind the one before it. `ends len n l` lists the pieces together
with the positions behind them, so a piece occupies the positions from its end
minus its length up to its end. The layout of an appended list is the layout of
the two parts, and the pieces do not overlap.
-/

namespace Tiling

variable {α : Type*} (len : α → ℕ)

/-- The length of the whole layout. -/
def total (l : List α) : ℕ := (l.map len).sum

/-- The pieces of a layout that starts at the position `n`, each with the
position behind it. -/
def ends : ℕ → List α → List (ℕ × α)
  | _, [] => []
  | n, a :: l => (n + len a, a) :: ends (n + len a) l

@[simp] theorem total_nil : total len [] = 0 := rfl

@[simp] theorem total_cons (a : α) (l : List α) : total len (a :: l) = len a + total len l := by
  simp [total]

@[simp] theorem total_append (l m : List α) :
    total len (l ++ m) = total len l + total len m := by
  simp [total]

theorem total_pos {l : List α} (h : l ≠ []) (hpos : ∀ a ∈ l, 0 < len a) : 0 < total len l := by
  cases l with
  | nil => exact absurd rfl h
  | cons a l =>
      rw [total_cons]
      exact Nat.add_pos_left (hpos a List.mem_cons_self) _

theorem ends_append (n : ℕ) (l m : List α) :
    ends len n (l ++ m) = ends len n l ++ ends len (n + total len l) m := by
  induction l generalizing n with
  | nil => simp [ends]
  | cons a l ih =>
      rw [List.cons_append, ends, ends, ih, total_cons, List.cons_append, Nat.add_assoc]

@[simp] theorem mem_ends_concat (n : ℕ) (l : List α) (a : α) (e : ℕ × α) :
    e ∈ ends len n (l ++ [a]) ↔ e ∈ ends len n l ∨ e = (n + total len l + len a, a) := by
  rw [ends_append, List.mem_append, ends, ends, List.mem_singleton]

theorem mem_of_mem_ends (n : ℕ) (l : List α) (e : ℕ × α) (he : e ∈ ends len n l) : e.2 ∈ l := by
  induction l generalizing n with
  | nil => exact absurd he List.not_mem_nil
  | cons a l ih =>
      rcases List.mem_cons.mp he with rfl | he
      · exact List.mem_cons_self
      · exact List.mem_cons_of_mem a (ih _ he)

theorem exists_mem_ends (n : ℕ) (l : List α) (a : α) (ha : a ∈ l) :
    ∃ k, (k, a) ∈ ends len n l := by
  induction l generalizing n with
  | nil => exact absurd ha List.not_mem_nil
  | cons b l ih =>
      rcases List.mem_cons.mp ha with rfl | ha
      · exact ⟨n + len a, List.mem_cons_self⟩
      · obtain ⟨k, hk⟩ := ih (n + len b) ha
        exact ⟨k, List.mem_cons_of_mem _ hk⟩

@[simp] theorem map_snd_ends (n : ℕ) (l : List α) : (ends len n l).map Prod.snd = l := by
  induction l generalizing n with
  | nil => rfl
  | cons a l ih => rw [ends, List.map_cons, ih]

/-- A piece lies inside the layout. -/
theorem bounds_of_mem_ends (n : ℕ) (l : List α) (e : ℕ × α) (he : e ∈ ends len n l) :
    n + len e.2 ≤ e.1 ∧ e.1 ≤ n + total len l := by
  induction l generalizing n with
  | nil => exact absurd he List.not_mem_nil
  | cons a l ih =>
      rw [total_cons]
      rcases List.mem_cons.mp he with rfl | he
      · exact ⟨le_rfl, by omega⟩
      · have h := ih (n + len a) he
        omega

/-- Every piece starts where an earlier one ends, or behind. -/
theorem pairwise_ends (n : ℕ) (l : List α) :
    (ends len n l).Pairwise fun e f => e.1 + len f.2 ≤ f.1 := by
  induction l generalizing n with
  | nil => exact List.Pairwise.nil
  | cons a l ih =>
      refine List.pairwise_cons.mpr ⟨?_, ih _⟩
      exact fun f hf => (bounds_of_mem_ends len _ l f hf).1

/-- The last piece of a layout ends where the layout ends. -/
theorem exists_last (n : ℕ) {l : List α} (h : l ≠ []) :
    ∃ a, (n + total len l, a) ∈ ends len n l := by
  obtain ⟨front, a, rfl⟩ := (List.eq_nil_or_concat l).resolve_left h
  refine ⟨a, ?_⟩
  rw [List.concat_eq_append, mem_ends_concat, total_append, total_cons, total_nil, Nat.add_zero,
    ← Nat.add_assoc]
  exact Or.inr rfl

/-- A position splits a layout into the pieces that end at or in front of it, and
those that end behind it. -/
theorem exists_split (n u : ℕ) (l : List α) : ∃ front back, l = front ++ back ∧
    (∀ e ∈ ends len n front, e.1 ≤ u) ∧
    ∀ e ∈ ends len (n + total len front) back, u < e.1 := by
  induction l generalizing n with
  | nil => exact ⟨[], [], rfl, by simp [ends], by simp [ends]⟩
  | cons a l ih =>
      by_cases ha : n + len a ≤ u
      · obtain ⟨front, back, rfl, hfront, hback⟩ := ih (n + len a)
        refine ⟨a :: front, back, rfl, ?_, ?_⟩
        · intro e he
          rcases List.mem_cons.mp he with rfl | he
          · exact ha
          · exact hfront e he
        · rwa [total_cons, ← Nat.add_assoc]
      · refine ⟨[], a :: l, rfl, fun e he => absurd he List.not_mem_nil, ?_⟩
        intro e he
        rcases List.mem_cons.mp he with rfl | he
        · exact not_le.mp ha
        · have hbounds := bounds_of_mem_ends len _ l e he
          omega

end Tiling
