import Mathlib

/-!
# Slices of a list

`IsSlice S i d` says that the elements of `d` stand in `S` from the index `i`
on. An empty slice stands at every index, also behind the end. Slices are the
excerpts out of which a list is put together again: an excerpt of an excerpt is
one, two adjacent ones make one, and a slice at the end of a prefix prolongs
the prefix.
-/

/-- The elements of `d` stand in `S` from the index `i` on. -/
def IsSlice {α : Type*} (S : List α) (i : ℕ) (d : List α) : Prop := d <+: S.drop i

namespace IsSlice

variable {α : Type*} {S T d e : List α} {i : ℕ}

theorem nil (S : List α) (i : ℕ) : IsSlice S i [] := List.nil_prefix

theorem take (h : IsSlice S i d) (n : ℕ) : IsSlice S i (d.take n) :=
  (List.take_prefix n d).trans h

theorem drop (h : IsSlice S i d) (n : ℕ) : IsSlice S (i + n) (d.drop n) := by
  rw [IsSlice]
  rw [← List.drop_drop]
  exact List.IsPrefix.drop h n

theorem append (hd : IsSlice S i d) (he : IsSlice S (i + d.length) e) :
    IsSlice S i (d ++ e) := by
  obtain ⟨t, ht⟩ := hd
  rw [IsSlice] at he ⊢
  rw [← List.drop_drop, ← ht, List.drop_left] at he
  rw [← ht]
  exact (List.prefix_append_right_inj d).mpr he

/-- A slice of a list is one of every longer list. -/
theorem mono (h : IsSlice S i d) (hST : S <+: T) : IsSlice T i d :=
  h.trans (hST.drop i)

theorem add_length_le (h : IsSlice S i d) (hd : d ≠ []) : i + d.length ≤ S.length := by
  have hlen := h.length_le
  have hpos := List.length_pos_iff.mpr hd
  rw [List.length_drop] at hlen
  omega

/-- A slice that starts inside a prefix, or right behind it, prolongs it. -/
theorem prolong {w : List α} (hw : w <+: S) (h : IsSlice S i d) (hle : i ≤ w.length)
    (n : ℕ) :
    w ++ (d.drop (w.length - i)).take n <+: S := by
  have hrest : IsSlice S w.length ((d.drop (w.length - i)).take n) := by
    have hdrop := (h.drop (w.length - i)).take n
    rwa [Nat.add_sub_cancel' hle] at hdrop
  have hprefix : IsSlice S 0 w := by simpa [IsSlice] using hw
  have happend := hprefix.append (by rwa [Nat.zero_add])
  simpa [IsSlice] using happend

end IsSlice
