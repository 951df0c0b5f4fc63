import NetworkLabs.Sponge.StreamReassembler.Refinement

/-!
# Merging substrings of any content

No test of `merge_segments` looks at the bytes, so the loop takes the same way
when every byte is replaced by `0`. Blank substrings are slices of one blank
stream, whatever they were before. What is known of merging slices therefore
holds of the positions and the lengths of all substrings.
-/

namespace NetworkLabs

namespace StreamReassembler

/-- The substring with every byte replaced by `0`. -/
def blank (data : List UInt8) : List UInt8 := List.replicate data.length 0

@[simp] theorem length_blank (data : List UInt8) : (blank data).length = data.length :=
  List.length_replicate

theorem blank_take_append (d e : List UInt8) (n : ℕ) :
    blank (d.take n ++ e) = (blank d).take n ++ blank e := by
  simp [blank, List.replicate_append_replicate]

def blankEntry (e : ℕ × List UInt8) : ℕ × List UInt8 := (e.1, blank e.2)

def MergeLoop.blank (st : MergeLoop) : MergeLoop :=
  { st with dataCpy := StreamReassembler.blank st.dataCpy }

theorem mergeLeft_blank (st : MergeLoop) (e : ℕ × List UInt8) :
    mergeLeft st.blank (blankEntry e) = (mergeLeft st e).blank := by
  simp only [mergeLeft, blankEntry, MergeLoop.blank, length_blank]
  split_ifs
  · rfl
  · simp only [← blank_take_append, length_blank]
  · rfl

theorem mergeRound_blank (st : MergeLoop) (e : ℕ × List UInt8) :
    mergeRound st.blank (blankEntry e) = (mergeRound st e).blank := by
  simp only [mergeRound, blankEntry, MergeLoop.blank, length_blank]
  split_ifs
  · rfl
  · rw [← blank_take_append, length_blank]
    exact mergeLeft_blank { st with
      dataCpy := st.dataCpy.take (e.1 - st.dataLft) ++ e.2
      dataRgt := sizeT (st.dataLft + (st.dataCpy.take (e.1 - st.dataLft) ++ e.2).length)
      removeList := st.removeList ++ [e.1] } e
  · exact mergeLeft_blank st e

theorem foldl_mergeRound_blank (l : List (ℕ × List UInt8)) (st : MergeLoop) :
    (l.map blankEntry).foldl mergeRound st.blank = (l.foldl mergeRound st).blank := by
  induction l generalizing st with
  | nil => rfl
  | cons e l ih => rw [List.map_cons, List.foldl_cons, List.foldl_cons, mergeRound_blank, ih]

/-- Merging a blank substring into a blank map. -/
theorem segments_mergeSegments_blank (r : StreamReassembler) (index : ℕ) (data : List UInt8) :
    ({ r with segments := r.segments.mapValues blank }.mergeSegments index (blank data)).segments =
      (r.mergeSegments index data).segments.mapValues blank := by
  have hstart : mergeStart index (blank data) = (mergeStart index data).blank := by
    simp only [mergeStart, MergeLoop.blank, length_blank]
  have hloop : (r.segments.mapValues blank).entries.foldl mergeRound
      (mergeStart index (blank data)) =
      (r.segments.entries.foldl mergeRound (mergeStart index data)).blank := by
    rw [hstart]
    exact foldl_mergeRound_blank _ _
  rw [mergeSegments, mergeSegments]
  simp only [hloop, MergeLoop.blank]
  split_ifs
  · rw [SortedMap.mapValues_insert, SortedMap.mapValues_eraseAll]
  · rw [SortedMap.mapValues_eraseAll]

/-! ## Segments of any content -/

/-- The segments of `m` stand behind the index `a` and neither overlap nor
touch. -/
structure Spread (a : ℕ) (m : SortedMap (List UInt8)) : Prop where
  beyond : ∀ e ∈ m, a < e.1
  bounded : ∀ e ∈ m, e.1 + e.2.length < 2 ^ 64
  apart : ∀ e ∈ m, ∀ f ∈ m, e.1 < f.1 → e.1 + e.2.length < f.1

section

variable {a N : ℕ} {m : SortedMap (List UInt8)}

theorem holds_mapValues_blank (m : SortedMap (List UInt8)) (p : ℕ) :
    Holds (m.mapValues blank) p ↔ Holds m p := by
  constructor
  · rintro ⟨e, he, hle, hlt⟩
    obtain ⟨d, hd, rfl⟩ := (SortedMap.mem_mapValues _ _ _).mp he
    exact ⟨d, hd, hle, by rwa [length_blank] at hlt⟩
  · rintro ⟨d, hd, hle, hlt⟩
    exact ⟨blankEntry d, (SortedMap.mem_mapValues _ _ _).mpr ⟨d, hd, rfl⟩, hle,
      by rwa [blankEntry, length_blank]⟩

/-- A blank substring is a slice of a blank stream that reaches far enough. -/
theorem isSlice_blank (index : ℕ) (data : List UInt8) (h : index + data.length ≤ N) :
    IsSlice (List.replicate N 0) index (blank data) := by
  rw [IsSlice, blank, List.drop_replicate]
  refine ⟨List.replicate (N - index - data.length) 0, ?_⟩
  rw [List.replicate_append_replicate]
  congr 1
  omega

theorem Spread.separated (h : Spread a m) (hN : 2 ^ 64 ≤ N) :
    Separated (List.replicate N 0) a (m.mapValues blank) where
  slice := by
    intro e he
    obtain ⟨d, hd, rfl⟩ := (SortedMap.mem_mapValues _ _ _).mp he
    have hbound := h.bounded d hd
    exact isSlice_blank d.1 d.2 (by omega)
  beyond := by
    intro e he
    obtain ⟨d, hd, rfl⟩ := (SortedMap.mem_mapValues _ _ _).mp he
    exact h.beyond d hd
  bounded := by
    intro e he
    obtain ⟨d, hd, rfl⟩ := (SortedMap.mem_mapValues _ _ _).mp he
    rw [length_blank]
    exact h.bounded d hd
  apart := by
    intro e he f hf hlt
    obtain ⟨d, hd, rfl⟩ := (SortedMap.mem_mapValues _ _ _).mp he
    obtain ⟨d', hd', rfl⟩ := (SortedMap.mem_mapValues _ _ _).mp hf
    rw [length_blank]
    exact h.apart d hd d' hd' hlt

theorem spread_of_separated {S : List UInt8} (h : Separated S a (m.mapValues blank)) :
    Spread a m := by
  have hmem : ∀ e ∈ m, blankEntry e ∈ m.mapValues blank :=
    fun e he => (SortedMap.mem_mapValues _ _ _).mpr ⟨e, he, rfl⟩
  refine ⟨fun e he => h.beyond (blankEntry e) (hmem e he), ?_, ?_⟩
  · intro e he
    have hbound := h.bounded _ (hmem e he)
    rwa [blankEntry, length_blank] at hbound
  · intro e he f hf hlt
    have hapart := h.apart _ (hmem e he) _ (hmem f hf) hlt
    rwa [blankEntry, length_blank] at hapart

/-- What merging a substring of any content does to the positions. -/
theorem spread_mergeSegments (r : StreamReassembler) (index : ℕ) (data : List UInt8)
    (hm : Spread r.assembleIdx r.segments) (ha : r.assembleIdx < index)
    (hbound : index + data.length < 2 ^ 64) :
    Spread r.assembleIdx (r.mergeSegments index data).segments ∧
      ∀ p, Holds (r.mergeSegments index data).segments p ↔
        Holds r.segments p ∨ (index ≤ p ∧ p < index + data.length) := by
  obtain ⟨N, hN⟩ : ∃ N, 2 ^ 64 ≤ N := ⟨_, le_rfl⟩
  have hsep := hm.separated hN
  have hslice := isSlice_blank (N := N) index data (by omega)
  have hblank : index + (blank data).length < 2 ^ 64 := by rwa [length_blank]
  constructor
  · have hmerged := separated_mergeSegments { r with segments := r.segments.mapValues blank }
      _ index (blank data) hsep hslice ha hblank
    rw [segments_mergeSegments_blank] at hmerged
    exact spread_of_separated hmerged
  · intro p
    have hmerged := holds_mergeSegments_iff { r with segments := r.segments.mapValues blank }
      _ index (blank data) hsep hslice ha hblank p
    rwa [segments_mergeSegments_blank, holds_mapValues_blank, holds_mapValues_blank,
      length_blank] at hmerged

/-- Segments between `a` and `b` have no more bytes than there are positions. -/
theorem sum_length_le {b : ℕ} (hm : Spread a m) (hab : a ≤ b)
    (hwithin : ∀ e ∈ m, e.2 ≠ [] → e.1 + e.2.length ≤ b) :
    (m.entries.map fun e => e.2.length).sum ≤ b - a := by
  classical
  obtain ⟨N, hN⟩ : ∃ N, 2 ^ 64 ≤ N := ⟨_, le_rfl⟩
  have hholds : ∀ p, Holds m p → p < b := by
    rintro p ⟨e, he, hle, hlt⟩
    have hend := hwithin e he (List.ne_nil_of_length_pos (by omega))
    omega
  have hreceived : ∀ p, (p < a ∨ Holds (m.mapValues blank) p) ↔
      p ∈ (⟨(Finset.range b).filter fun p => p < a ∨ Holds m p, false⟩ : ByteSet).received := by
    intro p
    rw [holds_mapValues_blank, Finset.mem_filter, Finset.mem_range]
    constructor
    · intro hp
      refine ⟨?_, hp⟩
      rcases hp with hlt | hp
      · exact hlt.trans_le hab
      · exact hholds p hp
    · exact fun hp => hp.2
  have hsum := sum_length_eq_card (hm.separated hN) hreceived
  have hlengths : ((m.mapValues blank).entries.map fun e => e.2.length) =
      m.entries.map fun e => e.2.length := by
    rw [SortedMap.entries_mapValues, List.map_map]
    simp [Function.comp_def]
  rw [hlengths] at hsum
  rw [hsum, ← Nat.card_Ico]
  apply Finset.card_le_card
  intro p hp
  simp only [Finset.mem_filter, Finset.mem_range] at hp
  rw [Finset.mem_Ico]
  exact ⟨hp.2, hp.1.1⟩

end

end StreamReassembler

end NetworkLabs
