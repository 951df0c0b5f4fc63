import NetworkLabs.Sponge.StreamReassembler.Merge

/-!
# Writing contiguous segments

When a substring at or below the assembled index arrives, its rest is written
to the output and then every segment that has become contiguous. A full output
takes a part of what it is offered only, and the segment is dropped all the
same. The output stays a prefix of the stream in any case; when the covered
positions lie inside the window of the output, nothing is lost.
-/

namespace NetworkLabs

namespace StreamReassembler

open ByteStream

/-- The output stores the queue `q`, whose history is a prefix of `S` that ends
at the assembled index. -/
structure Assembled (S : List UInt8) (idx : ℕ) (output : ByteStream)
    (q : BoundedFifo UInt8) : Prop where
  refines : Refines output q
  idx_eq : idx = q.written.length
  written_prefix : q.written <+: S

/-- The part of `data`, a substring at `index`, behind the assembled index. -/
theorem substr_rest (data : List UInt8) (idx index : ℕ) (hle : index ≤ idx)
    (hge : idx ≤ index + data.length) (hbound : idx - index < 2 ^ 31)
    (hdata : data.length < 2 ^ 31) :
    substr data (Int32.ofInt (idx - index)).toInt
        (Int32.ofInt (data.length - (Int32.ofInt (idx - index)).toInt)).toInt =
      data.drop (idx - index) := by
  have hbegin : (Int32.ofInt (idx - index)).toInt = (idx - index : ℕ) := by
    rw [← Nat.cast_sub hle]
    exact MachineInt.toInt_ofInt_natCast _ hbound
  have hcnt : (Int32.ofInt (data.length - (idx - index : ℕ))).toInt =
      (data.length - (idx - index) : ℕ) := by
    rw [← Nat.cast_sub (by omega)]
    exact MachineInt.toInt_ofInt_natCast _ (by omega)
  rw [hbegin, hcnt, substr, sizeT, MachineInt.unsigned_natCast 64 _ (by omega),
    MachineInt.unsigned_natCast 64 _ (by omega)]
  apply List.take_of_length_le
  rw [List.length_drop]

section Write

variable {S : List UInt8} {output : ByteStream} {q : BoundedFifo UInt8} {idx index : ℕ}
  {data : List UInt8}

/-- A slice is shorter than the range of `int` when the stream is, and so is
the distance from its start to an index inside it. -/
theorem length_lt_of_slice (hslice : IsSlice S index data) (hS : S.length < 2 ^ 31) :
    data.length < 2 ^ 31 := by
  by_cases hnil : data = []
  · rw [hnil]
    simp
  · have hle := hslice.add_length_le hnil
    omega

/-- Writing the rest of a slice pushes it into the queue. -/
theorem assembled_writeFrom (h : Assembled S idx output q)
    (hbound : S.length + q.capacity < 2 ^ 31) (hslice : IsSlice S index data)
    (hle : index ≤ idx) (hge : idx ≤ index + data.length) :
    Assembled S (writeFrom idx output index data).1 (writeFrom idx output index data).2
      (q.push (data.drop (idx - index))) := by
  have hdata := length_lt_of_slice hslice (by omega)
  have hwritten := h.written_prefix.length_le
  have hidx := h.idx_eq
  have hrest := substr_rest data idx index hle hge (by omega) hdata
  have hprefix : (q.push (data.drop (idx - index))).written <+: S := by
    rw [hidx] at hle ⊢
    exact hslice.prolong h.written_prefix hle _
  have hlen := hprefix.length_le
  have hsnd := h.refines.write_snd (data.drop (idx - index))
  have hpush := BoundedFifo.length_written_push q (data.drop (idx - index))
  have heq : writeFrom idx output index data =
      (sizeT (idx + (output.write (data.drop (idx - index))).2),
        (output.write (data.drop (idx - index))).1) := by
    rw [← hrest]
    rfl
  rw [heq]
  exact {
    refines := h.refines.write _ (by omega)
    idx_eq := by
      simp only [hsnd]
      rw [sizeT_add _ _ (by omega), hpush, hidx]
    written_prefix := hprefix }

/-- How far the assembled index gets: to the end of the slice, or as far as
there is room. -/
theorem writeFrom_fst (h : Assembled S idx output q)
    (hbound : S.length + q.capacity < 2 ^ 31) (hslice : IsSlice S index data)
    (hle : index ≤ idx) (hge : idx ≤ index + data.length) :
    (writeFrom idx output index data).1 = min (index + data.length) (idx + q.room) := by
  have hpush := (assembled_writeFrom h hbound hslice hle hge).idx_eq
  rw [BoundedFifo.length_written_push, List.length_drop, ← h.idx_eq] at hpush
  omega

theorem isEnd_writeFrom : (writeFrom idx output index data).2.isEnd = output.isEnd :=
  isEnd_write output _

end Write

/-- The loop of `push_substring` behind the entries `seen`, started with the
queue `q₀`: the segments that were not popped lie behind the assembled index,
and every byte written came from a segment. A popped segment was written to its
end if the window of the queue reaches that far. -/
structure AssembleInv (S : List UInt8) (q₀ : BoundedFifo UInt8)
    (seen : List (ℕ × List UInt8)) (st : AssembleLoop) (q : BoundedFifo UInt8) :
    Prop where
  assembled : Assembled S st.assembleIdx st.output q
  capacity_eq : q.capacity = q₀.capacity
  readCount_eq : q.readCount = q₀.readCount
  written_le : q₀.written.length ≤ q.written.length
  kept : ∀ d ∈ seen, d.1 ∉ st.popList → st.assembleIdx < d.1
  popped : ∀ k ∈ st.popList, ∃ d ∈ seen, d.1 = k ∧
    (d.1 + d.2.length ≤ q₀.readCount + q₀.capacity →
      d.1 + d.2.length ≤ st.assembleIdx ∨ d.2 = [])
  grown : ∀ p, q₀.written.length ≤ p → p < st.assembleIdx →
    ∃ d ∈ seen, d.1 ≤ p ∧ p < d.1 + d.2.length

section Round

variable {S : List UInt8} {q₀ q : BoundedFifo UInt8} {seen : List (ℕ × List UInt8)}
  {st : AssembleLoop} {e : ℕ × List UInt8}

/-- A segment that is already written, or empty, is popped. -/
theorem assembleInv_pop (h : AssembleInv S q₀ seen st q)
    (hdone : e.1 + e.2.length ≤ st.assembleIdx ∨ e.2 = []) :
    AssembleInv S q₀ (seen ++ [e]) { st with popList := st.popList ++ [e.1] } q where
  assembled := h.assembled
  capacity_eq := h.capacity_eq
  readCount_eq := h.readCount_eq
  written_le := h.written_le
  kept := by
    intro d hd hnot
    rw [List.mem_append, not_or] at hnot
    rcases List.mem_append.mp hd with hd | hd
    · exact h.kept d hd hnot.1
    · obtain rfl := List.mem_singleton.mp hd
      exact absurd (List.mem_singleton.mpr rfl) hnot.2
  popped := by
    intro k hk
    rcases List.mem_append.mp hk with hk | hk
    · obtain ⟨d, hd, hrest⟩ := h.popped k hk
      exact ⟨d, List.mem_append_left _ hd, hrest⟩
    · obtain rfl := List.mem_singleton.mp hk
      exact ⟨e, by simp, rfl, fun _ => hdone⟩
  grown := by
    intro p hp hlt
    obtain ⟨d, hd, hrest⟩ := h.grown p hp hlt
    exact ⟨d, List.mem_append_left _ hd, hrest⟩

/-- A segment behind a hole stays. -/
theorem assembleInv_keep (h : AssembleInv S q₀ seen st q) (hgap : st.assembleIdx < e.1) :
    AssembleInv S q₀ (seen ++ [e]) st q where
  assembled := h.assembled
  capacity_eq := h.capacity_eq
  readCount_eq := h.readCount_eq
  written_le := h.written_le
  kept := by
    intro d hd hnot
    rcases List.mem_append.mp hd with hd | hd
    · exact h.kept d hd hnot
    · obtain rfl := List.mem_singleton.mp hd
      exact hgap
  popped := by
    intro k hk
    obtain ⟨d, hd, hrest⟩ := h.popped k hk
    exact ⟨d, List.mem_append_left _ hd, hrest⟩
  grown := by
    intro p hp hlt
    obtain ⟨d, hd, hrest⟩ := h.grown p hp hlt
    exact ⟨d, List.mem_append_left _ hd, hrest⟩

/-- A segment that has become contiguous is written and popped. All earlier
segments are popped by then, since they lie in front of it. -/
theorem assembleInv_write (h : AssembleInv S q₀ seen st q)
    (hbound : S.length + q₀.capacity < 2 ^ 31) (hslice : IsSlice S e.1 e.2)
    (hseen : ∀ d ∈ seen, d.1 < e.1) (hle : e.1 ≤ st.assembleIdx)
    (hge : st.assembleIdx < e.1 + e.2.length) :
    AssembleInv S q₀ (seen ++ [e])
      { assembleIdx := (writeFrom st.assembleIdx st.output e.1 e.2).1
        output := (writeFrom st.assembleIdx st.output e.1 e.2).2
        popList := st.popList ++ [e.1] }
      (q.push (e.2.drop (st.assembleIdx - e.1))) := by
  have hcap := h.capacity_eq
  have hread := h.readCount_eq
  have hidx := h.assembled.idx_eq
  have hroom := q.room_add_size
  have hsize := q.size_add_readCount
  have hwrite := assembled_writeFrom h.assembled (by omega) hslice hle hge.le
  have hfst := writeFrom_fst h.assembled (by omega) hslice hle hge.le
  exact {
    assembled := hwrite
    capacity_eq := hcap
    readCount_eq := hread
    written_le := by
      rw [BoundedFifo.length_written_push]
      exact le_trans h.written_le (Nat.le_add_right _ _)
    kept := by
      intro d hd hnot
      rw [List.mem_append, not_or] at hnot
      rcases List.mem_append.mp hd with hd | hd
      · have hkept := h.kept d hd hnot.1
        have hlt := hseen d hd
        omega
      · obtain rfl := List.mem_singleton.mp hd
        exact absurd (List.mem_singleton.mpr rfl) hnot.2
    popped := by
      intro k hk
      simp only [hfst]
      rcases List.mem_append.mp hk with hk | hk
      · obtain ⟨d, hd, hkey, hdone⟩ := h.popped k hk
        refine ⟨d, List.mem_append_left _ hd, hkey, ?_⟩
        intro hwindow
        rcases hdone hwindow with hdone | hnil
        · exact Or.inl (by omega)
        · exact Or.inr hnil
      · obtain rfl := List.mem_singleton.mp hk
        exact ⟨e, by simp, rfl, fun _ => Or.inl (by omega)⟩
    grown := by
      intro p hp hlt
      simp only [hfst] at hlt
      by_cases hold : p < st.assembleIdx
      · obtain ⟨d, hd, hrest⟩ := h.grown p hp hold
        exact ⟨d, List.mem_append_left _ hd, hrest⟩
      · exact ⟨e, by simp, by omega, by omega⟩ }

/-- One round of the loop. -/
theorem assembleInv_round (h : AssembleInv S q₀ seen st q)
    (hbound : S.length + q₀.capacity < 2 ^ 31) (hslice : IsSlice S e.1 e.2)
    (hend : e.1 + e.2.length < 2 ^ 64) (hseen : ∀ d ∈ seen, d.1 < e.1) :
    ∃ q', AssembleInv S q₀ (seen ++ [e]) (assembleRound st e) q' := by
  rw [assembleRound]
  rw [sizeT_add e.1 e.2.length hend]
  split_ifs with hdone hgap
  · refine ⟨q, assembleInv_pop h ?_⟩
    rcases hdone with hle | hzero
    · exact Or.inl hle
    · exact Or.inr (List.length_eq_zero_iff.mp hzero)
  · exact ⟨q, assembleInv_keep h hgap⟩
  · rw [not_or] at hdone
    exact ⟨_, assembleInv_write h hbound hslice hseen (by omega) (by omega)⟩

end Round

theorem isEnd_assembleRound (st : AssembleLoop) (e : ℕ × List UInt8) :
    (assembleRound st e).output.isEnd = st.output.isEnd := by
  rw [assembleRound]
  split_ifs
  · rfl
  · rfl
  · exact isEnd_writeFrom

/-- The loop over the whole map. -/
theorem assembleInv_loop (S : List UInt8) (q₀ : BoundedFifo UInt8)
    (m : SortedMap (List UInt8)) (idx : ℕ) (output : ByteStream)
    (hbound : S.length + q₀.capacity < 2 ^ 31) (hslice : ∀ e ∈ m, IsSlice S e.1 e.2)
    (hend : ∀ e ∈ m, e.1 + e.2.length < 2 ^ 64) (h : Assembled S idx output q₀) :
    ∃ q, AssembleInv S q₀ m.entries (m.entries.foldl assembleRound ⟨idx, output, []⟩) q := by
  apply m.foldl_induction assembleRound (fun seen st => ∃ q, AssembleInv S q₀ seen st q)
  · refine ⟨q₀, ?_⟩
    exact {
      assembled := h
      capacity_eq := rfl
      readCount_eq := rfl
      written_le := le_rfl
      kept := by simp
      popped := by simp
      grown := by
        intro p hp hlt
        have hidx := h.idx_eq
        simp only at hlt
        omega }
  · rintro seen e st - he hlt ⟨q, hq⟩
    exact assembleInv_round hq hbound (hslice e he) (hend e he) hlt

end StreamReassembler

end NetworkLabs
