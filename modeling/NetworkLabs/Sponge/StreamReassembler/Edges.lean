import NetworkLabs.Sponge.StreamReassembler.Capacity

/-!
# Pushes at the edges

A push at the largest index is cached as it is, since the end of what it brings
wraps around. A push at the start of the stream is never cached, and it changes
something if it brings a byte, or the end, that is missing at the assembled
index.
-/

namespace NetworkLabs

namespace StreamReassembler

open ByteStream

variable {r : StreamReassembler} {q : BoundedFifo UInt8} {data : List UInt8} {eof : Bool}

/-- What is pushed at the largest index is cached there. -/
theorem mem_pushSubstring_last (hidx : r.assembleIdx < 2 ^ 31) (hdata : data ≠ [])
    (hlen : data.length < 2 ^ 31)
    (hcached : ∀ e ∈ r.segments.entries, e.2 ≠ [] → e.1 + e.2.length < 2 ^ 64 - 1) :
    (2 ^ 64 - 1, data) ∈ (r.pushSubstring data (2 ^ 64 - 1) eof).segments := by
  have hpos := List.length_pos_iff.mpr hdata
  have hright : sizeT ((2 ^ 64 - 1 : ℕ) + data.length) = data.length - 1 := by
    rw [sizeT_add_eq_mod]
    omega
  have hround : ∀ e ∈ r.segments.entries,
      mergeRound (mergeStart (2 ^ 64 - 1) data) e = mergeStart (2 ^ 64 - 1) data := by
    intro e he
    rw [mergeRound, if_neg, mergeLeft, if_neg]
    · rintro ⟨hleft, hreach⟩
      change e.1 < 2 ^ 64 - 1 at hleft
      change 2 ^ 64 - 1 ≤ sizeT _ at hreach
      by_cases hne : e.2 = []
      · rw [hne, sizeT_add _ _ (by simp only [List.length_nil]; omega), List.length_nil] at hreach
        omega
      · have hlt := hcached e he hne
        rw [sizeT_add _ _ (by omega)] at hreach
        omega
    · rintro ⟨hleft, hreach⟩
      change 2 ^ 64 - 1 ≤ e.1 at hleft
      change e.1 ≤ sizeT ((2 ^ 64 - 1 : ℕ) + data.length) at hreach
      rw [hright] at hreach
      omega
  have hloop : r.segments.entries.foldl mergeRound (mergeStart (2 ^ 64 - 1) data) =
      mergeStart (2 ^ 64 - 1) data := by
    apply r.segments.foldl_induction mergeRound (fun _ st => st = mergeStart (2 ^ 64 - 1) data)
    · rfl
    · rintro seen e st - he - rfl
      exact hround e he
  rw [pushSubstring]
  simp only [noteEof_assembleIdx]
  rw [if_pos (by omega), mergeSegments]
  simp only [noteEof_segments, hloop]
  exact (SortedMap.mem_insert _ _ _ _).mpr (Or.inl rfl)

/-- What is pushed at the start of the stream is not cached. -/
theorem mem_of_mem_pushSubstring_zero {e : ℕ × List UInt8}
    (h : e ∈ (r.pushSubstring data 0 eof).segments) : e ∈ r.segments := by
  rw [pushSubstring] at h
  simp only [Nat.not_lt_zero, if_false] at h
  split_ifs at h
  · rwa [noteEof_segments] at h
  · rw [checkEof_segments] at h
    have hkept := ((SortedMap.mem_eraseAll _ _ e).mp h).1
    rwa [noteEof_segments] at hkept

/-- The loop of `push_substring` does not fall back. -/
theorem le_foldl_assembleRound (l : List (ℕ × List UInt8)) (st : AssembleLoop)
    (h : Counts st.output q) (hidx : st.assembleIdx = q.written.length) :
    st.assembleIdx ≤ (l.foldl assembleRound st).assembleIdx := by
  induction l generalizing st q with
  | nil => exact le_refl _
  | cons e l ih =>
      rw [List.foldl_cons, assembleRound]
      split_ifs
      · exact ih { st with popList := st.popList ++ [e.1] } h hidx
      · exact ih st h hidx
      · obtain ⟨x, hcounts, hwritten⟩ := counts_writeFrom h hidx e.1 e.2
        refine le_trans ?_ (ih ⟨_, _, st.popList ++ [e.1]⟩ hcounts hwritten)
        change st.assembleIdx ≤ (writeFrom _ _ _ _).1
        rw [hwritten, hidx, BoundedFifo.length_written_push]
        exact Nat.le_add_right _ _

variable (data) in
/-- A push of bytes that are missing at the assembled index takes them in, as long as there is
room. -/
theorem lt_assembleIdx_assemble (h : Counts r.output q)
    (hidx : r.assembleIdx = q.written.length) (hroom : 0 < r.output.remainingCapacity)
    (hlen : data.length < 2 ^ 31) (hreach : r.assembleIdx < data.length) :
    r.assembleIdx < (r.assemble 0 data).assembleIdx := by
  have hbound := h.end_lt
  have hroomle := q.room_add_size
  have hread := q.size_add_readCount
  rw [h.remainingCapacity_eq] at hroom
  have hrest := substr_rest data r.assembleIdx 0 (Nat.zero_le _) (by omega) (by omega) hlen
  obtain ⟨x, hcounts, hwritten⟩ := counts_writeFrom h hidx 0 data
  refine lt_of_lt_of_le ?_ (le_foldl_assembleRound _ ⟨_, _, []⟩ hcounts hwritten)
  change r.assembleIdx < sizeT (r.assembleIdx + (r.output.write _).2)
  rw [hrest, h.write_snd, Nat.sub_zero, List.length_drop, sizeT_add _ _ (by omega)]
  omega

theorem pushSubstring_zero_eq (hlen : data.length < 2 ^ 31) (hle : r.assembleIdx ≤ data.length) :
    r.pushSubstring data 0 eof = ((r.noteEof 0 data eof).assemble 0 data).checkEof := by
  have hbegin : (Int32.ofInt ((r.assembleIdx : ℤ) - (0 : ℕ))).toInt = r.assembleIdx := by
    rw [Nat.cast_zero, sub_zero]
    exact MachineInt.toInt_ofInt_natCast _ (by omega)
  have hcnt : (Int32.ofInt ((data.length : ℤ) - r.assembleIdx)).toInt =
      (data.length - r.assembleIdx : ℕ) := by
    rw [← Nat.cast_sub hle]
    exact MachineInt.toInt_ofInt_natCast _ (by omega)
  rw [pushSubstring]
  simp only [noteEof_assembleIdx]
  rw [if_neg (Nat.not_lt_zero _), hbegin, hcnt, if_neg (by omega)]

/-- A push at the start of the stream that brings something new does not leave the reassembler as
it was. -/
theorem pushSubstring_zero_ne (h : Counts r.output q)
    (hidx : r.assembleIdx = q.written.length) (hroom : 0 < r.output.remainingCapacity)
    (hlen : data.length < 2 ^ 31) (heof : r.eofIdx ≠ r.assembleIdx)
    (hreach : r.assembleIdx < data.length + if eof = true then 1 else 0) :
    r.pushSubstring data 0 eof ≠ r := by
  intro heq
  have hle : r.assembleIdx ≤ data.length := by
    split_ifs at hreach
    · omega
    · omega
  rw [pushSubstring_zero_eq hlen hle] at heq
  by_cases hnew : r.assembleIdx < data.length
  · have hlt := lt_assembleIdx_assemble (r := r.noteEof 0 data eof) data
      (by rwa [noteEof_output]) (by rwa [noteEof_assembleIdx]) (by rwa [noteEof_output]) hlen
      (by rwa [noteEof_assembleIdx])
    have hkept := congrArg assembleIdx heq
    rw [checkEof_assembleIdx] at hkept
    rw [hkept, noteEof_assembleIdx] at hlt
    exact Nat.lt_irrefl _ hlt
  · have hfin : eof = true := by
      by_contra hnot
      rw [if_neg hnot] at hreach
      exact hnew hreach
    have hknown : (((r.noteEof 0 data eof).assemble 0 data).checkEof).eofIdx = data.length := by
      rw [checkEof_eofIdx]
      change (r.noteEof 0 data eof).eofIdx = _
      rw [noteEof, if_pos hfin]
      exact sizeT_add data.length 0 (by omega)
    rw [heq] at hknown
    exact heof (by omega)

end StreamReassembler

end NetworkLabs
