import NetworkLabs.Sponge.ByteStream.Cursors
import NetworkLabs.Sponge.StreamReassembler.Lengths

/-!
# The memory of a reassembler

The capacity of a reassembler is a limit on the bytes in its output and in its
map together. The output keeps to it; the map has no limit of its own. The
bytes fit as long as everything that is cached lies in front of `bytes_read`
plus the capacity, where there will be room for it, and as long as the cursors
of the output stay in their range.

`Fitting r q` is the invariant: it speaks of positions and lengths only, since
nothing is known of the bytes that are pushed.
-/

namespace NetworkLabs

namespace StreamReassembler

open ByteStream

/-- The bytes that are kept do not exceed the capacity, and none is kept for which
there will be no room. -/
structure WithinCapacity (capacity : ℕ) (r : StreamReassembler) : Prop where
  total_le : r.streamOut.bufferSize + r.unassembledBytes ≤ capacity
  discarded : ∀ e ∈ r.segments, e.2 ≠ [] →
    e.1 + e.2.length ≤ r.streamOut.bytesRead + capacity

/-- The arguments of a call are in the range of their types. -/
def Call.WellTyped : Call → Prop
  | .push data index _ => index < 2 ^ 64 ∧ data.length < 2 ^ 63
  | .read _ => True

/-- A push that is cached lies in front of the window's end, and a reader does not
take the cursor out of its range. -/
def Call.Fits (capacity : ℕ) (s : Session) : Call → Prop
  | .push data index _ => s.reassembler.assembleIdx < index → data ≠ [] →
      index + data.length ≤ s.reassembler.output.bytesRead + capacity
  | .read len =>
      capacity + (s.reassembler.output.bytesRead + min s.reassembler.output.bufferSize len)
        < 2 ^ 31

/-- The output counts the queue `q`, and the segments stand apart between the
assembled index and the end of the window. -/
structure Fitting (r : StreamReassembler) (q : BoundedFifo UInt8) : Prop where
  counts : Counts r.output q
  idx_eq : r.assembleIdx = q.written.length
  spread : Spread r.assembleIdx r.segments
  within : ∀ e ∈ r.segments, e.2 ≠ [] → e.1 + e.2.length ≤ q.readCount + q.capacity

section

variable {r : StreamReassembler} {q : BoundedFifo UInt8} {index : ℕ} {data : List UInt8}

theorem fitting_new (capacity : ℕ) (h : capacity < 2 ^ 31) :
    Fitting (new capacity) (BoundedFifo.empty capacity) where
  counts := counts_new capacity h
  idx_eq := rfl
  spread := by
    refine ⟨?_, ?_, ?_⟩
    all_goals simp [new]
  within := by simp [new]

theorem Fitting.withinCapacity (h : Fitting r q) : WithinCapacity q.capacity r where
  total_le := by
    have hidx := h.idx_eq
    have hlen := q.length_le
    have hsize := q.size_add_readCount
    have hsum := sum_length_le h.spread (by omega) h.within
    rw [streamOut, h.counts.bufferSize_eq, unassembledBytes]
    omega
  discarded := by
    rw [streamOut, bytesRead, h.counts.readCnt_eq]
    exact h.within

theorem Fitting.noteEof (h : Fitting r q) (index : ℕ) (data : List UInt8) (eof : Bool) :
    Fitting (r.noteEof index data eof) q where
  counts := by
    rw [noteEof_output]
    exact h.counts
  idx_eq := by
    rw [noteEof_assembleIdx]
    exact h.idx_eq
  spread := by
    rw [noteEof_assembleIdx, noteEof_segments]
    exact h.spread
  within := by
    rw [noteEof_segments]
    exact h.within

theorem Fitting.checkEof (h : Fitting r q) : Fitting r.checkEof q := by
  rw [StreamReassembler.checkEof]
  split_ifs
  · exact { h with counts := { h.counts with } }
  · exact h

/-! ## Caching -/

theorem Fitting.mergeSegments (h : Fitting r q) (ha : r.assembleIdx < index)
    (hindex : index < 2 ^ 64)
    (hfits : data ≠ [] → index + data.length ≤ q.readCount + q.capacity) :
    Fitting (r.mergeSegments index data) q := by
  have hlt := h.counts.end_lt
  have hend : index + data.length < 2 ^ 64 := by
    by_cases hnil : data = []
    · rw [hnil]
      exact hindex
    · have hle := hfits hnil
      omega
  obtain ⟨hspread, hholds⟩ := spread_mergeSegments r index data h.spread ha hend
  obtain ⟨m, hm⟩ := mergeSegments_eq r index data
  rw [hm] at hspread hholds ⊢
  refine ⟨h.counts, h.idx_eq, hspread, ?_⟩
  intro e he hne
  -- the last byte of a segment is in the window
  have hpos := List.length_pos_iff.mpr hne
  have hlast := (hholds (e.1 + e.2.length - 1)).mp ⟨e, he, by omega, by omega⟩
  rcases hlast with ⟨d, hd, hle, hlt'⟩ | ⟨hle, hlt'⟩
  · have hwithin := h.within d hd (List.ne_nil_of_length_pos (by omega))
    omega
  · have hwithin := hfits (List.ne_nil_of_length_pos (by omega))
    omega

/-- A substring that ends behind the range of `size_t` touches no segment, since
its own end has wrapped around. -/
theorem mergeRound_of_wrap (h : Fitting r q) (hindex : index < 2 ^ 64)
    (hlen : data.length < 2 ^ 63) (hwrap : 2 ^ 64 ≤ index + data.length)
    {e : ℕ × List UInt8} (he : e ∈ r.segments) :
    mergeRound (mergeStart index data) e = mergeStart index data := by
  have hrange := h.counts.end_lt
  have hseg : sizeT (e.1 + e.2.length) = e.1 + e.2.length :=
    sizeT_add _ _ (h.spread.bounded e he)
  have hrgt : (mergeStart index data).dataRgt < index := by
    change sizeT (index + data.length) < index
    rw [sizeT, MachineInt.unsigned]
    omega
  have hlft : (mergeStart index data).dataLft = index := rfl
  have hshort : e.1 + e.2.length = e.1 ∨ e.1 + e.2.length < index := by
    by_cases hnil : e.2 = []
    · rw [hnil]
      exact Or.inl rfl
    · have hwithin := h.within e he hnil
      omega
  rw [mergeRound]
  simp only [hlft]
  rw [if_neg (by omega), mergeLeft]
  simp only [hseg, hlft]
  rw [if_neg (by omega)]

/-- A substring that is cached behind the window stays there. -/
theorem exists_behind (h : Fitting r q) (ha : r.assembleIdx < index) (hindex : index < 2 ^ 64)
    (hlen : data.length < 2 ^ 63) (hne : data ≠ [])
    (hfar : q.readCount + q.capacity < index + data.length) :
    ∃ e ∈ (r.mergeSegments index data).segments, e.2 ≠ [] ∧
      q.readCount + q.capacity < e.1 + e.2.length := by
  have hpos := List.length_pos_iff.mpr hne
  by_cases hwrap : index + data.length < 2 ^ 64
  · obtain ⟨-, hholds⟩ := spread_mergeSegments r index data h.spread ha hwrap
    obtain ⟨e, he, hle, hlt⟩ :=
      (hholds (index + data.length - 1)).mpr (Or.inr ⟨by omega, by omega⟩)
    exact ⟨e, he, List.ne_nil_of_length_pos (by omega), by omega⟩
  · have hloop : r.segments.entries.foldl mergeRound (mergeStart index data) =
        mergeStart index data := by
      apply r.segments.foldl_induction mergeRound (fun _ st => st = mergeStart index data)
      · rfl
      · rintro seen e st - he - rfl
        exact mergeRound_of_wrap h hindex hlen (by omega) he
    refine ⟨(index, data), ?_, hne, hfar⟩
    have hcached : (mergeStart index data).cached = true := rfl
    rw [StreamReassembler.mergeSegments]
    simp only [hloop]
    rw [if_pos hcached]
    exact (SortedMap.mem_insert _ _ _ _).mpr (Or.inl rfl)

/-! ## Assembling -/

/-- The loop of `push_substring` behind the entries `seen`. -/
structure Assembles (q₀ : BoundedFifo UInt8) (seen : List (ℕ × List UInt8))
    (st : AssembleLoop) (q : BoundedFifo UInt8) : Prop where
  counts : Counts st.output q
  idx_eq : st.assembleIdx = q.written.length
  capacity_eq : q.capacity = q₀.capacity
  readCount_eq : q.readCount = q₀.readCount
  kept : ∀ d ∈ seen, d.1 ∉ st.popList → st.assembleIdx < d.1

/-- Whatever is written of a substring, the index goes along. -/
theorem counts_writeFrom {idx : ℕ} {output : ByteStream} (h : Counts output q)
    (hidx : idx = q.written.length) (index : ℕ) (data : List UInt8) :
    ∃ x, Counts (writeFrom idx output index data).2 (q.push x) ∧
      (writeFrom idx output index data).1 = (q.push x).written.length := by
  refine ⟨_, h.write _, ?_⟩
  have hlen := (q.push (substr data (Int32.ofInt (idx - index)).toInt
    (Int32.ofInt (data.length - (Int32.ofInt (idx - index)).toInt)).toInt)).length_le
  have hlt := h.end_lt
  have hroom := q.room_add_size
  rw [BoundedFifo.readCount_push, BoundedFifo.capacity_push] at hlen
  rw [BoundedFifo.length_written_push] at hlen ⊢
  change sizeT (idx + (output.write _).2) = _
  rw [h.write_snd, hidx, sizeT_add _ _ (by omega)]

theorem Assembles.round {q₀ : BoundedFifo UInt8} {seen : List (ℕ × List UInt8)}
    {st : AssembleLoop} (h : Assembles q₀ seen st q) (e : ℕ × List UInt8)
    (hseen : ∀ d ∈ seen, d.1 < e.1) :
    ∃ q', Assembles q₀ (seen ++ [e]) (assembleRound st e) q' := by
  have hpopped {idx : ℕ} (hidx : ∀ d ∈ seen, d.1 ∉ st.popList → idx < d.1) :
      ∀ d ∈ seen ++ [e], d.1 ∉ st.popList ++ [e.1] → idx < d.1 := by
    intro d hd hnot
    rw [List.mem_append, not_or] at hnot
    rcases List.mem_append.mp hd with hold | hnew
    · exact hidx d hold hnot.1
    · obtain rfl := List.mem_singleton.mp hnew
      exact absurd (List.mem_singleton.mpr rfl) hnot.2
  rw [assembleRound]
  split_ifs with hdone hgap
  · exact ⟨q, { h with kept := hpopped h.kept }⟩
  · refine ⟨q, { h with kept := ?_ }⟩
    intro d hd hnot
    rcases List.mem_append.mp hd with hold | hnew
    · exact h.kept d hold hnot
    · obtain rfl := List.mem_singleton.mp hnew
      exact hgap
  · obtain ⟨x, hcounts, hidx⟩ := counts_writeFrom h.counts h.idx_eq e.1 e.2
    refine ⟨q.push x, hcounts, hidx, h.capacity_eq, h.readCount_eq, hpopped ?_⟩
    -- a segment that was kept in front of this one would have stopped the index
    intro d hd hnot
    have hkept := h.kept d hd hnot
    have hlt := hseen d hd
    omega

theorem Fitting.assemble (h : Fitting r q) (index : ℕ) (data : List UInt8) :
    ∃ q', Fitting (r.assemble index data) q' ∧ q'.capacity = q.capacity ∧
      q'.readCount = q.readCount := by
  obtain ⟨x, hcounts, hidx⟩ := counts_writeFrom h.counts h.idx_eq index data
  have hloop : ∃ q', Assembles q r.segments.entries (r.segments.entries.foldl assembleRound
      ⟨(writeFrom r.assembleIdx r.output index data).1,
        (writeFrom r.assembleIdx r.output index data).2, []⟩) q' := by
    apply r.segments.foldl_induction assembleRound
      (fun seen st => ∃ q', Assembles q seen st q')
    · exact ⟨q.push x, hcounts, hidx, rfl, rfl, fun _ hd => absurd hd List.not_mem_nil⟩
    · rintro seen e st - - hlt ⟨q', hq'⟩
      exact hq'.round e hlt
  obtain ⟨q', hq'⟩ := hloop
  refine ⟨q', ?_, hq'.capacity_eq, hq'.readCount_eq⟩
  have hold : ∀ e ∈ (r.assemble index data).segments, e ∈ r.segments :=
    fun e he => ((SortedMap.mem_eraseAll _ _ e).mp he).1
  exact {
    counts := hq'.counts
    idx_eq := hq'.idx_eq
    spread := {
      beyond := by
        intro e he
        obtain ⟨hmem, hnot⟩ := (SortedMap.mem_eraseAll _ _ e).mp he
        exact hq'.kept e hmem hnot
      bounded := fun e he => h.spread.bounded e (hold e he)
      apart := fun e he f hf => h.spread.apart e (hold e he) f (hold f hf) }
    within := by
      intro e he
      rw [hq'.readCount_eq, hq'.capacity_eq]
      exact h.within e (hold e he) }

/-- A push that fits keeps the invariant. -/
theorem Fitting.pushSubstring (h : Fitting r q) (hindex : index < 2 ^ 64) (eof : Bool)
    (hfits : r.assembleIdx < index → data ≠ [] →
      index + data.length ≤ q.readCount + q.capacity) :
    ∃ q', Fitting (r.pushSubstring data index eof) q' ∧ q'.capacity = q.capacity ∧
      q'.readCount = q.readCount := by
  have hnote := h.noteEof index data eof
  rw [StreamReassembler.pushSubstring]
  simp only [noteEof_assembleIdx]
  split_ifs with hcache hshort
  · refine ⟨q, hnote.mergeSegments ?_ hindex (hfits hcache), rfl, rfl⟩
    rw [noteEof_assembleIdx]
    exact hcache
  · exact ⟨q, hnote, rfl, rfl⟩
  · obtain ⟨q', hq', hcap, hread⟩ := hnote.assemble index data
    exact ⟨q', hq'.checkEof, hcap, hread⟩

theorem Fitting.popOutput (h : Fitting r q) (len : ℕ)
    (hlt : q.capacity + (q.pop len).readCount < 2 ^ 31) :
    Fitting { r with output := r.output.popOutput len } (q.pop len) where
  counts := h.counts.popOutput len hlt
  idx_eq := h.idx_eq
  spread := h.spread
  within := by
    intro e he hne
    have hwithin := h.within e he hne
    rw [BoundedFifo.readCount_pop, BoundedFifo.capacity_pop]
    omega

/-- A reader that takes the cursor out of its range makes the output report more
bytes than it can hold. -/
theorem capacity_lt_bufferSize (h : Fitting r q) (len : ℕ)
    (hover : 2 ^ 31 ≤ q.capacity + (q.pop len).readCount) (hcap : q.capacity < 2 ^ 31) :
    q.capacity < (r.output.popOutput len).bufferSize := by
  have hsize : (r.output.popSize len).toInt = (min q.size len : ℕ) := h.counts.readSize_eq len
  have hend := h.counts.end_eq
  have hbegin := h.counts.begin_eq
  have hlen := q.length_le
  have hread := q.size_add_readCount
  have hrange := h.counts.end_lt
  have hcursor : (r.output.popOutput len).endCursor.toInt =
      q.capacity + (q.pop len).readCount - 2 ^ 32 := by
    change (r.output.endCursor + r.output.popSize len).toInt = _
    rw [BoundedFifo.readCount_pop] at hover ⊢
    rw [Int32.toInt_add, hend, hsize, Int.bmod_def]
    push_cast
    omega
  have hvalue : (r.output.popOutput len).bufferSize =
      sizeT (r.output.beginCursor.toInt -
        ((r.output.popOutput len).endCursor.toInt - r.output.capacity)) := rfl
  have hle := (q.pop len).readCount_le
  rw [BoundedFifo.written_pop] at hle
  rw [hvalue, hcursor, hbegin, h.counts.capacity_eq, sizeT, MachineInt.unsigned]
  omega

end

/-! ## Runs -/

/-- The invariant of a session, with the capacity of its reassembler. -/
def Holding (capacity : ℕ) (s : Session) : Prop :=
  ∃ q, Fitting s.reassembler q ∧ q.capacity = capacity

section

variable {capacity : ℕ} {s : Session} {c : Call}

/-- The step lemma: a call that fits keeps the invariant. -/
theorem Holding.step (h : Holding capacity s) (hc : c.WellTyped) (hfits : c.Fits capacity s) :
    Holding capacity (s.step c) := by
  obtain ⟨q, hq, hcap⟩ := h
  cases c with
  | push data index eof =>
      change s.reassembler.assembleIdx < index → data ≠ [] →
        index + data.length ≤ s.reassembler.output.readCnt + capacity at hfits
      rw [hq.counts.readCnt_eq, ← hcap] at hfits
      obtain ⟨q', hq', hcap', -⟩ := hq.pushSubstring hc.1 eof hfits
      exact ⟨q', hq', hcap'.trans hcap⟩
  | read len =>
      change capacity + (s.reassembler.output.readCnt + min s.reassembler.output.bufferSize len)
        < 2 ^ 31 at hfits
      rw [hq.counts.readCnt_eq, hq.counts.bufferSize_eq, ← hcap] at hfits
      exact ⟨q.pop len, hq.popOutput len hfits, hcap⟩

/-- A call that does not fit breaks the limit. -/
theorem Holding.fits (h : Holding capacity s) (hcapacity : capacity < 2 ^ 31)
    (hc : c.WellTyped) (hwithin : WithinCapacity capacity (s.step c).reassembler) :
    c.Fits capacity s := by
  obtain ⟨q, hq, hcap⟩ := h
  cases c with
  | push data index eof =>
      change s.reassembler.assembleIdx < index → data ≠ [] →
        index + data.length ≤ s.reassembler.output.readCnt + capacity
      intro ha hne
      rw [hq.counts.readCnt_eq, ← hcap]
      by_contra hfar
      have hnote := hq.noteEof index data eof
      obtain ⟨e, he, hne', hlt⟩ := exists_behind hnote (by rwa [noteEof_assembleIdx]) hc.1 hc.2
        hne (by omega)
      have heq : (s.step (.push data index eof)).reassembler =
          (s.reassembler.noteEof index data eof).mergeSegments index data := by
        change s.reassembler.pushSubstring data index eof = _
        rw [pushSubstring]
        simp only [noteEof_assembleIdx]
        rw [if_pos ha]
      obtain ⟨m, hm⟩ := mergeSegments_eq (s.reassembler.noteEof index data eof) index data
      have hend := hwithin.discarded e (by rwa [heq]) hne'
      have hread : (s.step (.push data index eof)).reassembler.streamOut.bytesRead =
          q.readCount := by
        rw [heq, hm]
        exact hnote.counts.readCnt_eq
      rw [hread, ← hcap] at hend
      omega
  | read len =>
      change capacity + (s.reassembler.output.readCnt + min s.reassembler.output.bufferSize len)
        < 2 ^ 31
      rw [hq.counts.readCnt_eq, hq.counts.bufferSize_eq, ← hcap]
      by_contra hover
      rw [← BoundedFifo.readCount_pop] at hover
      have hlt := capacity_lt_bufferSize hq len (by omega) (by omega)
      have htotal := hwithin.total_le
      change (s.reassembler.output.popOutput len).bufferSize + _ ≤ capacity at htotal
      omega

end

/-- The memory of a reassembler stays within its capacity exactly in the runs in
which everything that is cached lies in front of the end of the window and the
bytes read and the capacity stay below `2 ^ 31` together. -/
theorem withinCapacity_iff (capacity : ℕ) (hcapacity : capacity < 2 ^ 31) (calls : List Call)
    (hcalls : ∀ c ∈ calls, c.WellTyped) :
    (∀ k, WithinCapacity capacity (Session.run capacity (calls.take k)).reassembler) ↔
      Transition.Along Session.step (Call.Fits capacity) (Session.start capacity) calls := by
  have hholding : ∀ s, Holding capacity s → WithinCapacity capacity s.reassembler := by
    rintro s ⟨q, hq, hcap⟩
    rw [← hcap]
    exact hq.withinCapacity
  have hstart : Holding capacity (Session.start capacity) :=
    ⟨_, fitting_new capacity hcapacity, rfl⟩
  apply Transition.forall_take_iff_along_of_invariant (Holding capacity)
    (fun s => WithinCapacity capacity s.reassembler) Call.WellTyped
  · intro s c hs hc
    exact ⟨hs.fits hcapacity hc, fun hfits => hholding _ (hs.step hc hfits)⟩
  · exact fun s c hs hc hfits => hs.step hc hfits
  · exact hcalls
  · exact hstart
  · exact hholding _ hstart

/-- A cached byte, and a push that fills the hole in front of it. -/
theorem withinCapacity_iff_hole :
    (∀ k, WithinCapacity 4 (Session.run 4 (([.push [2] 1 false, .push [1] 0 false] :
      List Call).take k)).reassembler) ↔
      Transition.Along Session.step (Call.Fits 4) (Session.start 4)
        [.push [2] 1 false, .push [1] 0 false] :=
  withinCapacity_iff 4 (by decide) _ (by simp [Call.WellTyped])

/-- A reassembler for one byte caches two. -/
theorem not_withinCapacity_ahead :
    ¬ ∀ (capacity : ℕ) (calls : List Call), (∀ c ∈ calls, c.WellTyped) →
      (Session.run capacity calls).reassembler.streamOut.bufferSize +
        (Session.run capacity calls).reassembler.unassembledBytes ≤ capacity := by
  intro h
  have htotal := h 1 [.push [1, 2] 5 false] (by simp [Call.WellTyped])
  exact absurd htotal (by decide)

end StreamReassembler

end NetworkLabs
