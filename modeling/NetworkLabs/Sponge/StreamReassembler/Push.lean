import NetworkLabs.Sponge.StreamReassembler.Assemble

/-!
# One push into the reassembler

`Inv S r q` is what holds of a reassembler that is fed slices of the stream
`S`: its output stores the queue `q`, whose history is a prefix of `S`, its map
is separated, and its output has ended exactly when the end of the stream is
known and reached. Every push of a slice keeps it, also when the output is full
or the slice was pushed before.

`Covers r p` says that the byte at the index `p` was assembled or is cached. A
push inside the window of the output adds the positions of the slice and loses
none.
-/

namespace NetworkLabs

namespace StreamReassembler

open ByteStream

/-- The part of the invariant that holds in the middle of a push as well. -/
structure Base (S : List UInt8) (r : StreamReassembler) (q : BoundedFifo UInt8) :
    Prop where
  assembled : Assembled S r.assembleIdx r.output q
  bound : S.length + q.capacity < 2 ^ 31
  separated : Separated S r.assembleIdx r.segments
  eofIdx_eq : r.eofIdx = sizeT (-1) ∨ r.eofIdx = S.length

/-- The invariant of a reassembler that is fed slices of `S`. -/
structure Inv (S : List UInt8) (r : StreamReassembler) (q : BoundedFifo UInt8) : Prop
    extends Base S r q where
  isEnd_iff : r.output.isEnd = true ↔ r.eofIdx = S.length ∧ r.assembleIdx = S.length

/-- The byte at the index `p` was assembled or is cached. -/
def Covers (r : StreamReassembler) (p : ℕ) : Prop :=
  p < r.assembleIdx ∨ Holds r.segments p

/-- The end that is stored while none is known. -/
theorem sizeT_neg_one : sizeT (-1) = 2 ^ 64 - 1 := by decide

theorem inv_new (S : List UInt8) (capacity : ℕ) (h : S.length + capacity < 2 ^ 31) :
    Inv S (new capacity) (BoundedFifo.empty capacity) where
  assembled := {
    refines := new_refines capacity (by omega)
    idx_eq := rfl
    written_prefix := List.nil_prefix }
  bound := h
  separated := {
    slice := by simp [new]
    beyond := by simp [new]
    bounded := by simp [new]
    apart := by simp [new] }
  eofIdx_eq := Or.inl rfl
  isEnd_iff := by
    have hne : sizeT (-1) ≠ S.length := by
      rw [sizeT_neg_one]
      omega
    constructor
    · exact fun hend => absurd hend (by simp [new, ByteStream.new])
    · exact fun hend => absurd hend.1 hne

theorem not_covers_new (capacity p : ℕ) : ¬ Covers (new capacity) p := by
  rintro (hp | ⟨e, he, -⟩)
  · exact absurd hp (Nat.not_lt_zero p)
  · exact SortedMap.not_mem_empty e he

/-- A reader takes from the output and leaves the rest as it is. -/
theorem Inv.popOutput {S : List UInt8} {r : StreamReassembler} {q : BoundedFifo UInt8}
    (h : Inv S r q) (n : ℕ) :
    Inv S { r with output := r.output.popOutput n } (q.pop n) where
  assembled := {
    refines := h.assembled.refines.popOutput n
    idx_eq := h.assembled.idx_eq
    written_prefix := h.assembled.written_prefix }
  bound := h.bound
  separated := h.separated
  eofIdx_eq := h.eofIdx_eq
  isEnd_iff := h.isEnd_iff

theorem Inv.setError {S : List UInt8} {r : StreamReassembler} {q : BoundedFifo UInt8}
    (h : Inv S r q) : Inv S { r with output := r.output.setError } q where
  assembled := {
    refines := h.assembled.refines.setError
    idx_eq := h.assembled.idx_eq
    written_prefix := h.assembled.written_prefix }
  bound := h.bound
  separated := h.separated
  eofIdx_eq := h.eofIdx_eq
  isEnd_iff := h.isEnd_iff

/-- The stream may grow as long as its end is not known. -/
theorem Inv.mono {S T : List UInt8} {r : StreamReassembler} {q : BoundedFifo UInt8}
    (h : Inv S r q) (hST : S <+: T) (hbound : T.length + q.capacity < 2 ^ 31)
    (hopen : r.eofIdx = S.length → S = T) : Inv T r q := by
  by_cases hknown : r.eofIdx = S.length
  · rwa [← hopen hknown]
  · have hnone := h.eofIdx_eq.resolve_right hknown
    have hT : r.eofIdx ≠ T.length := by
      rw [hnone, sizeT_neg_one]
      omega
    exact {
      assembled := { h.assembled with
        written_prefix := h.assembled.written_prefix.trans hST }
      bound := hbound
      separated := { h.separated with
        slice := fun e he => (h.separated.slice e he).mono hST }
      eofIdx_eq := Or.inl hnone
      isEnd_iff := by
        rw [h.isEnd_iff]
        constructor
        · exact fun hend => absurd hend.1 hknown
        · exact fun hend => absurd hend.1 hT }

section

variable {S : List UInt8} {r : StreamReassembler} {q : BoundedFifo UInt8} {index : ℕ}
  {data : List UInt8} {eof : Bool}

theorem Base.assembleIdx_le (h : Base S r q) : r.assembleIdx ≤ S.length := by
  rw [h.assembled.idx_eq]
  exact h.assembled.written_prefix.length_le

/-- The history of the output is the prefix up to the assembled index. -/
theorem Base.written_eq (h : Base S r q) : q.written = S.take r.assembleIdx := by
  rw [h.assembled.idx_eq]
  exact List.prefix_iff_eq_take.mp h.assembled.written_prefix

/-- Nothing is cached behind the end of the stream. -/
theorem unassembledBytes_eq_zero (h : Separated S r.assembleIdx r.segments)
    (hend : r.assembleIdx = S.length) : r.unassembledBytes = 0 := by
  rw [unassembledBytes, List.sum_eq_zero_iff]
  intro n hn
  obtain ⟨e, he, rfl⟩ := List.mem_map.mp hn
  by_contra hne
  have hle := (h.slice e he).add_length_le fun hnil => hne (by rw [hnil]; rfl)
  have hlt := h.beyond e he
  omega

/-! ## Noting the end -/

theorem noteEof_eofIdx (hslice : IsSlice S index data)
    (hS : S.length < 2 ^ 31) (heof : eof = true → index + data.length = S.length) :
    (r.noteEof index data eof).eofIdx = if eof then S.length else r.eofIdx := by
  rw [noteEof]
  split_ifs with h
  · have hend := heof h
    have hdata := length_lt_of_slice hslice hS
    change sizeT (data.length + index) = S.length
    rw [sizeT_add _ _ (by omega)]
    omega
  · rfl

theorem noteEof_assembleIdx :
    (r.noteEof index data eof).assembleIdx = r.assembleIdx := by
  rw [noteEof]
  split_ifs
  · rfl
  · rfl

theorem noteEof_segments : (r.noteEof index data eof).segments = r.segments := by
  rw [noteEof]
  split_ifs
  · rfl
  · rfl

theorem noteEof_output : (r.noteEof index data eof).output = r.output := by
  rw [noteEof]
  split_ifs
  · rfl
  · rfl

theorem base_noteEof (h : Base S r q) (hslice : IsSlice S index data)
    (heof : eof = true → index + data.length = S.length) :
    Base S (r.noteEof index data eof) q where
  assembled := by
    rw [noteEof_assembleIdx, noteEof_output]
    exact h.assembled
  bound := h.bound
  separated := by
    rw [noteEof_assembleIdx, noteEof_segments]
    exact h.separated
  eofIdx_eq := by
    have hbound := h.bound
    rw [noteEof_eofIdx hslice (by omega) heof]
    split_ifs
    · exact Or.inr rfl
    · exact h.eofIdx_eq

/-! ## The branch that writes -/

/-- The map left behind by the loop of `push_substring`. -/
theorem separated_eraseAll {m : SortedMap (List UInt8)} {a : ℕ} {q₀ : BoundedFifo UInt8}
    {st : AssembleLoop} (hm : Separated S a m)
    (h : AssembleInv S q₀ m.entries st q) :
    Separated S st.assembleIdx (m.eraseAll st.popList) where
  slice := by
    intro e he
    exact hm.slice e ((SortedMap.mem_eraseAll m _ e).mp he).1
  beyond := by
    intro e he
    obtain ⟨hmem, hnot⟩ := (SortedMap.mem_eraseAll m _ e).mp he
    exact h.kept e hmem hnot
  bounded := by
    intro e he
    exact hm.bounded e ((SortedMap.mem_eraseAll m _ e).mp he).1
  apart := by
    intro e he f hf
    exact hm.apart e ((SortedMap.mem_eraseAll m _ e).mp he).1
      f ((SortedMap.mem_eraseAll m _ f).mp hf).1

/-- What the writing branch does: the loop starts from the queue into which the
rest of the substring was pushed. -/
theorem assemble_spec (h : Base S r q) (hslice : IsSlice S index data)
    (hle : index ≤ r.assembleIdx) (hge : r.assembleIdx ≤ index + data.length) :
    ∃ q', Base S (r.assemble index data) q' ∧
      AssembleInv S (q.push (data.drop (r.assembleIdx - index))) r.segments.entries
        (r.segments.entries.foldl assembleRound
          ⟨(writeFrom r.assembleIdx r.output index data).1,
            (writeFrom r.assembleIdx r.output index data).2, []⟩) q' := by
  have hwrite := assembled_writeFrom h.assembled h.bound hslice hle hge
  obtain ⟨q', hq'⟩ := assembleInv_loop S (q.push (data.drop (r.assembleIdx - index)))
    r.segments _ _ h.bound h.separated.slice h.separated.bounded hwrite
  refine ⟨q', ?_, hq'⟩
  exact {
    assembled := hq'.assembled
    bound := by
      rw [hq'.capacity_eq]
      exact h.bound
    separated := separated_eraseAll h.separated hq'
    eofIdx_eq := h.eofIdx_eq }

theorem isEnd_assemble :
    (r.assemble index data).output.isEnd = r.output.isEnd := by
  have hloop : ∀ (l : List (ℕ × List UInt8)) (st : AssembleLoop),
      (l.foldl assembleRound st).output.isEnd = st.output.isEnd := by
    intro l
    induction l with
    | nil => exact fun st => rfl
    | cons e l ih => exact fun st => (ih _).trans (isEnd_assembleRound st e)
  exact (hloop _ _).trans isEnd_writeFrom

/-- The test for the end restores the invariant. -/
theorem inv_checkEof (h : Base S r q)
    (hend : r.output.isEnd = true → r.eofIdx = S.length ∧ r.assembleIdx = S.length) :
    Inv S r.checkEof q := by
  have hbound := h.bound
  have hS : sizeT (-1) ≠ S.length := by
    rw [sizeT_neg_one]
    omega
  have hle := h.assembleIdx_le
  rw [checkEof]
  split_ifs with htest
  · rw [Bool.and_eq_true, beq_iff_eq] at htest
    have hknown : r.eofIdx = S.length := by
      rcases h.eofIdx_eq with hnone | hsome
      · rw [hnone, sizeT_neg_one] at htest
        omega
      · exact hsome
    exact {
      assembled := {
        refines := h.assembled.refines.endInput
        idx_eq := h.assembled.idx_eq
        written_prefix := h.assembled.written_prefix }
      bound := h.bound
      separated := h.separated
      eofIdx_eq := h.eofIdx_eq
      isEnd_iff := ⟨fun _ => ⟨hknown, htest.2.trans hknown⟩, fun _ => rfl⟩ }
  · refine { h with isEnd_iff := ⟨hend, ?_⟩ }
    rintro ⟨hknown, hreached⟩
    have hempty : r.empty = true := by
      rw [empty, unassembledBytes_eq_zero h.separated hreached]
      rfl
    exact absurd (by rw [hempty, hknown, hreached]; simp) htest

/-! ## The whole push -/

/-- The early return is taken for a substring that ends in front of the
assembled index. -/
theorem writeCnt_neg_iff (hslice : IsSlice S index data) (hS : S.length < 2 ^ 31)
    (hle : index ≤ r.assembleIdx) (ha : r.assembleIdx ≤ S.length) :
    (Int32.ofInt (data.length - (Int32.ofInt (r.assembleIdx - index)).toInt)).toInt < 0 ↔
      index + data.length < r.assembleIdx := by
  have hdata := length_lt_of_slice hslice hS
  have hbegin : (Int32.ofInt (r.assembleIdx - index)).toInt = r.assembleIdx - index :=
    Int32.toInt_ofInt_of_le (by omega) (by omega)
  rw [hbegin, Int32.toInt_ofInt_of_le (by omega) (by omega)]
  omega

variable (eof) in
/-- The three ways through `push_substring` for a slice of the stream. -/
theorem pushSubstring_cases (h : Base S r q) (hslice : IsSlice S index data) :
    (r.assembleIdx < index ∧
      r.pushSubstring data index eof = (r.noteEof index data eof).mergeSegments index data) ∨
    (index + data.length < r.assembleIdx ∧
      r.pushSubstring data index eof = r.noteEof index data eof) ∨
    (index ≤ r.assembleIdx ∧ r.assembleIdx ≤ index + data.length ∧
      r.pushSubstring data index eof =
        ((r.noteEof index data eof).assemble index data).checkEof) := by
  have hbound := h.bound
  have ha := h.assembleIdx_le
  rw [pushSubstring]
  simp only [noteEof_assembleIdx]
  split_ifs with hcache hshort
  · exact Or.inl ⟨hcache, rfl⟩
  · rw [writeCnt_neg_iff hslice (by omega) (by omega) ha] at hshort
    exact Or.inr (Or.inl ⟨hshort, rfl⟩)
  · rw [writeCnt_neg_iff hslice (by omega) (by omega) ha] at hshort
    exact Or.inr (Or.inr ⟨by omega, by omega, rfl⟩)

/-- A push of a slice keeps the invariant; the output takes in more bytes and
hands none out. -/
theorem Inv.pushSubstring (h : Inv S r q) (hslice : IsSlice S index data)
    (hindex : index + data.length < 2 ^ 64)
    (heof : eof = true → index + data.length = S.length) :
    ∃ q', Inv S (r.pushSubstring data index eof) q' ∧ q'.capacity = q.capacity ∧
      q'.readCount = q.readCount ∧ q.written.length ≤ q'.written.length := by
  have hbase := base_noteEof h.toBase hslice heof
  have heofIdx := noteEof_eofIdx (r := r) hslice (by have := h.bound; omega) heof
  have ha := h.assembleIdx_le
  have hend := h.isEnd_iff
  rcases pushSubstring_cases eof h.toBase hslice with
    ⟨hcache, heq⟩ | ⟨hshort, heq⟩ | ⟨hle, hge, heq⟩
  · obtain ⟨m, hm⟩ := mergeSegments_eq (r.noteEof index data eof) index data
    have hsep := separated_mergeSegments (r.noteEof index data eof) S index data
      hbase.separated hslice (by rwa [noteEof_assembleIdx]) hindex
    rw [heq]
    rw [hm] at hsep ⊢
    refine ⟨q, ?_, rfl, rfl, le_rfl⟩
    refine { hbase with separated := hsep, isEnd_iff := ?_ }
    change (r.noteEof index data eof).output.isEnd = true ↔
      (r.noteEof index data eof).eofIdx = S.length ∧
        (r.noteEof index data eof).assembleIdx = S.length
    rw [noteEof_output, heofIdx, noteEof_assembleIdx, hend]
    split_ifs with he
    · have hlast := heof he
      constructor
      · exact fun hboth => ⟨rfl, hboth.2⟩
      · exact fun hboth => absurd hboth.2 (by omega)
    · rfl
  · have hnot : ¬eof = true := fun he => by
      have hlast := heof he
      omega
    have hsame : r.noteEof index data eof = r := by
      rw [noteEof]
      rw [if_neg hnot]
    rw [heq, hsame]
    exact ⟨q, h, rfl, rfl, le_rfl⟩
  · obtain ⟨q', hq', hloop⟩ := assemble_spec hbase hslice
      (by rwa [noteEof_assembleIdx]) (by rwa [noteEof_assembleIdx])
    have hgrow := hloop.written_le
    rw [BoundedFifo.length_written_push] at hgrow
    have hidx := h.assembled.idx_eq
    have hidx' := hq'.assembled.idx_eq
    have hle' := hq'.assembleIdx_le
    rw [heq]
    refine ⟨q', inv_checkEof hq' ?_, hloop.capacity_eq, hloop.readCount_eq, by omega⟩
    intro hold
    rw [isEnd_assemble, noteEof_output, hend] at hold
    constructor
    · change (r.noteEof index data eof).eofIdx = S.length
      rw [heofIdx]
      split_ifs
      · rfl
      · exact hold.1
    · omega

theorem checkEof_eofIdx : r.checkEof.eofIdx = r.eofIdx := by
  rw [checkEof]
  split_ifs
  · rfl
  · rfl

theorem checkEof_assembleIdx : r.checkEof.assembleIdx = r.assembleIdx := by
  rw [checkEof]
  split_ifs
  · rfl
  · rfl

theorem checkEof_segments : r.checkEof.segments = r.segments := by
  rw [checkEof]
  split_ifs
  · rfl
  · rfl

/-- The end is known after a push exactly if it was before or the push says
so. -/
theorem pushSubstring_eofIdx (h : Base S r q) (hslice : IsSlice S index data)
    (heof : eof = true → index + data.length = S.length) :
    (r.pushSubstring data index eof).eofIdx = if eof then S.length else r.eofIdx := by
  have hbound := h.bound
  rw [← noteEof_eofIdx (r := r) hslice (by omega) heof]
  rcases pushSubstring_cases eof h hslice with
    ⟨-, heq⟩ | ⟨-, heq⟩ | ⟨-, -, heq⟩
  · obtain ⟨m, hm⟩ := mergeSegments_eq (r.noteEof index data eof) index data
    rw [heq, hm]
  · rw [heq]
  · rw [heq, checkEof_eofIdx]
    rfl

/-- A slice around the assembled index moves it to the end of the slice, or as
far as there is room. -/
theorem le_assembleIdx_pushSubstring (h : Base S r q) (hslice : IsSlice S index data)
    (heof : eof = true → index + data.length = S.length) (hle : index ≤ r.assembleIdx)
    (hge : r.assembleIdx ≤ index + data.length) :
    min (index + data.length) (r.assembleIdx + q.room) ≤
      (r.pushSubstring data index eof).assembleIdx := by
  have hbase := base_noteEof h hslice heof
  rcases pushSubstring_cases eof h hslice with
    ⟨hcache, -⟩ | ⟨hshort, -⟩ | ⟨-, -, heq⟩
  · omega
  · omega
  · obtain ⟨q', hq', hloop⟩ := assemble_spec hbase hslice
      (by rwa [noteEof_assembleIdx]) (by rwa [noteEof_assembleIdx])
    have hgrow := hloop.written_le
    have hidx := h.assembled.idx_eq
    have hidx' := hq'.assembled.idx_eq
    rw [BoundedFifo.length_written_push, List.length_drop, noteEof_assembleIdx] at hgrow
    rw [heq, checkEof_assembleIdx]
    omega

/-! ## Coverage -/

/-- A segment ends inside the window when the positions it covers do. -/
theorem end_le_window {m : SortedMap (List UInt8)} {window : ℕ}
    (hwindow : ∀ p, Holds m p → p < window) {e : ℕ × List UInt8} (he : e ∈ m)
    (hne : e.2 ≠ []) : e.1 + e.2.length ≤ window := by
  have hpos := List.length_pos_iff.mpr hne
  have hlast := hwindow (e.1 + e.2.length - 1) ⟨e, he, by omega, by omega⟩
  omega

theorem covers_assemble_iff (h : Base S r q) (hslice : IsSlice S index data)
    (hle : index ≤ r.assembleIdx) (hge : r.assembleIdx ≤ index + data.length)
    (hwindow : ∀ p, Holds r.segments p → p < q.readCount + q.capacity)
    (hin : index + data.length ≤ q.readCount + q.capacity) (p : ℕ) :
    Covers (r.assemble index data) p ↔
      Covers r p ∨ (index ≤ p ∧ p < index + data.length) := by
  obtain ⟨q', hq', hloop⟩ := assemble_spec h hslice hle hge
  have hfst := writeFrom_fst h.assembled h.bound hslice hle hge
  have hwrite := (assembled_writeFrom h.assembled h.bound hslice hle hge).idx_eq
  have hidx := h.assembled.idx_eq
  have hidx' := hq'.assembled.idx_eq
  have hroom := q.room_add_size
  have hsize := q.size_add_readCount
  have hgrow := hloop.written_le
  constructor
  · rintro (hp | ⟨e, he, hrest⟩)
    · by_cases hold : p < r.assembleIdx
      · exact Or.inl (Or.inl hold)
      · by_cases hnew : p < index + data.length
        · exact Or.inr ⟨by omega, hnew⟩
        · obtain ⟨d, hd, hrest⟩ := hloop.grown p (by omega) hp
          exact Or.inl (Or.inr ⟨d, hd, hrest⟩)
    · exact Or.inl (Or.inr ⟨e, ((SortedMap.mem_eraseAll _ _ e).mp he).1, hrest⟩)
  · rintro ((hp | ⟨e, he, hep, hpe⟩) | ⟨hip, hpi⟩)
    · exact Or.inl (by omega)
    · by_cases hpop : e.1 ∈ (r.segments.entries.foldl assembleRound
          ⟨(writeFrom r.assembleIdx r.output index data).1,
            (writeFrom r.assembleIdx r.output index data).2, []⟩).popList
      · obtain ⟨d, hd, hkey, hdone⟩ := hloop.popped e.1 hpop
        obtain rfl := r.segments.eq_of_key_eq d e hd he hkey
        have hne : d.2 ≠ [] := List.length_pos_iff.mp (by omega)
        rcases hdone (end_le_window hwindow he hne) with hdone | hnil
        · exact Or.inl (lt_of_lt_of_le hpe hdone)
        · exact absurd hnil hne
      · exact Or.inr ⟨e, (SortedMap.mem_eraseAll _ _ e).mpr ⟨he, hpop⟩, hep, hpe⟩
    · exact Or.inl (by omega)

/-- A push inside the window adds the positions of the slice and loses none. -/
theorem covers_pushSubstring_iff (h : Base S r q) (hslice : IsSlice S index data)
    (hindex : index + data.length < 2 ^ 64)
    (heof : eof = true → index + data.length = S.length)
    (hwindow : ∀ p, Covers r p → p < q.readCount + q.capacity)
    (hin : index + data.length ≤ q.readCount + q.capacity) (p : ℕ) :
    Covers (r.pushSubstring data index eof) p ↔
      Covers r p ∨ (index ≤ p ∧ p < index + data.length) := by
  have hbase := base_noteEof h hslice heof
  have hcovers : Covers (r.noteEof index data eof) p ↔ Covers r p := by
    unfold Covers
    rw [noteEof_assembleIdx, noteEof_segments]
  rcases pushSubstring_cases eof h hslice with
    ⟨hcache, heq⟩ | ⟨hshort, heq⟩ | ⟨hle, hge, heq⟩
  · have hholds := holds_mergeSegments_iff (r.noteEof index data eof) S index data
      hbase.separated hslice (by rwa [noteEof_assembleIdx]) hindex p
    obtain ⟨m, hm⟩ := mergeSegments_eq (r.noteEof index data eof) index data
    rw [hm] at hholds
    rw [heq, hm, ← hcovers]
    unfold Covers
    rw [hholds, or_assoc]
  · rw [heq, hcovers]
    constructor
    · exact Or.inl
    · rintro (hp | ⟨-, hlt⟩)
      · exact hp
      · exact Or.inl (by omega)
  · have hassemble := covers_assemble_iff hbase hslice
      (by rwa [noteEof_assembleIdx]) (by rwa [noteEof_assembleIdx])
      (by rw [noteEof_segments]; exact fun p hp => hwindow p (Or.inr hp)) hin p
    rw [hcovers] at hassemble
    rw [heq, ← hassemble]
    unfold Covers
    rw [checkEof_assembleIdx, checkEof_segments]

end

/-! ## The output -/

/-- The rule for the output of a push, which is written and ended and nothing else. -/
theorem output_pushSubstring_induction {P : ByteStream → Prop}
    (hwrite : ∀ s data, P s → P (s.write data).1) (hend : ∀ s, P s → P s.endInput)
    (r : StreamReassembler) (data : List UInt8) (index : ℕ) (eof : Bool) (h : P r.output) :
    P (r.pushSubstring data index eof).output := by
  have hround : ∀ st e, P st.output → P (assembleRound st e).output := by
    intro st e hst
    rw [assembleRound]
    split_ifs
    · exact hst
    · exact hst
    · exact hwrite _ _ hst
  have hassemble : ∀ r : StreamReassembler, P r.output → P (r.assemble index data).output := by
    intro r hr
    apply r.segments.foldl_induction assembleRound (fun _ st => P st.output)
    · exact hwrite _ _ hr
    · exact fun _ e st _ _ _ hst => hround st e hst
  have hcheck : ∀ r : StreamReassembler, P r.output → P r.checkEof.output := by
    intro r hr
    rw [checkEof]
    split_ifs
    · exact hend _ hr
    · exact hr
  have hnote : P (r.noteEof index data eof).output := by rwa [noteEof_output]
  rw [pushSubstring]
  simp only
  split_ifs
  · obtain ⟨m, hm⟩ := mergeSegments_eq (r.noteEof index data eof) index data
    rw [hm]
    exact hnote
  · exact hnote
  · exact hcheck _ (hassemble _ hnote)

end StreamReassembler

end NetworkLabs
