import NetworkLabs.Library.Transition
import NetworkLabs.Sponge.StreamReassembler.Push

/-!
# The reassembler as a set of bytes

What a reassembler is for can be said without a map and without an order of
arrival. `ByteSet` keeps the set of the positions received so far and whether
the end was among them; the bytes in front of the first missing position are
assembled, the received ones behind it are not.

A run of a reassembler interleaves pushes and reads. As long as every pushed
slice lies in the window of the reader, the reassembler is in the state that
the set describes; without that restriction it still never delivers anything
but a prefix of the stream.
-/

namespace NetworkLabs

/-- The positions received so far, and whether the end was among them. -/
@[ext] structure ByteSet where
  received : Finset ℕ
  eof : Bool

namespace ByteSet

def empty : ByteSet := ⟨∅, false⟩

/-- Receiving the positions from `index` up to `index + len`. -/
def insert (b : ByteSet) (index len : ℕ) (eof : Bool) : ByteSet :=
  ⟨b.received ∪ Finset.Ico index (index + len), b.eof || eof⟩

theorem exists_missing (b : ByteSet) : ∃ p, p ∉ b.received :=
  Infinite.exists_notMem_finset b.received

/-- The length of the longest prefix that was received: the first position that
is missing. -/
def assembled (b : ByteSet) : ℕ := Nat.find b.exists_missing

/-- The number of positions received behind the assembled prefix. -/
def unassembled (b : ByteSet) : ℕ :=
  (b.received.filter fun p => b.assembled ≤ p).card

end ByteSet

namespace StreamReassembler

/-- A call to the reassembler or to its output stream. -/
inductive Call where
  | push (data : List UInt8) (index : ℕ) (eof : Bool)
  | read (len : ℕ)

/-- A reassembler together with the bytes its reader was handed. -/
structure Session where
  reassembler : StreamReassembler
  consumed : List UInt8

namespace Session

def start (capacity : ℕ) : Session := ⟨new capacity, []⟩

def step (s : Session) : Call → Session
  | .push data index eof =>
      { s with reassembler := s.reassembler.pushSubstring data index eof }
  | .read len =>
      { reassembler := { s.reassembler with output := (s.reassembler.output.read len).1 }
        consumed := s.consumed ++ (s.reassembler.output.read len).2 }

def run (capacity : ℕ) (calls : List Call) : Session := calls.foldl step (start capacity)

/-- The bytes ever written to the output: those that were read, followed by
those that are buffered. -/
def written (s : Session) : List UInt8 :=
  s.consumed ++ s.reassembler.output.peekOutput s.reassembler.output.bufferSize

end Session

/-- The data of a push is the slice of `S` at its index, and `eof` is only set
when the slice reaches the end. -/
def Call.FromStream (S : List UInt8) : Call → Prop
  | .push data index eof =>
      IsSlice S index data ∧ index < 2 ^ 64 ∧ (eof = true → index + data.length = S.length)
  | .read _ => True

/-- A pushed slice lies below `bytes_read + capacity` when it is pushed. -/
def Call.InWindow (capacity : ℕ) (s : Session) : Call → Prop
  | .push data index _ =>
      index + data.length ≤ s.reassembler.output.bytesRead + capacity
  | .read _ => True

/-- The effect of a call on the set of bytes. -/
def specStep (b : ByteSet) : Call → ByteSet
  | .push data index eof => b.insert index data.length eof
  | .read _ => b

/-- The set of bytes after a list of calls. -/
def spec (calls : List Call) : ByteSet := calls.foldl specStep ByteSet.empty

/-! ## Separated maps and sets of positions -/

section

variable {S : List UInt8} {a : ℕ} {m : SortedMap (List UInt8)} {b : ByteSet}

/-- The assembled index is the first missing position. -/
theorem assembled_eq (hm : Separated S a m)
    (hb : ∀ p, (p < a ∨ Holds m p) ↔ p ∈ b.received) : b.assembled = a := by
  rw [ByteSet.assembled, Nat.find_eq_iff]
  constructor
  · rw [← hb]
    rintro (hlt | ⟨e, he, hle, -⟩)
    · exact lt_irrefl a hlt
    · exact absurd (hm.beyond e he) (not_lt.mpr hle)
  · intro p hp hmissing
    exact hmissing ((hb p).mp (Or.inl hp))

/-- The sizes of the segments add up to the number of positions they cover. -/
theorem sum_length_eq_card (hm : Separated S a m)
    (hb : ∀ p, (p < a ∨ Holds m p) ↔ p ∈ b.received) :
    (m.entries.map fun e => e.2.length).sum =
      (b.received.filter fun p => a ≤ p).card := by
  have hcover : (b.received.filter fun p => a ≤ p) =
      m.entries.toFinset.biUnion fun e => Finset.Ico e.1 (e.1 + e.2.length) := by
    ext p
    rw [Finset.mem_filter, ← hb, Finset.mem_biUnion]
    constructor
    · rintro ⟨hlt | ⟨e, he, hrest⟩, hle⟩
      · exact absurd hlt (not_lt.mpr hle)
      · exact ⟨e, List.mem_toFinset.mpr he, Finset.mem_Ico.mpr hrest⟩
    · rintro ⟨e, he, hmem⟩
      have he' := List.mem_toFinset.mp he
      have hrest := Finset.mem_Ico.mp hmem
      exact ⟨Or.inr ⟨e, he', hrest⟩, le_trans (hm.beyond e he').le hrest.1⟩
  have hdisjoint : (m.entries.toFinset : Set (ℕ × List UInt8)).PairwiseDisjoint
      fun e => Finset.Ico e.1 (e.1 + e.2.length) := by
    intro e he f hf hne
    have he' := List.mem_toFinset.mp he
    have hf' := List.mem_toFinset.mp hf
    have hkey : e.1 ≠ f.1 := fun heq => hne (m.eq_of_key_eq e f he' hf' heq)
    rw [Function.onFun, Finset.disjoint_left]
    intro p hpe hpf
    rw [Finset.mem_Ico] at hpe hpf
    rcases lt_or_gt_of_ne hkey with hlt | hlt
    · have hapart := hm.apart e he' f hf' hlt
      omega
    · have hapart := hm.apart f hf' e he' hlt
      omega
  rw [hcover, Finset.card_biUnion hdisjoint]
  simp only [Nat.card_Ico, Nat.add_sub_cancel_left]
  exact (List.sum_toFinset _ m.entries_nodup).symm

end

/-! ## Runs -/

/-- The session has handed out the front of the queue that its reassembler
stores. -/
structure Stores (S : List UInt8) (capacity : ℕ) (s : Session)
    (q : BoundedFifo UInt8) : Prop where
  inv : Inv S s.reassembler q
  capacity_eq : q.capacity = capacity
  consumed_eq : s.consumed = q.written.take q.readCount

/-- The session is in the state that the set of bytes describes. -/
structure Describes (S : List UInt8) (capacity : ℕ) (s : Session)
    (b : ByteSet) : Prop where
  stores : ∃ q, Stores S capacity s q
  covers_iff : ∀ p, Covers s.reassembler p ↔ p ∈ b.received
  below : ∀ p ∈ b.received, p < s.reassembler.output.bytesRead + capacity
  eof_iff : s.reassembler.eofIdx = S.length ↔ b.eof = true

section

variable {S : List UInt8} {capacity : ℕ} {s : Session} {q : BoundedFifo UInt8}

theorem stores_start (h : S.length + capacity < 2 ^ 31) :
    Stores S capacity (Session.start capacity) (BoundedFifo.empty capacity) where
  inv := inv_new S capacity h
  capacity_eq := rfl
  consumed_eq := rfl

theorem Stores.written_eq (h : Stores S capacity s q) : s.written = q.written := by
  have hrefines := h.inv.assembled.refines
  rw [Session.written, hrefines.peekOutput_eq, hrefines.bufferSize_eq, h.consumed_eq,
    ← BoundedFifo.length_content, List.take_length, BoundedFifo.take_append_content]

/-- A slice ends below the range of `size_t`. -/
theorem add_length_lt_of_slice {index : ℕ} {data : List UInt8}
    (hslice : IsSlice S index data) (hS : S.length < 2 ^ 31) (hindex : index < 2 ^ 64) :
    index + data.length < 2 ^ 64 := by
  by_cases hnil : data = []
  · simpa [hnil] using hindex
  · have hle := hslice.add_length_le hnil
    omega

/-- A call keeps the session in step with a queue, and nothing that was written
is lost. -/
theorem Stores.step (h : Stores S capacity s q) (c : Call) (hc : c.FromStream S) :
    ∃ q', Stores S capacity (s.step c) q' ∧ q.written.length ≤ q'.written.length := by
  have hbound := h.inv.bound
  cases c with
  | push data index eof =>
      obtain ⟨hslice, hindex, heof⟩ := hc
      have hend := add_length_lt_of_slice hslice (by omega) hindex
      obtain ⟨q', hinv, hcap, hread, hle⟩ := h.inv.pushSubstring hslice hend heof
      refine ⟨q', ⟨hinv, hcap.trans h.capacity_eq, ?_⟩, hle⟩
      change s.consumed = _
      have hprefix : q.written <+: q'.written :=
        List.prefix_of_prefix_length_le h.inv.assembled.written_prefix
          hinv.assembled.written_prefix hle
      rw [h.consumed_eq, hread, List.prefix_iff_eq_take.mp hprefix, List.take_take,
        min_eq_left q.readCount_le]
  | read len =>
      refine ⟨q.pop len, ⟨h.inv.popOutput len, h.capacity_eq, ?_⟩, le_rfl⟩
      rw [BoundedFifo.take_readCount_pop, ← h.consumed_eq,
        ← h.inv.assembled.refines.peekOutput_eq]
      rfl

theorem describes_start (h : S.length + capacity < 2 ^ 31) :
    Describes S capacity (Session.start capacity) ByteSet.empty where
  stores := ⟨_, stores_start h⟩
  covers_iff := by
    intro p
    have hnone := not_covers_new capacity p
    simp [Session.start, hnone, ByteSet.empty]
  below := by simp [ByteSet.empty]
  eof_iff := by
    have hne : sizeT (-1) ≠ S.length := by
      rw [sizeT_neg_one]
      omega
    simpa [Session.start, new, ByteSet.empty] using hne

theorem Describes.step {b : ByteSet} (h : Describes S capacity s b) (c : Call)
    (hc : c.FromStream S) (hwindow : c.InWindow capacity s) :
    Describes S capacity (s.step c) (specStep b c) := by
  obtain ⟨q, hq⟩ := h.stores
  have hbound := hq.inv.bound
  have hbytesRead := hq.inv.assembled.refines.bytesRead_eq
  have hcap := hq.capacity_eq
  cases c with
  | push data index eof =>
      obtain ⟨hslice, hindex, heof⟩ := hc
      have hend := add_length_lt_of_slice hslice (by omega) hindex
      obtain ⟨q', hinv, hcap', hread, -⟩ := hq.inv.pushSubstring hslice hend heof
      change index + data.length ≤ s.reassembler.output.bytesRead + capacity at hwindow
      have hcovers := covers_pushSubstring_iff hq.inv.toBase hslice hend heof
        (fun p hp => by
          have hlt := h.below p ((h.covers_iff p).mp hp)
          omega)
        (by omega)
      have heofIdx := pushSubstring_eofIdx hq.inv.toBase hslice heof
      have hbytesRead' := hinv.assembled.refines.bytesRead_eq
      exact {
        stores := (hq.step (.push data index eof) ⟨hslice, hindex, heof⟩).imp
          fun _ hq' => hq'.1
        covers_iff := by
          intro p
          change Covers (s.reassembler.pushSubstring data index eof) p ↔ _
          rw [hcovers p, h.covers_iff p]
          simp [specStep, ByteSet.insert]
        below := by
          intro p hp
          change p < (s.reassembler.pushSubstring data index eof).output.bytesRead + capacity
          rw [hbytesRead', hread, ← hbytesRead]
          rcases Finset.mem_union.mp hp with hp | hp
          · exact h.below p hp
          · have hmem := Finset.mem_Ico.mp hp
            omega
        eof_iff := by
          change (s.reassembler.pushSubstring data index eof).eofIdx = S.length ↔ _
          rw [heofIdx]
          cases eof with
          | true => simp [specStep, ByteSet.insert]
          | false => simpa [specStep, ByteSet.insert] using h.eof_iff }
  | read len =>
      obtain ⟨q', hq', -⟩ := hq.step (.read len) trivial
      have hpop := (hq.inv.popOutput len).assembled.refines.bytesRead_eq
      exact {
        stores := ⟨q', hq'⟩
        covers_iff := h.covers_iff
        below := by
          intro p hp
          have hlt := h.below p hp
          change p < (s.reassembler.output.popOutput len).bytesRead + capacity
          change (s.reassembler.output.popOutput len).bytesRead = _ at hpop
          rw [hpop, BoundedFifo.readCount_pop]
          omega
        eof_iff := h.eof_iff }

/-- A described session shows what the set of bytes says. -/
theorem Describes.observe {b : ByteSet} (h : Describes S capacity s b) :
    s.written = S.take b.assembled ∧
      s.reassembler.unassembledBytes = b.unassembled ∧
      (s.reassembler.output.inputEnded = true ↔
        b.eof = true ∧ b.assembled = S.length) := by
  obtain ⟨q, hq⟩ := h.stores
  have hassembled := assembled_eq hq.inv.separated h.covers_iff
  refine ⟨?_, ?_, ?_⟩
  · rw [hq.written_eq, hq.inv.written_eq, hassembled]
  · rw [ByteSet.unassembled, hassembled, unassembledBytes]
    exact sum_length_eq_card hq.inv.separated h.covers_iff
  · rw [hassembled, ← h.eof_iff]
    exact hq.inv.isEnd_iff

end

/-! ## The set of bytes does not depend on the order -/

theorem mem_spec_iff (calls : List Call) (p : ℕ) :
    p ∈ (spec calls).received ↔
      ∃ data index eof, Call.push data index eof ∈ calls ∧
        index ≤ p ∧ p < index + data.length := by
  induction calls using List.reverseRecOn with
  | nil => simp [spec, ByteSet.empty]
  | append_singleton calls c ih =>
      rw [spec, List.foldl_concat, ← spec]
      cases c with
      | push data index eof =>
          simp only [specStep, ByteSet.insert, Finset.mem_union, Finset.mem_Ico, ih,
            List.mem_append, List.mem_singleton, Call.push.injEq]
          constructor
          · rintro (⟨d, i, e, hmem, hrest⟩ | hrest)
            · exact ⟨d, i, e, Or.inl hmem, hrest⟩
            · exact ⟨data, index, eof, Or.inr ⟨rfl, rfl, rfl⟩, hrest⟩
          · rintro ⟨d, i, e, hmem | ⟨rfl, rfl, rfl⟩, hrest⟩
            · exact Or.inl ⟨d, i, e, hmem, hrest⟩
            · exact Or.inr hrest
      | read len => simp [specStep, ih]

theorem spec_eof_iff (calls : List Call) :
    (spec calls).eof = true ↔ ∃ data index, Call.push data index true ∈ calls := by
  induction calls using List.reverseRecOn with
  | nil => simp [spec, ByteSet.empty]
  | append_singleton calls c ih =>
      rw [spec, List.foldl_concat, ← spec]
      cases c with
      | push data index eof =>
          simp only [specStep, ByteSet.insert, Bool.or_eq_true, ih, List.mem_append,
            List.mem_singleton, Call.push.injEq]
          constructor
          · rintro (⟨d, i, hmem⟩ | rfl)
            · exact ⟨d, i, Or.inl hmem⟩
            · exact ⟨data, index, Or.inr ⟨rfl, rfl, rfl⟩⟩
          · rintro ⟨d, i, hmem | ⟨-, -, rfl⟩⟩
            · exact Or.inl ⟨d, i, hmem⟩
            · exact Or.inr rfl
      | read len => simp [specStep, ih]

/-- Two lists with the same pushes lead to the same set of bytes. -/
theorem spec_congr (calls calls' : List Call)
    (h : ∀ data index eof, Call.push data index eof ∈ calls ↔
      Call.push data index eof ∈ calls') : spec calls = spec calls' := by
  ext p
  · simp only [mem_spec_iff, h]
  · rw [Bool.eq_iff_iff, spec_eof_iff, spec_eof_iff]
    simp only [h]

theorem stores_run (S : List UInt8) (capacity : ℕ) (calls : List Call)
    (hbound : S.length + capacity < 2 ^ 31) (hcalls : ∀ c ∈ calls, c.FromStream S) :
    ∃ q, Stores S capacity (Session.run capacity calls) q :=
  Transition.Along.invariant (fun s => ∃ q, Stores S capacity s q)
    (fun _ c ⟨_, hq⟩ hc => (hq.step c hc).imp fun _ hq' => hq'.1) _ calls
    ⟨_, stores_start hbound⟩
    (Transition.along_of_forall _ calls hcalls)

theorem describes_run (S : List UInt8) (capacity : ℕ) (calls : List Call)
    (hbound : S.length + capacity < 2 ^ 31) (hcalls : ∀ c ∈ calls, c.FromStream S)
    (hwindow : Transition.Along Session.step (Call.InWindow capacity)
      (Session.start capacity) calls) :
    Describes S capacity (Session.run capacity calls) (spec calls) :=
  Transition.Along.simulation (Describes S capacity)
    (fun _ _ c h hc => h.step c hc.1 hc.2) _ _ calls (describes_start hbound)
    ((Transition.along_of_forall _ calls hcalls).and _ _ hwindow)

/-- The reassembler refines the set of bytes. The bytes ever written are a
prefix of the stream; when the slices lie in the window, the written bytes, the
count of unassembled bytes and the end are those of the set of bytes, and with
them the same for every order of the same pushes. -/
theorem run_refines_byteSet (S : List UInt8) (capacity : ℕ) (calls : List Call)
    (hbound : S.length + capacity < 2 ^ 31) (hcalls : ∀ c ∈ calls, c.FromStream S) :
    (Session.run capacity calls).written <+: S ∧
    (Session.run capacity calls).reassembler.output.bytesWritten =
      (Session.run capacity calls).written.length ∧
    (Transition.Along Session.step (Call.InWindow capacity)
        (Session.start capacity) calls →
      (Session.run capacity calls).written = S.take (spec calls).assembled ∧
      (Session.run capacity calls).reassembler.unassembledBytes =
        (spec calls).unassembled ∧
      ((Session.run capacity calls).reassembler.output.inputEnded = true ↔
        (spec calls).eof = true ∧ (spec calls).assembled = S.length) ∧
      ∀ calls' : List Call,
        (∀ data index eof, Call.push data index eof ∈ calls ↔
          Call.push data index eof ∈ calls') →
        Transition.Along Session.step (Call.InWindow capacity)
          (Session.start capacity) calls' →
        (Session.run capacity calls').written = (Session.run capacity calls).written ∧
        (Session.run capacity calls').reassembler.unassembledBytes =
          (Session.run capacity calls).reassembler.unassembledBytes ∧
        (Session.run capacity calls').reassembler.output.inputEnded =
          (Session.run capacity calls).reassembler.output.inputEnded) := by
  obtain ⟨q, hq⟩ := stores_run S capacity calls hbound hcalls
  refine ⟨?_, ?_, ?_⟩
  · rw [hq.written_eq]
    exact hq.inv.assembled.written_prefix
  · rw [hq.written_eq, hq.inv.assembled.refines.bytesWritten_eq]
  · intro hwindow
    obtain ⟨hwritten, hbytes, hended⟩ :=
      (describes_run S capacity calls hbound hcalls hwindow).observe
    refine ⟨hwritten, hbytes, hended, ?_⟩
    intro calls' hsame hwindow'
    have hcalls' : ∀ c ∈ calls', c.FromStream S := by
      intro c hc
      cases c with
      | push data index eof => exact hcalls _ ((hsame data index eof).mpr hc)
      | read len => trivial
    obtain ⟨hwritten', hbytes', hended'⟩ :=
      (describes_run S capacity calls' hbound hcalls' hwindow').observe
    rw [← spec_congr calls calls' hsame] at hwritten' hbytes' hended'
    refine ⟨hwritten'.trans hwritten.symm, hbytes'.trans hbytes.symm, ?_⟩
    rw [Bool.eq_iff_iff, hended', hended]

/-- A stream of three bytes that arrives back to front. -/
theorem run_refines_byteSet_reordered :
    (Session.run 4 [.push [3] 2 true, .push [1, 2] 0 false]).written =
      [1, 2, 3].take (spec [.push [3] 2 true, .push [1, 2] 0 false]).assembled := by
  have h := run_refines_byteSet [1, 2, 3] 4 [.push [3] 2 true, .push [1, 2] 0 false]
    (by decide) (by simp [Call.FromStream, IsSlice])
  have hwindow : Transition.Along Session.step (Call.InWindow 4) (Session.start 4)
      [.push [3] 2 true, .push [1, 2] 0 false] := by
    refine ⟨?_, ?_, trivial⟩
    · rw [Call.InWindow]
      decide
    · rw [Call.InWindow]
      decide
  exact (h.2.2 hwindow).1

end StreamReassembler

end NetworkLabs
