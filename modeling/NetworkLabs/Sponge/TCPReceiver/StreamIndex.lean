import NetworkLabs.Sponge.StreamReassembler.Edges
import NetworkLabs.Sponge.TCPReceiver.HonestPeer
import NetworkLabs.Sponge.WrappingIntegers.Nearest

/-!
# Stream indices

The stream index of a byte is its absolute number less one, since the SYN has
the number `0`. `segment_received` tests the absolute number of a segment
against its window and subtracts the one afterwards. A segment without SYN that
starts at the initial number itself passes the test as soon as it reaches
behind the acknowledgment, and the subtraction then goes below `0`. One that
starts in front of it has a number far ahead and is dropped, with the bytes that
belong to the start of the stream.
-/

namespace NetworkLabs

/-- The segment without its first bytes, up to and with the one at `k`. -/
def TCPSegment.behind (seg : TCPSegment) (k : ℕ) : TCPSegment :=
  { seg with payload := seg.payload.drop (k + 1) }

theorem TCPSegment.lengthInSequenceSpace_behind {seg : TCPSegment} {k : ℕ}
    (hseg : seg.header.syn = false) : (seg.behind k).lengthInSequenceSpace =
      (seg.behind k).payload.length + if (seg.behind k).header.fin = true then 1 else 0 := by
  rw [lengthInSequenceSpace]
  change _ + (if seg.header.syn = true then 1 else 0) + _ = _
  rw [hseg, if_neg Bool.false_ne_true, Nat.add_zero]

namespace TCPReceiver

/-- The absolute number of the first byte of a segment. -/
def absSeqno (r : TCPReceiver) (seg : TCPSegment) : ℕ :=
  unwrap seg.header.seqno r.isn r.checkpoint

def absAckno (r : TCPReceiver) : ℕ := unwrap (wrap r.nextWrite r.isn) r.isn r.checkpoint

/-- The tests let a segment through whose first byte has the absolute number
`a`. -/
def AcceptsAt (r : TCPReceiver) (seg : TCPSegment) (a : ℕ) : Prop :=
  r.streamOut.inputEnded = false ∧ r.absAckno < sizeT (a + seg.lengthInSequenceSpace) ∧
    a < sizeT (r.absAckno + r.windowSize)

instance (r : TCPReceiver) (seg : TCPSegment) (a : ℕ) : Decidable (r.AcceptsAt seg a) :=
  inferInstanceAs (Decidable (_ ∧ _))

/-- The absolute number of a byte of the payload, by its own sequence number. -/
def byteSeqno (r : TCPReceiver) (seg : TCPSegment) (k : ℕ) : ℕ :=
  unwrap (wrap k seg.header.seqno) r.isn r.checkpoint

/-- What `segment_received` does with a segment without SYN whose first byte has
the absolute number `a`. -/
def receiveAt (r : TCPReceiver) (seg : TCPSegment) (a : ℕ) : TCPReceiver :=
  if r.AcceptsAt seg a then r.pushPayload seg (sizeT (a - 1)) else r

section

variable {r : TCPReceiver} {seg : TCPSegment}

theorem segmentReceived_eq (hsyn : r.synReceived = true) (hseg : seg.header.syn = false) :
    r.segmentReceived seg = r.receiveAt seg (r.absSeqno seg) := by
  have hnote : r.noteSyn seg = r := by
    rw [noteSyn, hseg, Bool.false_and, if_neg Bool.false_ne_true]
  have hackno : r.ackno = some (wrap r.nextWrite r.isn) := by
    rw [ackno, if_pos hsyn]
  rw [segmentReceived]
  simp only [hnote, hackno, hseg, Bool.false_eq_true, if_false]
  change (if r.streamOut.inputEnded = true then r else
      if sizeT (r.absSeqno seg + seg.lengthInSequenceSpace) ≤ r.absAckno ∨
        sizeT (r.absAckno + r.windowSize) ≤ r.absSeqno seg then r
      else r.pushPayload seg (sizeT (r.absSeqno seg - 1))) = _
  rw [receiveAt]
  by_cases haccepts : r.AcceptsAt seg (r.absSeqno seg)
  · obtain ⟨hopen, hleft, hright⟩ := haccepts
    rw [hopen, if_neg Bool.false_ne_true, if_neg (by omega), if_pos ⟨hopen, hleft, hright⟩]
  · rw [if_neg haccepts]
    split_ifs with hended hout
    · rfl
    · rfl
    · rw [not_or, not_le, not_le] at hout
      exact absurd ⟨Bool.eq_false_of_not_eq_true hended, hout⟩ haccepts

/-- Near the start of the stream the position `0` has the initial number only. -/
theorem byteSeqno_eq_zero_iff (hcheckpoint : r.checkpoint ≤ 2 ^ 31) (k : ℕ) :
    r.byteSeqno seg k = 0 ↔ wrap k seg.header.seqno = r.isn := by
  constructor
  · intro hzero
    have hwrap := wrap_unwrap (wrap k seg.header.seqno) r.isn r.checkpoint (by omega)
    rw [← hwrap]
    change wrap (r.byteSeqno seg k) r.isn = r.isn
    rw [hzero, wrap_zero]
  · intro heq
    rw [byteSeqno, heq]
    have hnear := unwrap_wrap_of_lt 0 r.checkpoint r.isn (by omega) (by omega)
    rwa [wrap_zero] at hnear

theorem byteSeqno_zero : r.byteSeqno seg 0 = r.absSeqno seg := by
  rw [byteSeqno, wrap_zero, absSeqno]

/-- The bytes behind the first one reach as far as all of them. -/
theorem AcceptsAt.of_behind (h : r.AcceptsAt (seg.behind 0) 1) (hne : seg.payload ≠ []) :
    r.AcceptsAt seg 0 := by
  obtain ⟨hopen, hleft, hright⟩ := h
  have hlength : (seg.behind 0).lengthInSequenceSpace + 1 = seg.lengthInSequenceSpace := by
    have hpos := List.length_pos_iff.mpr hne
    change (seg.payload.drop 1).length + (if seg.header.syn = true then 1 else 0) +
      (if seg.header.fin = true then 1 else 0) + 1 = _
    rw [List.length_drop, TCPSegment.lengthInSequenceSpace]
    omega
  refine ⟨hopen, ?_, by omega⟩
  rwa [← hlength, Nat.cast_add, Nat.cast_zero, zero_add, add_comm, ← Nat.cast_add]

end

/-! ## Where the bytes are placed -/

/-- The segment lies in the window by its own number, which is not that of the SYN. -/
def LetThrough (r : TCPReceiver) (seg : TCPSegment) : Prop :=
  r.absSeqno seg ≠ 0 ∧ r.AcceptsAt seg (r.absSeqno seg)

instance (r : TCPReceiver) (seg : TCPSegment) : Decidable (r.LetThrough seg) :=
  inferInstanceAs (Decidable (_ ∧ _))

/-- What is meant to happen to the payload of a segment without SYN. It is pushed at the index
that is one less than its number. A byte at the initial number is passed over, as if the payload
began behind it. -/
structure Placed (r : TCPReceiver) (seg : TCPSegment) : Prop where
  index_eq : r.LetThrough seg →
    r.segmentReceived seg = r.pushPayload seg (r.absSeqno seg - 1)
  isn_ignored : ¬ r.LetThrough seg → ∀ k < seg.payload.length, r.byteSeqno seg k = 0 →
    r.segmentReceived seg = r.receiveAt (seg.behind k) 1
  outside : ¬ r.LetThrough seg → seg.payload ≠ [] →
    (∀ k < seg.payload.length, r.byteSeqno seg k ≠ 0) → r.segmentReceived seg = r

/-- If a byte of the payload is at the initial number, then the segment is not let through, nor are
the bytes behind that one where it is not the first. -/
def ClearOfIsn (r : TCPReceiver) (seg : TCPSegment) : Prop :=
  r.LetThrough seg ∨ ∀ k < seg.payload.length, r.byteSeqno seg k = 0 →
    ¬ r.AcceptsAt seg (r.absSeqno seg) ∧ (0 < k → ¬ r.AcceptsAt (seg.behind k) 1)

instance (r : TCPReceiver) (seg : TCPSegment) : Decidable (r.ClearOfIsn seg) :=
  inferInstanceAs (Decidable (_ ∨ ∀ k < seg.payload.length, _))

/-- Nothing has overflowed yet: the stream counts as a queue does, the reassembler and the
checkpoint go along with it, nothing is cached up to the largest index, and the end of the stream
is not behind until the input has ended. -/
structure Regular (r : TCPReceiver) : Prop where
  counts : ∃ q, ByteStream.Counts r.streamOut q
  assembleIdx_eq : r.reassembler.assembleIdx = r.streamOut.bytesWritten
  checkpoint_eq : r.checkpoint = r.streamOut.bytesWritten
  cached_lt : ∀ e ∈ r.reassembler.segments.entries, e.2 ≠ [] → e.1 + e.2.length < 2 ^ 64 - 1
  eofIdx_ne : r.streamOut.inputEnded = false →
    r.reassembler.eofIdx ≠ r.reassembler.assembleIdx

/-- So it is in every run with an honest peer. -/
theorem Honest.regular {S : List UInt8} {isn : WrappingInt32} {capacity : ℕ} {events : List Event}
    {s : Session} (h : Honest S isn capacity events s) : Regular s.receiver := by
  obtain ⟨q, hq⟩ := h.stores
  have hbase := hq.inv.toBase
  have hbound := hbase.bound
  have hidx := hbase.assembleIdx_le
  have hrefines := hbase.assembled.refines
  exact {
    counts := ⟨q, hrefines.counts⟩
    assembleIdx_eq := hbase.assembled.idx_eq.trans hrefines.bytesWritten_eq.symm
    checkpoint_eq := h.tracks.checkpoint_eq
    cached_lt := by
      intro e he hne
      have hlen := (hbase.separated.slice e he).length_le
      have hpos := List.length_pos_iff.mpr hne
      rw [List.length_drop] at hlen
      omega
    eofIdx_ne := by
      intro hopen heof
      have hlast : s.reassembly.reassembler.eofIdx = S.length := by
        rcases hbase.eofIdx_eq with hnone | hknown
        · change s.reassembly.reassembler.eofIdx = s.reassembly.reassembler.assembleIdx at heof
          rw [StreamReassembler.sizeT_neg_one] at hnone
          omega
        · exact hknown
      have hended := hq.inv.isEnd_iff.mpr ⟨hlast, heof.symm.trans hlast⟩
      exact absurd (hopen.symm.trans hended) (by decide) }

section

variable {r : TCPReceiver} {seg : TCPSegment}

theorem mem_of_mem_receiveAt_one {e : ℕ × List UInt8}
    (h : e ∈ (r.receiveAt seg 1).reassembler.segments) : e ∈ r.reassembler.segments := by
  rw [receiveAt] at h
  split_ifs at h
  · exact StreamReassembler.mem_of_mem_pushSubstring_zero h
  · exact h

theorem Regular.exists_counts (h : Regular r) :
    ∃ q, ByteStream.Counts r.streamOut q ∧ r.reassembler.assembleIdx = q.written.length := by
  obtain ⟨q, hq⟩ := h.counts
  exact ⟨q, hq, h.assembleIdx_eq.trans hq.writeCnt_eq⟩

theorem Regular.assembleIdx_lt (h : Regular r) : r.reassembler.assembleIdx < 2 ^ 31 := by
  obtain ⟨q, hq, hidx⟩ := h.exists_counts
  have hlt := hq.end_lt
  have hroom := q.room_add_size
  have hread := q.size_add_readCount
  omega

theorem Regular.absAckno_eq (h : Regular r) (hopen : r.streamOut.inputEnded = false) :
    r.absAckno = r.reassembler.assembleIdx + 1 := by
  have hlt := h.assembleIdx_lt
  have hcheckpoint := h.checkpoint_eq
  have hwritten := h.assembleIdx_eq
  rw [absAckno, nextWrite, hopen, if_neg Bool.false_ne_true, ← hwritten,
    unwrap_wrap_of_lt _ _ _ (by omega) (by omega)]

/-- A segment that begins at the initial number and is let through is cached at the largest
index. -/
theorem not_placed_of_accepts (hsyn : r.synReceived = true) (hseg : seg.header.syn = false)
    (hregular : Regular r) (hlen : seg.payload.length < 2 ^ 31) (hzero : r.absSeqno seg = 0)
    (hne : seg.payload ≠ []) (haccepts : r.AcceptsAt seg 0) : ¬ Placed r seg := by
  intro h
  have hlast : (2 ^ 64 - 1, seg.payload) ∈ (r.segmentReceived seg).reassembler.segments := by
    rw [segmentReceived_eq hsyn hseg, hzero, receiveAt, if_pos haccepts]
    exact StreamReassembler.mem_pushSubstring_last hregular.assembleIdx_lt hne hlen
      hregular.cached_lt
  rw [h.isn_ignored (fun hthrough => hthrough.1 hzero) 0 (List.length_pos_iff.mpr hne)
    (byteSeqno_zero.trans hzero)] at hlast
  have hlt := hregular.cached_lt _ (mem_of_mem_receiveAt_one hlast) hne
  omega

/-- A segment that begins in front of the initial number is dropped, and so is what it brings
behind that number. -/
theorem not_placed_of_dropped (hsyn : r.synReceived = true) (hseg : seg.header.syn = false)
    (hregular : Regular r) (hwindow : 0 < r.windowSize) (hlen : seg.payload.length < 2 ^ 31)
    (hpos : r.absSeqno seg ≠ 0) (hnot : ¬ r.LetThrough seg) {k : ℕ} (hk : k < seg.payload.length)
    (hzero : r.byteSeqno seg k = 0) (haccepts : r.AcceptsAt (seg.behind k) 1) :
    ¬ Placed r seg := by
  intro h
  have hdropped : r.segmentReceived seg = r := by
    rw [segmentReceived_eq hsyn hseg, receiveAt, if_neg fun hlet => hnot ⟨hpos, hlet⟩]
  have heq := h.isn_ignored hnot k hk hzero
  rw [hdropped, receiveAt, if_pos haccepts] at heq
  obtain ⟨hopen, hleft, -⟩ := haccepts
  obtain ⟨q, hq, hidx⟩ := hregular.exists_counts
  have hlength : (seg.behind k).payload.length < 2 ^ 31 := by
    change (seg.payload.drop (k + 1)).length < _
    rw [List.length_drop]
    omega
  have hreach : r.reassembler.assembleIdx < (seg.behind k).payload.length +
      if (seg.behind k).header.fin = true then 1 else 0 := by
    rw [hregular.absAckno_eq hopen, TCPSegment.lengthInSequenceSpace_behind hseg,
      sizeT_add] at hleft
    · omega
    · split_ifs
      · omega
      · omega
  exact StreamReassembler.pushSubstring_zero_ne hq hidx hwindow hlength
    (hregular.eofIdx_ne hopen) hreach (congrArg TCPReceiver.reassembler heq).symm

theorem clearOfIsn_of_placed (hsyn : r.synReceived = true) (hseg : seg.header.syn = false)
    (hregular : Regular r) (hwindow : r.absSeqno seg = 0 ∨ 0 < r.windowSize)
    (hlen : seg.payload.length < 2 ^ 31) (h : Placed r seg) : r.ClearOfIsn seg := by
  by_contra hnot
  rw [ClearOfIsn, not_or] at hnot
  obtain ⟨hthrough, hbyte⟩ := hnot
  push Not at hbyte
  obtain ⟨k, hk, hzero, haccepts⟩ := hbyte
  have hcheckpoint : r.checkpoint ≤ 2 ^ 31 := by
    rw [hregular.checkpoint_eq, ← hregular.assembleIdx_eq]
    exact hregular.assembleIdx_lt.le
  by_cases hfirst : r.absSeqno seg = 0
  · have hzeroth : k = 0 := by
      have hisn := (byteSeqno_eq_zero_iff hcheckpoint k).mp hzero
      rw [← byteSeqno_zero, byteSeqno_eq_zero_iff hcheckpoint] at hfirst
      exact (eq_of_wrap_eq 0 k _ (hfirst.trans hisn.symm) (by omega) (by omega)).symm
    have hlet : r.AcceptsAt seg 0 := by
      by_contra hout
      rw [hfirst] at haccepts
      exact absurd (haccepts hout).1 (by omega)
    exact not_placed_of_accepts hsyn hseg hregular hlen hfirst (List.length_pos_iff.mp (by omega))
      hlet h
  · have hout : ¬ r.AcceptsAt seg (r.absSeqno seg) := fun hlet => hthrough ⟨hfirst, hlet⟩
    exact not_placed_of_dropped hsyn hseg hregular (hwindow.resolve_left hfirst) hlen hfirst
      hthrough hk hzero (haccepts hout).2 h

theorem placed_of_clearOfIsn (hsyn : r.synReceived = true) (hseg : seg.header.syn = false)
    (h : r.ClearOfIsn seg) : Placed r seg := by
  have hreceived := segmentReceived_eq hsyn hseg
  refine ⟨?_, ?_, ?_⟩
  · rintro ⟨hpos, haccepts⟩
    have hlt : r.absSeqno seg < 2 ^ 64 := unwrap_lt _ _ _
    rw [hreceived, receiveAt, if_pos haccepts, sizeT,
      MachineInt.unsigned_eq_of_natCast_eq 64 _ (r.absSeqno seg - 1) (by omega) (by omega)]
  · intro hnot k hk hzero
    obtain ⟨hout, hrest⟩ := h.resolve_left hnot k hk hzero
    have hbehind : ¬ r.AcceptsAt (seg.behind k) 1 := by
      cases k with
      | zero =>
          rw [← byteSeqno_zero, hzero] at hout
          exact fun haccepts => hout (haccepts.of_behind (List.length_pos_iff.mp hk))
      | succ k => exact hrest (Nat.zero_lt_succ k)
    rw [hreceived, receiveAt, if_neg hout, receiveAt, if_neg hbehind]
  · intro hnot hne hnowhere
    have hpos : r.absSeqno seg ≠ 0 := by
      rw [← byteSeqno_zero]
      exact hnowhere 0 (List.length_pos_iff.mpr hne)
    rw [hreceived, receiveAt, if_neg fun haccepts => hnot ⟨hpos, haccepts⟩]

end

end TCPReceiver

end NetworkLabs
