import NetworkLabs.Sponge.StreamReassembler.Refinement
import NetworkLabs.Sponge.TCPReceiver

/-!
# A receiver with an honest peer

An honest peer has one stream `S` and one initial sequence number, and every
segment it emits is cut from `S`: `CutAt S isn index seg` says that the payload
stands in `S` at `index`, that the sequence number is the one of that place, and
that SYN and FIN stand at the two ends of the stream only. An empty segment may
also stand behind the FIN.

For such a segment `segment_received` either leaves the reassembler alone or
pushes the payload at the index it was cut from. The receiver is therefore a
session of the reassembler, and its `ackno` is the number of the first position
that it misses.
-/

namespace NetworkLabs

namespace TCPSegment

/-- The segment carries the bytes of `S` at `index`, under the numbers that
belong to them. -/
structure CutAt (S : List UInt8) (isn : WrappingInt32) (index : ℕ)
    (seg : TCPSegment) : Prop where
  slice : IsSlice S index seg.payload
  index_le : index ≤ S.length + 1
  syn_index : seg.header.syn = true → index = 0
  seqno_eq : seg.header.seqno = wrap (if seg.header.syn then 0 else index + 1) isn
  fin_end : seg.header.fin = true → index + seg.payload.length = S.length

/-- The position of the first sequence number of a segment cut at `index`. -/
def first (index : ℕ) (seg : TCPSegment) : ℕ :=
  if seg.header.syn then 0 else index + 1

section

variable {S : List UInt8} {isn : WrappingInt32} {index : ℕ} {seg : TCPSegment}

/-- Positions and lengths of cut segments are far from the range of
`uint64_t`. -/
theorem CutAt.bounds (hseg : CutAt S isn index seg) :
    seg.first index ≤ S.length + 2 ∧ seg.lengthInSequenceSpace ≤ S.length + 2 := by
  have hindex := hseg.index_le
  have hlen := hseg.slice.length_le
  rw [List.length_drop] at hlen
  rw [first, lengthInSequenceSpace]
  constructor
  · split_ifs
    · omega
    · omega
  · split_ifs
    all_goals omega

/-- No number of a cut segment lies behind the FIN. -/
theorem CutAt.length_le (hseg : CutAt S isn index seg) :
    seg.first index + seg.lengthInSequenceSpace ≤ S.length + 2 := by
  have hindex := hseg.index_le
  have hsyn := hseg.syn_index
  have hfin := hseg.fin_end
  have hlen := hseg.slice.length_le
  rw [List.length_drop] at hlen
  rw [first, lengthInSequenceSpace]
  split_ifs with h₁ h₂ h₂
  · have hzero := hsyn h₁
    omega
  · have hzero := hsyn h₁
    omega
  · have hend := hfin h₂
    omega
  · omega

/-- The index under which a cut segment is pushed is the one it was cut from. -/
theorem CutAt.unwrap_eq (hseg : CutAt S isn index seg) (hbound : S.length < 2 ^ 31)
    (checkpoint : ℕ) (hcheckpoint : checkpoint ≤ S.length) :
    unwrap seg.header.seqno isn checkpoint = seg.first index := by
  have hfirst := hseg.bounds.1
  rw [hseg.seqno_eq]
  exact unwrap_wrap_of_lt _ checkpoint isn (by omega) (by unfold first at hfirst; omega)

end

end TCPSegment

/-- The numbers of a segment cut at `index` include the next one that the
receiver waits for. -/
def TCPReceiver.Awaits (r : TCPReceiver) (index : ℕ) (seg : TCPSegment) : Prop :=
  (r.synReceived = true ∨ seg.header.syn = true) ∧ seg.first index ≤ r.nextWrite ∧
    r.nextWrite < seg.first index + seg.lengthInSequenceSpace

namespace TCPReceiver

open StreamReassembler TCPSegment

/-- What the receiver keeps beside the reassembler: the index of the next byte,
and the initial sequence number of the peer. -/
structure Tracks (isn : WrappingInt32) (r : TCPReceiver) : Prop where
  checkpoint_eq : r.checkpoint = r.streamOut.bytesWritten
  isn_eq : r.synReceived = true → r.isn = isn

theorem tracks_new (isn : WrappingInt32) (capacity : ℕ) : Tracks isn (new capacity) where
  checkpoint_eq := rfl
  isn_eq := by simp [new]

section

variable {S : List UInt8} {isn : WrappingInt32} {r : TCPReceiver}
  {q : BoundedFifo UInt8} {index : ℕ} {seg : TCPSegment}

@[simp] theorem noteSyn_reassembler : (r.noteSyn seg).reassembler = r.reassembler := by
  rw [noteSyn]
  split_ifs
  · rfl
  · rfl

@[simp] theorem noteSyn_streamOut : (r.noteSyn seg).streamOut = r.streamOut := by
  rw [streamOut, noteSyn_reassembler, streamOut]

@[simp] theorem noteSyn_nextWrite : (r.noteSyn seg).nextWrite = r.nextWrite := by
  rw [nextWrite, noteSyn_streamOut, nextWrite]

@[simp] theorem noteSyn_windowSize : (r.noteSyn seg).windowSize = r.windowSize := by
  rw [windowSize, noteSyn_streamOut, windowSize]

@[simp] theorem noteSyn_synReceived :
    (r.noteSyn seg).synReceived = (r.synReceived || seg.header.syn) := by
  rw [noteSyn]
  cases hsyn : seg.header.syn
  · simp
  · cases hreceived : r.synReceived
    · simp
    · simp [hreceived]

theorem Tracks.noteSyn (h : Tracks isn r) (hseg : CutAt S isn index seg) :
    Tracks isn (r.noteSyn seg) where
  checkpoint_eq := by
    have hcheckpoint := h.checkpoint_eq
    rw [TCPReceiver.noteSyn]
    split_ifs
    · exact hcheckpoint
    · exact hcheckpoint
  isn_eq := by
    have hseqno := hseg.seqno_eq
    rw [TCPReceiver.noteSyn]
    split_ifs with hfirst
    · rw [Bool.and_eq_true] at hfirst
      rw [if_pos hfirst.1, wrap_zero] at hseqno
      exact fun _ => hseqno
    · exact h.isn_eq

theorem nextWrite_le (h : Inv S r.reassembler q) : r.nextWrite ≤ S.length + 2 := by
  have hwritten := h.assembled.written_prefix.length_le
  have hrefines := h.assembled.refines.bytesWritten_eq
  rw [nextWrite, streamOut]
  split_ifs
  · omega
  · omega

/-- What `segment_received` does with a cut segment: it drops what lies outside
the window, and pushes the payload at its index otherwise. -/
theorem segmentReceived_cases (h : Inv S r.reassembler q) (ht : Tracks isn r)
    (hseg : CutAt S isn index seg) :
    (r.segmentReceived seg = r.noteSyn seg ∧
      ((r.synReceived || seg.header.syn) = false ∨ r.streamOut.inputEnded = true ∨
        seg.first index + seg.lengthInSequenceSpace ≤ r.nextWrite ∨
        r.nextWrite + r.windowSize ≤ seg.first index)) ∨
    ((r.synReceived || seg.header.syn) = true ∧ r.streamOut.inputEnded = false ∧
      r.segmentReceived seg = (r.noteSyn seg).pushPayload seg index) := by
  have hnote := ht.noteSyn hseg
  have hbound := h.bound
  have hwritten := h.assembled.written_prefix.length_le
  have hrefines := h.assembled.refines
  have hcheckpoint : (r.noteSyn seg).checkpoint ≤ S.length := by
    rw [hnote.checkpoint_eq, noteSyn_streamOut, streamOut, hrefines.bytesWritten_eq]
    exact hwritten
  rw [segmentReceived, ackno]
  by_cases hsyn : (r.synReceived || seg.header.syn) = true
  · have hisn : (r.noteSyn seg).isn = isn := hnote.isn_eq (by rw [noteSyn_synReceived, hsyn])
    have hnext := nextWrite_le h
    have hackno : unwrap (wrap r.nextWrite isn) isn (r.noteSyn seg).checkpoint =
        r.nextWrite := by
      apply unwrap_wrap_of_lt
      · omega
      · omega
    have hfirst := hseg.unwrap_eq (by omega) _ hcheckpoint
    have hsizes := hseg.bounds
    have hroom := q.room_add_size
    have hwindow : r.windowSize = q.room := hrefines.remainingCapacity_eq
    simp only [noteSyn_synReceived, hsyn, if_true, noteSyn_streamOut, noteSyn_nextWrite,
      noteSyn_windowSize, hisn, hackno, hfirst]
    rw [sizeT_add _ _ (by omega), sizeT_add _ _ (by omega)]
    split_ifs with hended hdrop hfst
    · exact Or.inl ⟨rfl, Or.inr (Or.inl hended)⟩
    · exact Or.inl ⟨rfl, Or.inr (Or.inr hdrop)⟩
    · have hindex := hseg.syn_index hfst
      refine Or.inr ⟨trivial, by simpa using hended, ?_⟩
      rw [first, if_pos hfst, hindex]
    · refine Or.inr ⟨trivial, by simpa using hended, ?_⟩
      have hpred : ((seg.first index : ℤ) - 1) = index := by
        rw [first, if_neg hfst]
        push_cast
        ring
      have hindex := hseg.index_le
      rw [hpred, sizeT, MachineInt.unsigned_natCast 64 index (by omega)]
  · rw [Bool.not_eq_true] at hsyn
    simp only [noteSyn_synReceived, hsyn, Bool.false_eq_true, if_false]
    exact Or.inl ⟨trivial, Or.inl trivial⟩

/-- The SYN is all that a receiver ever learns about the initial number. -/
@[simp] theorem segmentReceived_synReceived :
    (r.segmentReceived seg).synReceived = (r.synReceived || seg.header.syn) := by
  rw [← noteSyn_synReceived]
  rw [segmentReceived, ackno]
  by_cases hsyn : (r.noteSyn seg).synReceived = true
  · simp only [hsyn, if_true]
    split_ifs
    all_goals exact hsyn
  · simp only [hsyn, Bool.false_eq_true, if_false]

theorem Tracks.segmentReceived (h : Inv S r.reassembler q) (ht : Tracks isn r)
    (hseg : CutAt S isn index seg) : Tracks isn (r.segmentReceived seg) := by
  rcases segmentReceived_cases h ht hseg with ⟨heq, -⟩ | ⟨-, -, heq⟩
  · rw [heq]
    exact ht.noteSyn hseg
  · rw [heq]
    exact { checkpoint_eq := rfl, isn_eq := (ht.noteSyn hseg).isn_eq }

/-- A cut segment reaches the reassembler as a push from the stream, or not at
all. -/
theorem reassembler_segmentReceived (h : Inv S r.reassembler q) (ht : Tracks isn r)
    (hseg : CutAt S isn index seg) :
    (r.segmentReceived seg).reassembler = r.reassembler ∨
      (r.segmentReceived seg).reassembler =
        r.reassembler.pushSubstring seg.payload index seg.header.fin := by
  rcases segmentReceived_cases h ht hseg with ⟨heq, -⟩ | ⟨-, -, heq⟩
  · rw [heq, noteSyn_reassembler]
    exact Or.inl rfl
  · rw [heq, pushPayload, noteSyn_reassembler]
    exact Or.inr rfl

theorem fromStream_of_cutAt (hseg : CutAt S isn index seg) (hbound : S.length < 2 ^ 31) :
    (Call.push seg.payload index seg.header.fin).FromStream S := by
  have hindex := hseg.index_le
  exact ⟨hseg.slice, by omega, hseg.fin_end⟩

theorem Tracks.read (h : Tracks isn r) (len : ℕ) : Tracks isn (r.read len).1 where
  checkpoint_eq := h.checkpoint_eq
  isn_eq := h.isn_eq

/-- The end is known after a segment only if it was before or the segment
carries FIN. -/
theorem eofIdx_segmentReceived (h : Inv S r.reassembler q) (ht : Tracks isn r)
    (hseg : CutAt S isn index seg)
    (heof : (r.segmentReceived seg).reassembler.eofIdx = S.length) :
    r.reassembler.eofIdx = S.length ∨ seg.header.fin = true := by
  rcases reassembler_segmentReceived h ht hseg with heq | heq
  · rw [heq] at heof
    exact Or.inl heof
  · rw [heq, pushSubstring_eofIdx h.toBase hseg.slice hseg.fin_end] at heof
    cases hfin : seg.header.fin
    · rw [hfin] at heof
      exact Or.inl heof
    · exact Or.inr rfl

/-- A segment that carries the awaited number moves the receiver to the end of
its payload, or as far as there is room, and a FIN that is reached ends the
input. -/
theorem advance (h : Inv S r.reassembler q) (ht : Tracks isn r)
    (hseg : CutAt S isn index seg) (hawaits : r.Awaits index seg)
    (hwindow : 0 < r.windowSize) :
    min (index + seg.payload.length) (r.streamOut.bytesWritten + r.windowSize) ≤
        (r.segmentReceived seg).streamOut.bytesWritten ∧
      (seg.header.fin = true →
        S.length ≤ min (index + seg.payload.length)
          (r.streamOut.bytesWritten + r.windowSize) →
        (r.segmentReceived seg).streamOut.inputEnded = true) := by
  obtain ⟨hsyn, hfirst, hlast⟩ := hawaits
  have hrefines := h.assembled.refines
  have hwritten : r.streamOut.bytesWritten = r.reassembler.assembleIdx := by
    rw [h.assembled.idx_eq]
    exact hrefines.bytesWritten_eq
  have hroom : r.windowSize = q.room := hrefines.remainingCapacity_eq
  have hcut := hseg.fin_end
  have hstart := hseg.syn_index
  rcases segmentReceived_cases h ht hseg with ⟨-, hdrop⟩ | ⟨-, hopen, heq⟩
  · exfalso
    rcases hdrop with hnone | hended | hbelow | habove
    · rw [Bool.or_eq_false_iff] at hnone
      rcases hsyn with hsyn | hsyn
      · exact absurd hsyn (by simp [hnone.1])
      · exact absurd hsyn (by simp [hnone.2])
    · have hall := (h.isEnd_iff.mp hended).2
      have hlen := hseg.length_le
      rw [nextWrite, if_pos hended] at hlast
      omega
    · omega
    · omega
  · rw [nextWrite, hopen, if_neg Bool.false_ne_true] at hfirst hlast
    have hle : index ≤ r.reassembler.assembleIdx := by
      rw [first] at hfirst
      split_ifs at hfirst with hs
      · have := hstart hs
        omega
      · omega
    have hge : r.reassembler.assembleIdx ≤ index + seg.payload.length := by
      rw [first, lengthInSequenceSpace] at hlast
      split_ifs at hlast
      all_goals omega
    have hgrow := le_assembleIdx_pushSubstring h.toBase hseg.slice
      hseg.fin_end hle hge
    have hindex := hseg.index_le
    have hend : index + seg.payload.length < 2 ^ 64 := by
      have hbound := h.bound
      have hlen := hseg.slice.length_le
      rw [List.length_drop] at hlen
      omega
    obtain ⟨q', hinv, -, -, -⟩ := h.pushSubstring hseg.slice hend hseg.fin_end
    have hwritten' : (r.segmentReceived seg).streamOut.bytesWritten =
        (r.reassembler.pushSubstring seg.payload index seg.header.fin).assembleIdx := by
      rw [heq, hinv.assembled.idx_eq, ← hinv.assembled.refines.bytesWritten_eq, pushPayload,
        noteSyn_reassembler]
      rfl
    rw [hwritten', hwritten, hroom]
    refine ⟨hgrow, ?_⟩
    intro hfin hreach
    have hknown := pushSubstring_eofIdx h.toBase hseg.slice
      hseg.fin_end
    rw [if_pos hfin] at hknown
    have hmax := hinv.assembleIdx_le
    have hended := hinv.isEnd_iff.mpr ⟨hknown, by omega⟩
    rw [heq, pushPayload, noteSyn_reassembler]
    exact hended

end

/-! ## Runs -/

/-- A segment arrives, or the application reads. -/
inductive Event where
  | segment (seg : TCPSegment)
  | read (len : ℕ)

/-- A receiver together with the bytes its reader was handed. -/
structure Session where
  receiver : TCPReceiver
  consumed : List UInt8

namespace Session

def start (capacity : ℕ) : Session := ⟨TCPReceiver.new capacity, []⟩

/-- The session of the reassembler inside. -/
def reassembly (s : Session) : StreamReassembler.Session :=
  ⟨s.receiver.reassembler, s.consumed⟩

/-- The bytes ever written to the output. -/
def written (s : Session) : List UInt8 := s.reassembly.written

def step (s : Session) : Event → Session
  | .segment seg => { s with receiver := s.receiver.segmentReceived seg }
  | .read len =>
      { receiver := (s.receiver.read len).1
        consumed := s.consumed ++ (s.receiver.read len).2 }

def run (capacity : ℕ) (events : List Event) : Session := events.foldl step (start capacity)

end Session

/-- The segments that arrive are cut from `S`. -/
def Event.FromPeer (S : List UInt8) (isn : WrappingInt32) : Event → Prop
  | .segment seg => ∃ index, CutAt S isn index seg
  | .read _ => True

/-- What a run with an honest peer keeps up. -/
structure Honest (S : List UInt8) (isn : WrappingInt32) (capacity : ℕ)
    (events : List Event) (s : Session) : Prop where
  stores : ∃ q, Stores S capacity s.reassembly q
  tracks : Tracks isn s.receiver
  syn_iff : s.receiver.synReceived = true ↔
    ∃ seg, Event.segment seg ∈ events ∧ seg.header.syn = true
  fin_seen : s.receiver.reassembler.eofIdx = S.length →
    ∃ seg, Event.segment seg ∈ events ∧ seg.header.fin = true

section

variable {S : List UInt8} {isn : WrappingInt32} {capacity : ℕ} {events : List Event}
  {s : Session} {r : TCPReceiver} {consumed : List UInt8} {q : BoundedFifo UInt8}
  {index : ℕ} {seg : TCPSegment}

/-- A cut segment keeps the session of the reassembler in step with a queue. -/
theorem stores_segmentReceived (h : Stores S capacity ⟨r.reassembler, consumed⟩ q)
    (ht : Tracks isn r) (hseg : CutAt S isn index seg) :
    ∃ q', Stores S capacity ⟨(r.segmentReceived seg).reassembler, consumed⟩ q' ∧
      q.written.length ≤ q'.written.length := by
  rcases reassembler_segmentReceived h.inv ht hseg with heq | heq
  · rw [heq]
    exact ⟨q, h, le_rfl⟩
  · have hbound := h.inv.bound
    change S.length + q.capacity < 2 ^ 31 at hbound
    rw [heq]
    exact h.step _ (fromStream_of_cutAt hseg (by omega))

theorem honest_start (hbound : S.length + capacity < 2 ^ 31) :
    Honest S isn capacity [] (Session.start capacity) where
  stores := ⟨_, stores_start hbound⟩
  tracks := tracks_new isn capacity
  syn_iff := by simp [Session.start, new]
  fin_seen := by
    have hne : sizeT (-1) ≠ S.length := by
      rw [sizeT_neg_one]
      omega
    exact fun heof => absurd heof hne

theorem Honest.step (h : Honest S isn capacity events s) (e : Event)
    (he : e.FromPeer S isn) : Honest S isn capacity (events ++ [e]) (s.step e) := by
  obtain ⟨q, hq⟩ := h.stores
  cases e with
  | segment seg =>
      obtain ⟨index, hseg⟩ := he
      obtain ⟨q', hq', -⟩ := stores_segmentReceived hq h.tracks hseg
      exact {
        stores := ⟨q', hq'⟩
        tracks := Tracks.segmentReceived hq.inv h.tracks hseg
        syn_iff := by
          change (s.receiver.segmentReceived seg).synReceived = true ↔ _
          rw [segmentReceived_synReceived, Bool.or_eq_true, h.syn_iff]
          constructor
          · rintro (⟨seg', hmem, hsyn⟩ | hsyn)
            · exact ⟨seg', List.mem_append_left _ hmem, hsyn⟩
            · exact ⟨seg, by simp, hsyn⟩
          · rintro ⟨seg', hmem, hsyn⟩
            rcases List.mem_append.mp hmem with hmem | hmem
            · exact Or.inl ⟨seg', hmem, hsyn⟩
            · obtain rfl : seg' = seg := by simpa using hmem
              exact Or.inr hsyn
        fin_seen := by
          intro heof
          rcases eofIdx_segmentReceived hq.inv h.tracks hseg heof with hold | hfin
          · obtain ⟨seg', hmem, hfin⟩ := h.fin_seen hold
            exact ⟨seg', List.mem_append_left _ hmem, hfin⟩
          · exact ⟨seg, by simp, hfin⟩ }
  | read len =>
      obtain ⟨q', hq', -⟩ := hq.step (.read len) trivial
      have hmem : ∀ seg, Event.segment seg ∈ events ++ [Event.read len] ↔
          Event.segment seg ∈ events := by simp
      exact {
        stores := ⟨q', hq'⟩
        tracks := h.tracks.read len
        syn_iff := by
          simp only [hmem]
          exact h.syn_iff
        fin_seen := by
          simp only [hmem]
          exact h.fin_seen }

theorem honest_run (hbound : S.length + capacity < 2 ^ 31)
    (hevents : ∀ e ∈ events, e.FromPeer S isn) :
    Honest S isn capacity events (Session.run capacity events) := by
  induction events using List.reverseRecOn with
  | nil => exact honest_start hbound
  | append_singleton events e ih =>
      rw [Session.run, List.foldl_concat]
      exact (ih fun e he => hevents e (List.mem_append_left _ he)).step e
        (hevents e (by simp))

end

/-- A receiver whose segments are cut from `S` delivers `S`: what it wrote is a
prefix, the number it asks for is the one behind that prefix, it ends its input
at the end of `S` only, and a segment with the number it asks for moves it
on. -/
theorem run_delivers_stream (S : List UInt8) (isn : WrappingInt32) (capacity : ℕ)
    (events : List Event) (hbound : S.length + capacity < 2 ^ 31)
    (hevents : ∀ e ∈ events, e.FromPeer S isn) :
    let s := Session.run capacity events
    (s.written <+: S ∧ s.receiver.streamOut.bytesWritten = s.written.length) ∧
    ((∃ seg, Event.segment seg ∈ events ∧ seg.header.syn = true) →
      s.receiver.ackno = some (wrap (1 + s.receiver.streamOut.bytesWritten +
        if s.receiver.streamOut.inputEnded then 1 else 0) isn)) ∧
    (s.receiver.streamOut.inputEnded = true → s.written = S ∧
      ∃ seg, Event.segment seg ∈ events ∧ seg.header.fin = true) ∧
    ∀ index seg, CutAt S isn index seg → s.receiver.Awaits index seg →
      0 < s.receiver.windowSize →
      min (index + seg.payload.length)
          (s.receiver.streamOut.bytesWritten + s.receiver.windowSize) ≤
        (s.step (.segment seg)).receiver.streamOut.bytesWritten ∧
      (seg.header.fin = true →
        S.length ≤ min (index + seg.payload.length)
          (s.receiver.streamOut.bytesWritten + s.receiver.windowSize) →
        (s.step (.segment seg)).receiver.streamOut.inputEnded = true) := by
  intro s
  have h : Honest S isn capacity events s := honest_run hbound hevents
  obtain ⟨q, hq⟩ := h.stores
  have hwritten : s.written = q.written := hq.written_eq
  refine ⟨⟨?_, ?_⟩, ?_, ?_, ?_⟩
  · rw [hwritten]
    exact hq.inv.assembled.written_prefix
  · rw [hwritten]
    exact hq.inv.assembled.refines.bytesWritten_eq
  · intro hsyn
    have hreceived := h.syn_iff.mpr hsyn
    rw [ackno, if_pos hreceived, h.tracks.isn_eq hreceived, nextWrite]
    congr 2
    split_ifs
    · omega
    · omega
  · intro hended
    obtain ⟨hknown, hall⟩ := hq.inv.isEnd_iff.mp hended
    refine ⟨?_, h.fin_seen hknown⟩
    rw [hwritten, hq.inv.written_eq, hall, List.take_length]
  · intro index seg hseg hawaits hwindow
    exact advance hq.inv h.tracks hseg hawaits hwindow

/-- The end of the stream arrives in front of the SYN, and again behind it. -/
theorem run_delivers_stream_reordered :
    (Session.run 4 [
      .segment { header := { seqno := ⟨7⟩, fin := true }, payload := [5] },
      .segment { header := { seqno := ⟨6⟩, syn := true } },
      .segment { header := { seqno := ⟨7⟩, fin := true }, payload := [5] }]).written
        = [5] := by
  have hevents : ∀ e ∈ [
      Event.segment { header := { seqno := ⟨7⟩, fin := true }, payload := [5] },
      Event.segment { header := { seqno := ⟨6⟩, syn := true } },
      Event.segment { header := { seqno := ⟨7⟩, fin := true }, payload := [5] }],
      e.FromPeer [5] ⟨6⟩ := by
    have hlast : CutAt [5] ⟨6⟩ 0 { header := { seqno := ⟨7⟩, fin := true }, payload := [5] } :=
      ⟨by simp [IsSlice], by decide, by decide, by decide, by decide⟩
    have hsyn : CutAt [5] ⟨6⟩ 0 { header := { seqno := ⟨6⟩, syn := true } } :=
      ⟨by simp [IsSlice], by decide, by decide, by decide, by decide⟩
    simp only [List.forall_mem_cons, List.not_mem_nil, false_imp_iff, implies_true, and_true]
    exact ⟨⟨0, hlast⟩, ⟨0, hsyn⟩, ⟨0, hlast⟩⟩
  exact ((run_delivers_stream [5] ⟨6⟩ 4 _ (by decide) hevents).2.2.1 (by decide)).1

end TCPReceiver

end NetworkLabs
