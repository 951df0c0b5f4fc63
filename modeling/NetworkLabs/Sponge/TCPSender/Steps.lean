import NetworkLabs.Library.Tiling
import NetworkLabs.Sponge.TCPSender

/-!
# What the calls to a sender can do

However it runs through its three phases, `fill_window` only does four things
to a sender: it transmits the SYN, it transmits what it has read from the
stream, it reads in vain, and it transmits the FIN. `fillWindow_induction` is
the rule that follows: what each of the four keeps is kept by `fill_window`.

The frame of `fill_window` is one instance. Whatever was transmitted is a list
of segments of positive length that are queued, counted and cached one after
the other; the timer, the backoff and the window of the peer stay as they were.

An acknowledgment is refused, or takes over the window alone, or erases
segments and calls `fill_window`; a tick sends one stored segment again or
none.
-/

namespace NetworkLabs

namespace TCPSender

section Transmit

variable (s : TCPSender) (seg : TCPSegment)

@[simp] theorem transmit_isn : (s.transmit seg).isn = s.isn := rfl

@[simp] theorem transmit_segmentsOut :
    (s.transmit seg).segmentsOut = s.segmentsOut ++ [seg] := rfl

@[simp] theorem transmit_nextSeqnoAbsolute : (s.transmit seg).nextSeqnoAbsolute =
    s.nextSeqnoAbsolute + seg.lengthInSequenceSpace := rfl

@[simp] theorem transmit_bytesInFlight : (s.transmit seg).bytesInFlight =
    s.bytesInFlight + seg.lengthInSequenceSpace := rfl

@[simp] theorem transmit_stream : (s.transmit seg).stream = s.stream := rfl

@[simp] theorem transmit_window : (s.transmit seg).window = s.window := rfl

@[simp] theorem mem_transmit_segmentsCache (e : ℕ × TCPSegment) :
    e ∈ (s.transmit seg).segmentsCache ↔
      e = (s.nextSeqnoAbsolute + seg.lengthInSequenceSpace, seg) ∨
        (e ∈ s.segmentsCache ∧ e.1 ≠ s.nextSeqnoAbsolute + seg.lengthInSequenceSpace) :=
  SortedMap.mem_insert _ _ _ e

end Transmit

/-- The window is the advertised one, and never closed. -/
theorem window_eq (s : TCPSender) : s.window = max s.peerWindowsSize.toNat 1 := by
  rw [window]
  split_ifs with hpeer
  · have hpos : s.peerWindowsSize.toNat ≠ 0 := fun h0 => hpeer (UInt16.toNat_inj.mp h0)
    omega
  · rw [not_not] at hpeer
    rw [hpeer]
    rfl

theorem window_lt (s : TCPSender) : s.window < 2 ^ 16 := by
  have hpeer := s.peerWindowsSize.toNat_lt
  rw [window_eq]
  omega

/-- A read of at most `n` bytes by the loop, and the sender after it. -/
def afterRead (s : TCPSender) (n : ℕ) : TCPSender :=
  { s with stream := (s.stream.read (min TCPConfig.MAX_PAYLOAD_SIZE n)).1 }

/-- The sender after the FIN of the third phase. -/
def afterFin (s : TCPSender) : TCPSender :=
  { s.transmit s.finSegment with
    windowsSize := s.windowsSize - UInt16.ofNat s.finSegment.lengthInSequenceSpace }

/-- The bytes that a read of at most `n` bytes by the loop hands out. -/
def readStream (s : TCPSender) (n : ℕ) : List UInt8 :=
  (s.stream.read (min TCPConfig.MAX_PAYLOAD_SIZE n)).2

theorem length_readStream_le (s : TCPSender) (n : ℕ) :
    (s.readStream n).length ≤ min TCPConfig.MAX_PAYLOAD_SIZE n := by
  apply s.stream.length_peekOutput_le
  have hmax : TCPConfig.MAX_PAYLOAD_SIZE < 2 ^ 31 := by decide
  omega

theorem fillLoop_succ (fuel remsz : ℕ) (s : TCPSender) :
    fillLoop (fuel + 1) remsz s =
      if s.readStream remsz = [] then s.afterRead remsz
      else fillLoop fuel
        (remsz - ((s.afterRead remsz).dataSegment (s.readStream remsz) remsz).lengthInSequenceSpace)
        ((s.afterRead remsz).transmit
          ((s.afterRead remsz).dataSegment (s.readStream remsz) remsz)) := rfl

/-- A segment of the loop fits into what remains of the window. -/
theorem length_dataSegment_le (s t : TCPSender) (remsz : ℕ) :
    (t.dataSegment (s.readStream remsz) remsz).lengthInSequenceSpace ≤ remsz := by
  have hread := s.length_readStream_le remsz
  rw [TCPSegment.lengthInSequenceSpace, dataSegment]
  simp only [Bool.false_eq_true, if_false, Bool.and_eq_true, decide_eq_true_eq]
  split_ifs with hfin
  · have hroom := hfin.2
    omega
  · omega

theorem length_dataSegment_pos (t : TCPSender) (payload : List UInt8) (remsz : ℕ)
    (h : payload ≠ []) : 0 < (t.dataSegment payload remsz).lengthInSequenceSpace :=
  lt_of_lt_of_le (List.length_pos_iff.mpr h) (t.dataSegment payload remsz).length_payload_le

/-- The loop of `fill_window` ends by itself: more fuel than the window leaves room for, which is
what `fillData` gives it, changes nothing. -/
theorem fillLoop_fuel (fuel remsz : ℕ) (s : TCPSender) (h : remsz < fuel) :
    fillLoop (fuel + 1) remsz s = fillLoop fuel remsz s := by
  induction fuel generalizing remsz s with
  | zero => omega
  | succ fuel ih =>
      rw [fillLoop_succ (fuel + 1) remsz s, fillLoop_succ fuel remsz s]
      split_ifs with hnil
      · rfl
      · apply ih
        have hle := s.length_readStream_le remsz
        have hpos := length_dataSegment_pos (s.afterRead remsz) _ remsz hnil
        have hread := List.length_pos_iff.mpr hnil
        omega

section Induction

variable {P : TCPSender → Prop}

/-- The rule for the loop. The window is used up by what is transmitted, so
what is in flight and what remains never add up to more than the window. -/
theorem fillLoop_induction
    (hdata : ∀ t remsz, P t → 0 < t.nextSeqnoAbsolute → t.bytesInFlight + remsz ≤ t.window →
      t.readStream remsz ≠ [] → P ((t.afterRead remsz).transmit
        ((t.afterRead remsz).dataSegment (t.readStream remsz) remsz)))
    (hnone : ∀ t remsz, P t → t.readStream remsz = [] → P (t.afterRead remsz))
    (fuel remsz : ℕ) (s : TCPSender) (hs : P s) (hnext : 0 < s.nextSeqnoAbsolute)
    (hwindow : s.bytesInFlight + remsz ≤ s.window) : P (fillLoop fuel remsz s) := by
  induction fuel generalizing remsz s with
  | zero => exact hs
  | succ fuel ih =>
      rw [fillLoop_succ]
      split_ifs with hnil
      · exact hnone s remsz hs hnil
      · have hle := length_dataSegment_le s (s.afterRead remsz) remsz
        apply ih
        · exact hdata s remsz hs hnext hwindow hnil
        · rw [transmit_nextSeqnoAbsolute]
          exact Nat.add_pos_left hnext _
        · rw [transmit_bytesInFlight, transmit_window]
          change s.bytesInFlight + _ + _ ≤ s.window
          omega

/-- The rule for `fill_window`. -/
theorem fillWindow_induction
    (hsyn : ∀ t, P t → t.nextSeqnoAbsolute = 0 → P (t.transmit t.synSegment))
    (hdata : ∀ t remsz, P t → 0 < t.nextSeqnoAbsolute → t.bytesInFlight + remsz ≤ t.window →
      t.readStream remsz ≠ [] → P ((t.afterRead remsz).transmit
        ((t.afterRead remsz).dataSegment (t.readStream remsz) remsz)))
    (hnone : ∀ t remsz, P t → t.readStream remsz = [] → P (t.afterRead remsz))
    (hfin : ∀ t, P t → 0 < t.nextSeqnoAbsolute → t.finDue = true →
      t.bytesInFlight < t.window → P t.afterFin)
    (s : TCPSender) (hs : P s) : P s.fillWindow := by
  have hthird : ∀ t, P t → 0 < t.nextSeqnoAbsolute → P t.fillFin := by
    intro t ht hnext
    rw [fillFin]
    split_ifs with hdue hfull
    · exact ht
    · exact hfin t ht hnext hdue (by omega)
    · exact ht
  have hfirst : P s.fillSyn ∧ 0 < s.fillSyn.nextSeqnoAbsolute := by
    rw [fillSyn]
    split_ifs with h0
    · exact ⟨hsyn s hs h0, by simp [TCPSegment.lengthInSequenceSpace, synSegment]⟩
    · exact ⟨hs, Nat.pos_of_ne_zero h0⟩
  rw [fillWindow, fillData]
  split_ifs with hopen hfull
  · exact hfirst.1
  · have hloop := fillLoop_induction (P := fun t => P t ∧ 0 < t.nextSeqnoAbsolute)
      (fun t remsz ht hnext hwindow hnil => ⟨hdata t remsz ht.1 hnext hwindow hnil, by
        rw [transmit_nextSeqnoAbsolute]
        exact Nat.add_pos_left hnext _⟩)
      (fun t remsz ht hnil => ⟨hnone t remsz ht.1 hnil, ht.2⟩)
      (s.fillSyn.window - s.fillSyn.bytesInFlight + 1)
      (s.fillSyn.window - s.fillSyn.bytesInFlight) s.fillSyn hfirst hfirst.2 (by omega)
    exact hthird _ hloop.1 hloop.2
  · exact hthird _ hfirst.1 hfirst.2

end Induction

/-! ## The frame of `fill_window` -/

/-- The position behind each segment of a list that is transmitted from the
position `n` on. -/
abbrev ends (n : ℕ) (l : List TCPSegment) : List (ℕ × TCPSegment) :=
  Tiling.ends TCPSegment.lengthInSequenceSpace n l

/-- The sequence numbers that a list of segments occupies. -/
abbrev total (l : List TCPSegment) : ℕ := Tiling.total TCPSegment.lengthInSequenceSpace l

theorem total_append (l m : List TCPSegment) : total (l ++ m) = total l + total m :=
  Tiling.total_append _ l m

/-- No stored segment ends behind the next number. -/
def KeysLe (s : TCPSender) : Prop := ∀ e ∈ s.segmentsCache, e.1 ≤ s.nextSeqnoAbsolute

/-- The sender `t` is the sender `s` after the segments in `new` were
transmitted; the timer, the backoff and the window are untouched. -/
structure Transmits (s t : TCPSender) (new : List TCPSegment) : Prop where
  isn_eq : t.isn = s.isn
  timeout_eq : t.initialRetransmissionTimeout = s.initialRetransmissionTimeout
  default_eq : t.defaultInitialRetransmissionTimeout = s.defaultInitialRetransmissionTimeout
  peer_eq : t.peerWindowsSize = s.peerWindowsSize
  time_eq : t.time = s.time
  retx_eq : t.retxTimes = s.retxTimes
  out_eq : t.segmentsOut = s.segmentsOut ++ new
  next_eq : t.nextSeqnoAbsolute = s.nextSeqnoAbsolute + total new
  flight_eq : t.bytesInFlight = s.bytesInFlight + total new
  pos : ∀ seg ∈ new, 0 < seg.lengthInSequenceSpace
  seqno_eq : ∀ e ∈ ends s.nextSeqnoAbsolute new,
    e.2.header.seqno = wrap (e.1 - e.2.lengthInSequenceSpace) s.isn
  entries_eq : KeysLe s → t.segmentsCache.entries =
    s.segmentsCache.entries ++ ends s.nextSeqnoAbsolute new

namespace Transmits

variable {s t : TCPSender} {new : List TCPSegment}

theorem refl (s : TCPSender) : Transmits s s [] where
  isn_eq := rfl
  timeout_eq := rfl
  default_eq := rfl
  peer_eq := rfl
  time_eq := rfl
  retx_eq := rfl
  out_eq := (List.append_nil _).symm
  next_eq := rfl
  flight_eq := rfl
  pos := fun _ h => absurd h List.not_mem_nil
  seqno_eq := fun _ h => absurd h List.not_mem_nil
  entries_eq := fun _ => (List.append_nil _).symm

/-- Where the transmitted segments end. -/
theorem bounds (h : Transmits s t new) {e : ℕ × TCPSegment}
    (he : e ∈ ends s.nextSeqnoAbsolute new) :
    s.nextSeqnoAbsolute + e.2.lengthInSequenceSpace ≤ e.1 ∧
      e.1 ≤ t.nextSeqnoAbsolute ∧ 0 < e.2.lengthInSequenceSpace := by
  have hbounds := Tiling.bounds_of_mem_ends TCPSegment.lengthInSequenceSpace
    s.nextSeqnoAbsolute new e he
  rw [h.next_eq]
  exact ⟨hbounds.1, hbounds.2, h.pos _ (Tiling.mem_of_mem_ends _ _ _ e he)⟩

theorem mem_cache (h : Transmits s t new) (hkeys : KeysLe s) (e : ℕ × TCPSegment) :
    e ∈ t.segmentsCache ↔ e ∈ s.segmentsCache ∨ e ∈ ends s.nextSeqnoAbsolute new := by
  rw [SortedMap.mem_def, h.entries_eq hkeys, List.mem_append, SortedMap.mem_def]

/-- What holds of the stored segments and of the transmitted ones holds of those
that are stored afterwards. -/
theorem forall_mem_cache (h : Transmits s t new) (hkeys : KeysLe s) {p : ℕ × TCPSegment → Prop}
    (hold : ∀ e ∈ s.segmentsCache, p e) (hnew : ∀ e ∈ ends s.nextSeqnoAbsolute new, p e) :
    ∀ e ∈ t.segmentsCache, p e := by
  intro e he
  rcases (h.mem_cache hkeys e).mp he with he | he
  · exact hold e he
  · exact hnew e he

theorem keysLe (h : Transmits s t new) (hkeys : KeysLe s) : KeysLe t := by
  intro e he
  rcases (h.mem_cache hkeys e).mp he with he | he
  · rw [h.next_eq]
    exact le_trans (hkeys e he) (Nat.le_add_right _ _)
  · exact (h.bounds he).2.1

/-- The stored segments carry the numbers of where they start. -/
theorem forall_seqno_eq (h : Transmits s t new) (hkeys : KeysLe s)
    (hold : ∀ e ∈ s.segmentsCache,
      e.2.header.seqno = wrap (e.1 - e.2.lengthInSequenceSpace) s.isn) :
    ∀ e ∈ t.segmentsCache,
      e.2.header.seqno = wrap (e.1 - e.2.lengthInSequenceSpace) t.isn := by
  rw [h.isn_eq]
  exact h.forall_mem_cache hkeys hold h.seqno_eq

/-- One more segment; the key under which it is cached is new. -/
theorem transmit (h : Transmits s t new) (seg : TCPSegment)
    (hpos : 0 < seg.lengthInSequenceSpace) (hseqno : seg.header.seqno = t.nextSeqno) :
    Transmits s (t.transmit seg) (new ++ [seg]) where
  isn_eq := h.isn_eq
  timeout_eq := h.timeout_eq
  default_eq := h.default_eq
  peer_eq := h.peer_eq
  time_eq := h.time_eq
  retx_eq := h.retx_eq
  out_eq := by rw [transmit_segmentsOut, h.out_eq, List.append_assoc]
  next_eq := by
    rw [transmit_nextSeqnoAbsolute, h.next_eq]
    simp [total, Nat.add_assoc]
  flight_eq := by
    rw [transmit_bytesInFlight, h.flight_eq]
    simp [total, Nat.add_assoc]
  pos := by
    intro x hx
    rcases List.mem_append.mp hx with hx | hx
    · exact h.pos x hx
    · rw [List.mem_singleton.mp hx]
      exact hpos
  seqno_eq := by
    intro e he
    rcases (Tiling.mem_ends_concat _ _ _ _ e).mp he with he | rfl
    · exact h.seqno_eq e he
    · rw [hseqno, nextSeqno, h.isn_eq, h.next_eq, Nat.add_sub_cancel]
  entries_eq := by
    intro hkeys
    have hlt : ∀ e ∈ t.segmentsCache,
        e.1 < t.nextSeqnoAbsolute + seg.lengthInSequenceSpace := by
      intro e he
      have hle := h.keysLe hkeys e he
      omega
    change (t.segmentsCache.insert _ seg).entries = _
    rw [SortedMap.entries_insert_of_lt _ _ _ hlt, h.entries_eq hkeys, ends, ends,
      Tiling.ends_append, List.append_assoc, h.next_eq]
    rfl

/-- The stream and the unused copy of the window are not part of the frame. -/
theorem update (h : Transmits s t new) (stream : ByteStream) (windowsSize : UInt16) :
    Transmits s { t with stream := stream, windowsSize := windowsSize } new := { h with }

end Transmits

theorem transmits_fillWindow (s : TCPSender) : ∃ new, Transmits s s.fillWindow new := by
  apply fillWindow_induction (P := fun t => ∃ new, Transmits s t new)
  · rintro t ⟨new, ht⟩ h0
    have hseqno : t.synSegment.header.seqno = t.nextSeqno := by
      rw [nextSeqno, h0, wrap_zero]
      rfl
    exact ⟨_, ht.transmit t.synSegment Nat.one_pos hseqno⟩
  · rintro t remsz ⟨new, ht⟩ - - hnil
    have hread : Transmits s (t.afterRead remsz) new := ht.update _ _
    exact ⟨_, hread.transmit _ (length_dataSegment_pos _ _ _ hnil) rfl⟩
  · rintro t remsz ⟨new, ht⟩ -
    exact ⟨new, ht.update _ _⟩
  · rintro t ⟨new, ht⟩ - - -
    exact ⟨_, (ht.transmit t.finSegment Nat.one_pos rfl).update _ _⟩
  · exact ⟨[], Transmits.refl s⟩

/-- What is in flight stays in the range of `int`: the loop and the FIN only
send while there is room in the window. -/
theorem flight_fillWindow_lt (s : TCPSender) (hflight : s.bytesInFlight < 2 ^ 31)
    (hzero : s.nextSeqnoAbsolute = 0 → s.bytesInFlight = 0) :
    s.fillWindow.bytesInFlight < 2 ^ 31 := by
  have h : (s.fillWindow.nextSeqnoAbsolute = 0 → s.fillWindow.bytesInFlight = 0) ∧
      s.fillWindow.bytesInFlight < 2 ^ 31 := by
    apply fillWindow_induction
      (P := fun t => (t.nextSeqnoAbsolute = 0 → t.bytesInFlight = 0) ∧ t.bytesInFlight < 2 ^ 31)
    · rintro t ⟨ht, -⟩ h0
      have hone : t.synSegment.lengthInSequenceSpace = 1 := rfl
      rw [transmit_nextSeqnoAbsolute, transmit_bytesInFlight, ht h0, hone]
      exact ⟨by omega, by omega⟩
    · rintro t remsz - hnext hwindow -
      have hlen := length_dataSegment_le t (t.afterRead remsz) remsz
      have hmax := t.window_lt
      rw [transmit_nextSeqnoAbsolute, transmit_bytesInFlight]
      change (t.nextSeqnoAbsolute + _ = 0 → _) ∧ t.bytesInFlight + _ < 2 ^ 31
      exact ⟨by omega, by omega⟩
    · exact fun t remsz ht _ => ht
    · rintro t - hnext - hroom
      have hmax := t.window_lt
      change (t.nextSeqnoAbsolute + 1 = 0 → _) ∧ t.bytesInFlight + 1 < 2 ^ 31
      exact ⟨by omega, by omega⟩
    · exact ⟨hzero, hflight⟩
  exact h.2

/-- `fill_window` reads from the stream, and leaves the rest of it alone. -/
theorem stream_fillWindow (s : TCPSender) :
    s.fillWindow.stream.bytesWritten = s.stream.bytesWritten ∧
      s.fillWindow.stream.error = s.stream.error := by
  apply fillWindow_induction (P := fun t =>
    t.stream.bytesWritten = s.stream.bytesWritten ∧ t.stream.error = s.stream.error)
  · exact fun t ht _ => ht
  · exact fun t remsz ht _ _ _ => ht
  · exact fun t remsz ht _ => ht
  · exact fun t ht _ _ _ => ht
  · exact ⟨rfl, rfl⟩

/-! ## Acknowledgments and the timer -/

section

variable {s : TCPSender} {ackno : WrappingInt32} {windowSize : UInt16}

/-- The number stands for the position at the distance `nBytes` below the next
one. -/
theorem nBytes_wrap (A : ℕ) (hle : A ≤ s.nextSeqnoAbsolute)
    (hlt : s.nextSeqnoAbsolute < A + 2 ^ 31) :
    s.nBytes (wrap A s.isn) = (s.nextSeqnoAbsolute : ℤ) - A := by
  rw [nBytes, nextSeqno, toInt_sub_wrap, bmod_eq_self _ (by omega) (by omega)]

theorem nBytes_lt (s : TCPSender) (ackno : WrappingInt32) : s.nBytes ackno < 2 ^ 31 :=
  Int32.toInt_lt _

/-- The three ways through `ack_received`. -/
theorem ackReceived_cases (s : TCPSender) (ackno : WrappingInt32) (windowSize : UInt16) :
    (s.nBytes ackno < 0 ∧ s.ackReceived ackno windowSize = s) ∨
    (0 ≤ s.nBytes ackno ∧ s.acknosPop ackno = [] ∧
      s.ackReceived ackno windowSize = s.popAcked ackno windowSize) ∨
    (0 ≤ s.nBytes ackno ∧ s.acknosPop ackno ≠ [] ∧
      s.ackReceived ackno windowSize =
        ((s.popAcked ackno windowSize).restart (s.nBytes ackno) windowSize).fillWindow) := by
  rw [ackReceived]
  split_ifs with hneg hnone
  · exact Or.inl ⟨hneg, rfl⟩
  · exact Or.inr (Or.inl ⟨not_lt.mp hneg, hnone, rfl⟩)
  · exact Or.inr (Or.inr ⟨not_lt.mp hneg, hnone, rfl⟩)

@[simp] theorem mem_popAcked_segmentsCache (s : TCPSender) (ackno : WrappingInt32)
    (windowSize : UInt16) (e : ℕ × TCPSegment) :
    e ∈ (s.popAcked ackno windowSize).segmentsCache ↔
      e ∈ s.segmentsCache ∧ e.1 ∉ s.acknosPop ackno :=
  SortedMap.mem_eraseAll _ _ e

theorem mem_of_popAcked {e : ℕ × TCPSegment}
    (he : e ∈ (s.popAcked ackno windowSize).segmentsCache) : e ∈ s.segmentsCache :=
  ((mem_popAcked_segmentsCache s ackno windowSize e).mp he).1

theorem popAcked_segmentsCache_of_nil (h : s.acknosPop ackno = []) :
    (s.popAcked ackno windowSize).segmentsCache = s.segmentsCache := by
  rw [popAcked, h, SortedMap.eraseAll_nil]

theorem exists_mem_of_acknosPop_ne_nil (h : s.acknosPop ackno ≠ []) :
    ∃ e ∈ s.segmentsCache, e.1 ∈ s.acknosPop ackno := by
  obtain ⟨k, hk⟩ := List.exists_mem_of_ne_nil _ h
  obtain ⟨seg, hseg⟩ := (SortedMap.mem_keys _ k).mp (List.mem_of_mem_filter hk)
  exact ⟨(k, seg), hseg, hk⟩

theorem error_ackReceived (s : TCPSender) (ackno : WrappingInt32) (windowSize : UInt16) :
    (s.ackReceived ackno windowSize).stream.error = s.stream.error := by
  rcases ackReceived_cases s ackno windowSize with
    ⟨-, heq⟩ | ⟨-, -, heq⟩ | ⟨-, -, heq⟩
  · rw [heq]
  · rw [heq]
    rfl
  · rw [heq, (stream_fillWindow _).2]
    rfl

theorem next_le_fillWindow (s : TCPSender) :
    s.nextSeqnoAbsolute ≤ s.fillWindow.nextSeqnoAbsolute := by
  obtain ⟨new, hnew⟩ := transmits_fillWindow s
  rw [hnew.next_eq]
  exact Nat.le_add_right _ _

theorem next_le_ackReceived (s : TCPSender) (ackno : WrappingInt32) (windowSize : UInt16) :
    s.nextSeqnoAbsolute ≤ (s.ackReceived ackno windowSize).nextSeqnoAbsolute := by
  rcases ackReceived_cases s ackno windowSize with
    ⟨-, heq⟩ | ⟨-, -, heq⟩ | ⟨-, -, heq⟩
  · rw [heq]
  · rw [heq]
    exact le_rfl
  · rw [heq]
    exact next_le_fillWindow ((s.popAcked ackno windowSize).restart _ windowSize)

theorem KeysLe.fillWindow (h : KeysLe s) : KeysLe s.fillWindow := by
  obtain ⟨new, hnew⟩ := transmits_fillWindow s
  exact hnew.keysLe h

theorem KeysLe.popAcked (h : KeysLe s) (ackno : WrappingInt32) (windowSize : UInt16) :
    KeysLe (s.popAcked ackno windowSize) :=
  fun e he => h e (mem_of_popAcked he)

theorem KeysLe.ackReceived (h : KeysLe s) (ackno : WrappingInt32) (windowSize : UInt16) :
    KeysLe (s.ackReceived ackno windowSize) := by
  rcases ackReceived_cases s ackno windowSize with
    ⟨-, heq⟩ | ⟨-, -, heq⟩ | ⟨-, -, heq⟩
  · rw [heq]
    exact h
  · rw [heq]
    exact h.popAcked ackno windowSize
  · rw [heq]
    exact KeysLe.fillWindow (s := (s.popAcked ackno windowSize).restart _ windowSize)
      (h.popAcked ackno windowSize)

/-- What was stored before stays, unless its key is erased. -/
theorem mem_ackReceived_iff (windowSize : UInt16) (h : KeysLe s) (hn : 0 ≤ s.nBytes ackno)
    {e : ℕ × TCPSegment} (he : e ∈ s.segmentsCache) :
    e ∈ (s.ackReceived ackno windowSize).segmentsCache ↔ e.1 ∉ s.acknosPop ackno := by
  have hpopped := mem_popAcked_segmentsCache s ackno windowSize e
  rcases ackReceived_cases s ackno windowSize with
    ⟨hneg, -⟩ | ⟨-, -, heq⟩ | ⟨-, -, heq⟩
  · omega
  · rw [heq, hpopped, and_iff_right he]
  · obtain ⟨new, hnew⟩ := transmits_fillWindow
      ((s.popAcked ackno windowSize).restart (s.nBytes ackno) windowSize)
    have hle := h e he
    rw [heq, hnew.mem_cache (h.popAcked ackno windowSize)]
    change e ∈ (s.popAcked ackno windowSize).segmentsCache ∨
      e ∈ Tiling.ends TCPSegment.lengthInSequenceSpace s.nextSeqnoAbsolute new ↔ _
    rw [hpopped, and_iff_right he]
    constructor
    · rintro (hkeep | hends)
      · exact hkeep
      · have hkey := hnew.bounds hends
        change s.nextSeqnoAbsolute + _ ≤ e.1 ∧ _ at hkey
        omega
    · exact Or.inl

/-- A tick changes the timer and the backoff, and sends segments from the store
only. -/
theorem tick_eq (s : TCPSender) (ms : ℕ) : ∃ out time timeout retx,
    s.tick ms = { s with
      segmentsOut := s.segmentsOut ++ out
      time := time
      initialRetransmissionTimeout := timeout
      retxTimes := retx } ∧
    ∀ seg ∈ out, ∃ k, (k, seg) ∈ s.segmentsCache := by
  rw [tick]
  cases hentries : s.segmentsCache.entries with
  | nil =>
      refine ⟨[], s.time, s.initialRetransmissionTimeout, s.retxTimes, ?_, by simp⟩
      rw [List.append_nil]
  | cons oldest rest =>
      simp only
      split
      · refine ⟨[oldest.2], _, _, _, rfl, ?_⟩
        intro seg hseg
        rw [List.mem_singleton.mp hseg]
        refine ⟨oldest.1, ?_⟩
        rw [SortedMap.mem_def, hentries]
        exact List.mem_cons_self
      · exact ⟨[], sizeT (s.time + ms), s.initialRetransmissionTimeout, s.retxTimes,
          by rw [List.append_nil], by simp⟩

end

end TCPSender

end NetworkLabs
