import NetworkLabs.Library.Transition
import NetworkLabs.Sponge.TCPSender.Steps

/-!
# Counting what is in flight

The segments in the store are laid end to end below the next number to be sent,
and `bytes_in_flight` is what they occupy. Transmissions keep this up. An
acknowledgment sets the count to the distance of its number once it has erased a
segment, while the store keeps every segment whole that is acknowledged in part.
The two agree when the number is the end of the last segment that was erased.
-/

namespace NetworkLabs

namespace TCPSender

/-- The stored segments, in the order of their keys. -/
def stored (s : TCPSender) : List TCPSegment := s.segmentsCache.entries.map Prod.snd

/-- The count of what is in flight is that of the stored segments, and these lie
end to end up to the next number to be sent. -/
structure Counted (s : TCPSender) : Prop where
  flight_eq : s.bytesInFlight = total s.stored
  flight_le : s.bytesInFlight ≤ s.nextSeqnoAbsolute
  entries_eq : s.segmentsCache.entries = ends (s.nextSeqnoAbsolute - s.bytesInFlight) s.stored
  seqno_eq : ∀ e ∈ s.segmentsCache,
    e.2.header.seqno = wrap (e.1 - e.2.lengthInSequenceSpace) s.isn

/-- Every acknowledgment carries the number of a position up to the next one. -/
def Action.AcksSent (s : Session) : Action → Prop
  | .ackReceived ackno _ =>
      ∃ A, A ≤ s.sender.nextSeqnoAbsolute ∧ ackno = wrap A s.sender.isn
  | _ => True

/-- The number is refused, or acknowledges no stored segment, or is the end of the
last segment that it acknowledges. -/
def EndsSegment (s : TCPSender) (ackno : WrappingInt32) : Prop :=
  (s.nextSeqno.sub ackno).toInt < 0 ∨
  (∀ e ∈ s.segmentsCache, unwrap ackno s.isn e.1 < e.1) ∨
  ∃ e ∈ s.segmentsCache, (e.1 : ℤ) = s.nextSeqnoAbsolute - (s.nextSeqno.sub ackno).toInt ∧
    ∀ f ∈ s.segmentsCache, f.1 ≤ unwrap ackno s.isn f.1 ↔ f.1 ≤ e.1

def Action.EndsSegment (s : Session) : Action → Prop
  | .ackReceived ackno _ => s.sender.EndsSegment ackno
  | _ => True

theorem counted_new (capacity : ℕ) (retxTimeout : UInt16) (isn : WrappingInt32) :
    Counted (new capacity retxTimeout isn) where
  flight_eq := rfl
  flight_le := le_rfl
  entries_eq := rfl
  seqno_eq := fun _ he => absurd he (SortedMap.not_mem_empty _)

/-- The count is in the range of `int`, and no segment ends at the position 0. -/
structure InRange (s : TCPSender) : Prop where
  flight_lt : s.bytesInFlight < 2 ^ 31
  key_pos : ∀ e ∈ s.segmentsCache, 0 < e.1

theorem inRange_new (capacity : ℕ) (retxTimeout : UInt16) (isn : WrappingInt32) :
    InRange (new capacity retxTimeout isn) where
  flight_lt := Nat.two_pow_pos 31
  key_pos := fun _ he => absurd he (SortedMap.not_mem_empty _)

section

variable {s t : TCPSender} {new : List TCPSegment} {ackno : WrappingInt32}
  {windowSize : UInt16}

theorem Counted.keysLe (h : Counted s) : KeysLe s := by
  intro e he
  have hlength := h.flight_eq
  have hle := h.flight_le
  rw [SortedMap.mem_def, h.entries_eq] at he
  have hbounds := Tiling.bounds_of_mem_ends TCPSegment.lengthInSequenceSpace _ _ e he
  change _ ∧ e.1 ≤ _ + total s.stored at hbounds
  omega

/-! ## Transmissions -/

theorem Transmits.stored_eq (h : Transmits s t new) (hkeys : KeysLe s) :
    t.stored = s.stored ++ new := by
  rw [stored, h.entries_eq hkeys, List.map_append, Tiling.map_snd_ends]
  rfl

/-- What is transmitted is counted. -/
theorem Transmits.flight_eq_iff (h : Transmits s t new) (hkeys : KeysLe s) :
    t.bytesInFlight = total t.stored ↔ s.bytesInFlight = total s.stored := by
  rw [h.stored_eq hkeys, total_append, h.flight_eq]
  omega

theorem Counted.transmits (h : Counted s) (ht : Transmits s t new) : Counted t where
  flight_eq := (ht.flight_eq_iff h.keysLe).mpr h.flight_eq
  flight_le := by
    rw [ht.flight_eq, ht.next_eq]
    exact Nat.add_le_add_right h.flight_le _
  entries_eq := by
    have hstart : t.nextSeqnoAbsolute - t.bytesInFlight =
        s.nextSeqnoAbsolute - s.bytesInFlight := by
      rw [ht.flight_eq, ht.next_eq, Nat.add_sub_add_right]
    have hend : s.nextSeqnoAbsolute - s.bytesInFlight + total s.stored =
        s.nextSeqnoAbsolute := by
      rw [← h.flight_eq, Nat.sub_add_cancel h.flight_le]
    rw [hstart, ht.entries_eq h.keysLe, ht.stored_eq h.keysLe, ends, ends, Tiling.ends_append]
    congr 1
    · exact h.entries_eq
    · exact congrArg (fun n => Tiling.ends _ n new) hend.symm
  seqno_eq := ht.forall_seqno_eq h.keysLe h.seqno_eq

/-! ## Acknowledgments -/

/-- Every key leads `unwrap` to the same position. -/
theorem unwrap_eq_of_near (s : TCPSender) (ackno : WrappingInt32) {k : ℕ}
    (hn : 0 ≤ s.nBytes ackno) (hle : k ≤ s.nextSeqnoAbsolute)
    (hlt : s.nextSeqnoAbsolute < k + 2 ^ 31) :
    unwrap ackno s.isn k = unwrap ackno s.isn s.nextSeqnoAbsolute := by
  have hmax := nBytes_lt s ackno
  have hoffset : ∀ j : ℕ, j ≤ s.nextSeqnoAbsolute → s.nextSeqnoAbsolute < j + 2 ^ 31 →
      (j : ℤ) + (ackno.sub (wrap j s.isn)).toInt = s.nextSeqnoAbsolute - s.nBytes ackno := by
    intro j hj hj'
    rw [toInt_sub_eq_bmod ackno s.isn s.nextSeqnoAbsolute j]
    unfold nBytes nextSeqno at *
    rw [bmod_eq_self _ (by omega) (by omega)]
    omega
  rw [unwrap, unwrap]
  simp only [hoffset k hle hlt, hoffset s.nextSeqnoAbsolute le_rfl (by omega)]

/-- What an acknowledgment erases is the front of the layout, and the back of it is
left. -/
structure Erases (s : TCPSender) (ackno : WrappingInt32) (front back : List TCPSegment) :
    Prop where
  stored_eq : s.stored = front ++ back
  front_le : ∀ e ∈ ends (s.nextSeqnoAbsolute - s.bytesInFlight) front,
    e.1 ≤ unwrap ackno s.isn e.1
  back_gt : ∀ e ∈ ends (s.nextSeqnoAbsolute - s.bytesInFlight + total front) back,
    unwrap ackno s.isn e.1 < e.1

theorem Counted.exists_erases (h : Counted s) (hflight : s.bytesInFlight < 2 ^ 31)
    (hn : 0 ≤ s.nBytes ackno) : ∃ front back : List TCPSegment, Erases s ackno front back := by
  obtain ⟨front, back, hsplit, hfront, hback⟩ := Tiling.exists_split
    TCPSegment.lengthInSequenceSpace (s.nextSeqnoAbsolute - s.bytesInFlight)
    (unwrap ackno s.isn s.nextSeqnoAbsolute) s.stored
  have hentries : s.segmentsCache.entries =
      ends (s.nextSeqnoAbsolute - s.bytesInFlight) front ++
        ends (s.nextSeqnoAbsolute - s.bytesInFlight + total front) back := by
    rw [h.entries_eq, hsplit]
    exact Tiling.ends_append ..
  have hsame : ∀ e ∈ s.segmentsCache.entries,
      unwrap ackno s.isn e.1 = unwrap ackno s.isn s.nextSeqnoAbsolute := by
    intro e he
    have hle := h.keysLe e he
    rw [h.entries_eq] at he
    have hbounds := Tiling.bounds_of_mem_ends TCPSegment.lengthInSequenceSpace _ _ e he
    exact unwrap_eq_of_near s ackno hn hle (by omega)
  rw [hentries] at hsame
  refine ⟨front, back, hsplit, ?_, ?_⟩
  · intro e he
    rw [hsame e (List.mem_append_left _ he)]
    exact hfront e he
  · intro e he
    rw [hsame e (List.mem_append_right _ he)]
    exact hback e he

namespace Erases

variable {front back : List TCPSegment}

theorem total_add (he : Erases s ackno front back) (h : Counted s) :
    total front + total back = s.bytesInFlight := by
  rw [h.flight_eq, he.stored_eq, total_append]

theorem entries_eq (he : Erases s ackno front back) (h : Counted s) :
    s.segmentsCache.entries = ends (s.nextSeqnoAbsolute - s.bytesInFlight) front ++
      ends (s.nextSeqnoAbsolute - s.bytesInFlight + total front) back := by
  rw [h.entries_eq, he.stored_eq]
  exact Tiling.ends_append ..

theorem mem_iff (he : Erases s ackno front back) (h : Counted s) (e : ℕ × TCPSegment) :
    e ∈ s.segmentsCache ↔ e ∈ ends (s.nextSeqnoAbsolute - s.bytesInFlight) front ∨
      e ∈ ends (s.nextSeqnoAbsolute - s.bytesInFlight + total front) back := by
  rw [SortedMap.mem_def, he.entries_eq h, List.mem_append]

theorem entries_popAcked (he : Erases s ackno front back) (h : Counted s) :
    (s.popAcked ackno windowSize).segmentsCache.entries =
      ends (s.nextSeqnoAbsolute - s.bytesInFlight + total front) back := by
  have hpop : ∀ e ∈ s.segmentsCache,
      e.1 ∈ s.acknosPop ackno ↔ e.1 ≤ unwrap ackno s.isn e.1 := by
    intro e hmem
    have hkey : e.1 ∈ s.segmentsCache.keys := (SortedMap.mem_keys _ _).mpr ⟨e.2, hmem⟩
    rw [acknosPop, List.mem_filter, and_iff_right hkey, decide_eq_true_eq]
  change s.segmentsCache.entries.filter (fun e => e.1 ∉ s.acknosPop ackno) = _
  rw [he.entries_eq h, List.filter_append, List.filter_eq_nil_iff.mpr, List.filter_eq_self.mpr,
    List.nil_append]
  · intro e hmem
    rw [decide_eq_true_eq, hpop e ((he.mem_iff h e).mpr (Or.inr hmem))]
    exact not_le.mpr (he.back_gt e hmem)
  · intro e hmem
    rw [decide_eq_true_eq, hpop e ((he.mem_iff h e).mpr (Or.inl hmem)), not_not]
    exact he.front_le e hmem

theorem stored_popAcked (he : Erases s ackno front back) (h : Counted s) :
    (s.popAcked ackno windowSize).stored = back := by
  rw [stored, he.entries_popAcked h, Tiling.map_snd_ends]

/-- What is acknowledged ends at the end of the front. -/
theorem le_end (he : Erases s ackno front back) (h : Counted s) {f : ℕ × TCPSegment}
    (hf : f ∈ s.segmentsCache) (hkey : f.1 ≤ unwrap ackno s.isn f.1) :
    f.1 ≤ s.nextSeqnoAbsolute - s.bytesInFlight + total front := by
  rcases (he.mem_iff h f).mp hf with hf | hf
  · exact (Tiling.bounds_of_mem_ends TCPSegment.lengthInSequenceSpace _ _ f hf).2
  · exact absurd hkey (not_le.mpr (he.back_gt f hf))

theorem exists_last (he : Erases s ackno front back) (h : Counted s)
    (hpop : s.acknosPop ackno ≠ []) : ∃ last : TCPSegment,
      (s.nextSeqnoAbsolute - s.bytesInFlight + total front, last) ∈
        ends (s.nextSeqnoAbsolute - s.bytesInFlight) front := by
  apply Tiling.exists_last TCPSegment.lengthInSequenceSpace
  rintro rfl
  obtain ⟨e, hmem, hkey⟩ := exists_mem_of_acknosPop_ne_nil hpop
  have hle : e.1 ≤ unwrap ackno s.isn e.1 := of_decide_eq_true (List.mem_filter.mp hkey).2
  rcases (he.mem_iff h e).mp hmem with hmem | hmem
  · exact absurd hmem List.not_mem_nil
  · exact absurd hle (not_le.mpr (he.back_gt e hmem))

/-- A piece up to the end of the last erased one is erased: what lies behind has a
position of its own. -/
theorem le_unwrap_of_le (he : Erases s ackno front back) (h : Counted s)
    (hflight : s.bytesInFlight < 2 ^ 31) (hn : 0 ≤ s.nBytes ackno)
    (hpop : s.acknosPop ackno ≠ []) {f : ℕ × TCPSegment} (hf : f ∈ s.segmentsCache)
    (hkey : f.1 ≤ s.nextSeqnoAbsolute - s.bytesInFlight + total front) :
    f.1 ≤ unwrap ackno s.isn f.1 := by
  obtain ⟨last, hlast⟩ := he.exists_last h hpop
  have htotal := he.total_add h
  have hle := h.flight_le
  by_contra hlt
  rcases (he.mem_iff h f).mp hf with hf | hf
  · exact hlt (he.front_le f hf)
  · have hsame := he.front_le _ hlast
    have hmax := he.back_gt f hf
    have hbounds := Tiling.bounds_of_mem_ends TCPSegment.lengthInSequenceSpace _ _ f hf
    change s.nextSeqnoAbsolute - s.bytesInFlight + total front + _ ≤ f.1 ∧
      f.1 ≤ s.nextSeqnoAbsolute - s.bytesInFlight + total front + total back at hbounds
    change s.nextSeqnoAbsolute - s.bytesInFlight + total front ≤ unwrap ackno s.isn
      (s.nextSeqnoAbsolute - s.bytesInFlight + total front) at hsame
    rw [unwrap_eq_of_near s ackno hn (by omega) (by omega)] at hsame
    rw [unwrap_eq_of_near s ackno hn (k := f.1) (by omega) (by omega)] at hmax
    omega

theorem endsSegment_of_eq (he : Erases s ackno front back) (h : Counted s)
    (hflight : s.bytesInFlight < 2 ^ 31) (hn : 0 ≤ s.nBytes ackno)
    (hpop : s.acknosPop ackno ≠ []) (heq : (s.nBytes ackno).toNat = total back) :
    EndsSegment s ackno := by
  obtain ⟨last, hlast⟩ := he.exists_last h hpop
  have htotal := he.total_add h
  have hle := h.flight_le
  refine Or.inr (Or.inr ⟨_, (he.mem_iff h _).mpr (Or.inl hlast), ?_, ?_⟩)
  · change ((s.nextSeqnoAbsolute - s.bytesInFlight + total front : ℕ) : ℤ) =
      s.nextSeqnoAbsolute - s.nBytes ackno
    omega
  · intro f hf
    exact ⟨he.le_end h hf, he.le_unwrap_of_le h hflight hn hpop hf⟩

theorem eq_of_endsSegment (he : Erases s ackno front back) (h : Counted s)
    (hn : 0 ≤ s.nBytes ackno) (hpop : s.acknosPop ackno ≠ []) (hends : EndsSegment s ackno) :
    (s.nBytes ackno).toNat = total back := by
  obtain ⟨last, hlast⟩ := he.exists_last h hpop
  have htotal := he.total_add h
  have hle := h.flight_le
  have hmem := (he.mem_iff h _).mpr (Or.inl hlast)
  rcases hends with hneg | hnone | ⟨e, hmem', heq, hkeys⟩
  · exact absurd hn (not_le.mpr hneg)
  · exact absurd (he.front_le _ hlast) (not_le.mpr (hnone _ hmem))
  · have hupper := he.le_end h hmem' ((hkeys e hmem').mpr le_rfl)
    have hlower := (hkeys _ hmem).mp (he.front_le _ hlast)
    change s.nextSeqnoAbsolute - s.bytesInFlight + total front ≤ e.1 at hlower
    change (e.1 : ℤ) = s.nextSeqnoAbsolute - s.nBytes ackno at heq
    omega

end Erases

/-- The distance of the number is what the segments behind the erased ones occupy
exactly if the number is the end of the last erased one. -/
theorem Counted.nBytes_eq_iff (h : Counted s) (hflight : s.bytesInFlight < 2 ^ 31)
    (hn : 0 ≤ s.nBytes ackno) (hpop : s.acknosPop ackno ≠ []) (windowSize : UInt16) :
    (s.nBytes ackno).toNat = total (s.popAcked ackno windowSize).stored ↔
      EndsSegment s ackno := by
  obtain ⟨front, back, he⟩ := h.exists_erases hflight hn
  rw [he.stored_popAcked h]
  exact ⟨he.endsSegment_of_eq h hflight hn hpop, he.eq_of_endsSegment h hn hpop⟩

theorem Counted.restart (h : Counted s) (hflight : s.bytesInFlight < 2 ^ 31)
    (hn : 0 ≤ s.nBytes ackno)
    (heq : (s.nBytes ackno).toNat = total (s.popAcked ackno windowSize).stored) :
    Counted ((s.popAcked ackno windowSize).restart (s.nBytes ackno) windowSize) := by
  obtain ⟨front, back, he⟩ := h.exists_erases hflight hn
  have hstored : (s.popAcked ackno windowSize).stored = back := he.stored_popAcked h
  have htotal := he.total_add h
  have hle := h.flight_le
  rw [hstored] at heq
  exact {
    flight_eq := heq.trans (congrArg total hstored.symm)
    flight_le := by
      change (s.nBytes ackno).toNat ≤ s.nextSeqnoAbsolute
      omega
    entries_eq := by
      change (s.popAcked ackno windowSize).segmentsCache.entries =
        ends (s.nextSeqnoAbsolute - (s.nBytes ackno).toNat) (s.popAcked ackno windowSize).stored
      rw [he.entries_popAcked h, hstored]
      congr 1
      omega
    seqno_eq := fun e he => h.seqno_eq e (@mem_of_popAcked _ _ windowSize e he) }

theorem Counted.popAcked (h : Counted s) (hnone : s.acknosPop ackno = []) :
    Counted (s.popAcked ackno windowSize) := by
  have hcache : (s.popAcked ackno windowSize).segmentsCache = s.segmentsCache :=
    popAcked_segmentsCache_of_nil hnone
  have hstored : (s.popAcked ackno windowSize).stored = s.stored := by
    rw [stored, hcache, stored]
  exact {
    flight_eq := h.flight_eq.trans (congrArg total hstored.symm)
    flight_le := h.flight_le
    entries_eq := by
      rw [hcache, hstored]
      exact h.entries_eq
    seqno_eq := fun e he => h.seqno_eq e (mem_of_popAcked he) }

/-- An acknowledgment keeps the count exactly if its number ends a segment. -/
theorem Counted.ackReceived_iff (h : Counted s) (hflight : s.bytesInFlight < 2 ^ 31) :
    Counted (s.ackReceived ackno windowSize) ↔ EndsSegment s ackno := by
  rcases ackReceived_cases s ackno windowSize with
    ⟨hneg, heq⟩ | ⟨hn, hnone, heq⟩ | ⟨hn, hpop, heq⟩
  · rw [heq]
    exact iff_of_true h (Or.inl hneg)
  · rw [heq]
    refine iff_of_true (h.popAcked hnone) (Or.inr (Or.inl ?_))
    intro e he
    have hkey : e.1 ∈ s.segmentsCache.keys := (SortedMap.mem_keys _ _).mpr ⟨e.2, he⟩
    have hnot := List.filter_eq_nil_iff.mp hnone e.1 hkey
    rw [decide_eq_true_eq] at hnot
    exact not_le.mp hnot
  · obtain ⟨new, hnew⟩ := transmits_fillWindow
      ((s.popAcked ackno windowSize).restart (s.nBytes ackno) windowSize)
    rw [heq, ← h.nBytes_eq_iff hflight hn hpop windowSize]
    constructor
    · intro hcounted
      exact (hnew.flight_eq_iff (h.keysLe.popAcked ackno windowSize)).mp hcounted.flight_eq
    · exact fun hsum => (h.restart hflight hn hsum).transmits hnew

/-! ## The range of the count -/

theorem InRange.fillWindow (h : InRange s) (hkeys : KeysLe s)
    (hzero : s.nextSeqnoAbsolute = 0 → s.bytesInFlight = 0) : InRange s.fillWindow where
  flight_lt := flight_fillWindow_lt s h.flight_lt hzero
  key_pos := by
    obtain ⟨new, hnew⟩ := transmits_fillWindow s
    refine hnew.forall_mem_cache hkeys h.key_pos ?_
    intro e he
    have hbounds := hnew.bounds he
    omega

theorem InRange.ackReceived (h : InRange s) (hkeys : KeysLe s) (ackno : WrappingInt32)
    (windowSize : UInt16) : InRange (s.ackReceived ackno windowSize) := by
  rcases ackReceived_cases s ackno windowSize with
    ⟨-, heq⟩ | ⟨-, -, heq⟩ | ⟨-, hpop, heq⟩
  · rw [heq]
    exact h
  · rw [heq]
    exact {
      flight_lt := h.flight_lt
      key_pos := fun e he => h.key_pos e (mem_of_popAcked he) }
  · have hmax := nBytes_lt s ackno
    rw [heq]
    apply InRange.fillWindow
    · exact {
        flight_lt := by
          change (s.nBytes ackno).toNat < 2 ^ 31
          omega
        key_pos := fun e he => h.key_pos e (@mem_of_popAcked _ _ windowSize e he) }
    · exact hkeys.popAcked ackno windowSize
    · intro h0
      obtain ⟨e, he, -⟩ := exists_mem_of_acknosPop_ne_nil hpop
      have hle := hkeys e he
      have hpos := h.key_pos e he
      change s.nextSeqnoAbsolute = 0 at h0
      omega

end

/-! ## Runs -/

section

variable {s : Session}

theorem Counted.tick {s : TCPSender} (h : Counted s) (ms : ℕ) : Counted (s.tick ms) := by
  obtain ⟨out, time, timeout, retx, heq, -⟩ := tick_eq s ms
  rw [heq]
  exact { h with }

/-- Of all calls only an acknowledgment can spoil the count. -/
theorem Counted.step_iff (h : Counted s.sender) (hflight : s.sender.bytesInFlight < 2 ^ 31)
    (a : Action) : Counted (s.step a).sender ↔ a.EndsSegment s := by
  cases a with
  | write data => exact iff_of_true { h with } trivial
  | endInput => exact iff_of_true { h with } trivial
  | fillWindow =>
      obtain ⟨new, hnew⟩ := transmits_fillWindow s.sender
      exact iff_of_true (h.transmits hnew) trivial
  | ackReceived ackno windowSize => exact h.ackReceived_iff hflight
  | tick ms => exact iff_of_true (h.tick ms) trivial
  | sendEmptySegment => exact iff_of_true { h with } trivial

theorem InRange.step (h : InRange s.sender) (hcounted : Counted s.sender) (a : Action) :
    InRange (s.step a).sender := by
  cases a with
  | write data => exact { h with }
  | endInput => exact { h with }
  | fillWindow =>
      apply InRange.fillWindow h hcounted.keysLe
      intro h0
      have hle := hcounted.flight_le
      omega
  | ackReceived ackno windowSize => exact h.ackReceived hcounted.keysLe ackno windowSize
  | tick ms =>
      obtain ⟨out, time, timeout, retx, heq, -⟩ := tick_eq s.sender ms
      change InRange (s.sender.tick ms)
      rw [heq]
      exact { h with }
  | sendEmptySegment => exact { h with }

end

/-- The count of what is in flight is that of the stored segments all along a run,
and these lie end to end up to the next number, exactly if every number that
acknowledges a segment ends one. -/
theorem run_counted_iff (capacity : ℕ) (retxTimeout : UInt16) (isn : WrappingInt32)
    (actions : List Action) :
    (∀ k, Counted (Session.run capacity retxTimeout isn (actions.take k)).sender) ↔
      Transition.Along Session.step (fun s a => a.EndsSegment s)
        (Session.start capacity retxTimeout isn) actions :=
  Transition.forall_take_iff_along_of_invariant
    (fun s : Session => Counted s.sender ∧ InRange s.sender)
    (fun s : Session => Counted s.sender) (fun _ => True)
    (fun _ a hs _ => hs.1.step_iff hs.2.flight_lt a)
    (fun _ a hs _ hends => ⟨(hs.1.step_iff hs.2.flight_lt a).mpr hends, hs.2.step hs.1 a⟩)
    (Session.start capacity retxTimeout isn) actions (fun _ _ => trivial)
    ⟨counted_new capacity retxTimeout isn, inRange_new capacity retxTimeout isn⟩
    (counted_new capacity retxTimeout isn)

/-- Two segments with the bytes 7, and 8 and 9, are in flight. The number behind 8
erases the first segment and leaves the second, which is then counted by half. -/
theorem not_counted_partial :
    let actions : List Action := [.fillWindow, .ackReceived ⟨1⟩ 10, .write [7], .fillWindow,
      .write [8, 9], .fillWindow, .ackReceived ⟨3⟩ 10]
    Transition.Along Session.step (fun s a => a.AcksSent s) (Session.start 4 1000 ⟨0⟩) actions ∧
      ¬ Counted (Session.run 4 1000 ⟨0⟩ actions).sender := by
  intro actions
  constructor
  · exact ⟨trivial, ⟨1, by decide, rfl⟩, trivial, trivial, trivial, trivial,
      ⟨3, by decide, rfl⟩, trivial⟩
  · intro h
    exact absurd h.flight_eq (by decide)

end TCPSender

end NetworkLabs
