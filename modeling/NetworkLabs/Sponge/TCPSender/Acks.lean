import NetworkLabs.Library.Transition
import NetworkLabs.Sponge.TCPSender.Steps

/-!
# Acknowledgments

The segments in the store end above the oldest position that is still in
flight and not above the next one to be sent, in every state a sender can
reach. For such a state the two computations of `ack_received`, the signed
distance from the next number and the `unwrap` around every key, can be compared:
both find the position nearest to the next one that carries the acknowledged
number.

They part ways when that position is negative, that is when the number lies
below the initial one. `unwrap` then moves up by a whole turn, behind every
key, and all segments are erased. For every other number the store loses what
was acknowledged and nothing else.
-/

namespace NetworkLabs

namespace TCPSender

/-- Every stored segment carries the numbers below its key, and the keys lie in
what is in flight. -/
structure Outstanding (s : TCPSender) : Prop where
  key_gt : ∀ e ∈ s.segmentsCache, (s.nextSeqnoAbsolute : ℤ) - s.bytesInFlight < e.1
  key_le : ∀ e ∈ s.segmentsCache, e.1 ≤ s.nextSeqnoAbsolute
  flight_lt : s.bytesInFlight < 2 ^ 31
  flight_zero : s.nextSeqnoAbsolute = 0 → s.bytesInFlight = 0
  pos : ∀ e ∈ s.segmentsCache, 0 < e.2.lengthInSequenceSpace
  length_le : ∀ e ∈ s.segmentsCache, e.2.lengthInSequenceSpace ≤ e.1
  seqno_eq : ∀ e ∈ s.segmentsCache,
    e.2.header.seqno = wrap (e.1 - e.2.lengthInSequenceSpace) s.isn

theorem outstanding_new (capacity : ℕ) (retxTimeout : UInt16) (isn : WrappingInt32) :
    Outstanding (new capacity retxTimeout isn) where
  key_gt := by simp [new]
  key_le := by simp [new]
  flight_lt := by simp [new]
  flight_zero := fun _ => rfl
  pos := by simp [new]
  length_le := by simp [new]
  seqno_eq := by simp [new]

section

variable {s t : TCPSender} {new : List TCPSegment} {ackno : WrappingInt32}
  {windowSize : UInt16}

theorem Outstanding.transmits (h : Outstanding s) (ht : Transmits s t new)
    (hflight : t.bytesInFlight < 2 ^ 31) : Outstanding t := by
  have hnext := ht.next_eq
  have hcount := ht.flight_eq
  refine ⟨?_, ht.keysLe h.key_le, hflight, ?_, ?_, ?_, ht.forall_seqno_eq h.key_le h.seqno_eq⟩
  · refine ht.forall_mem_cache h.key_le ?_ ?_
    · intro e he
      have hkey := h.key_gt e he
      omega
    · intro e he
      have hkey := ht.bounds he
      omega
  · intro h0
    have hold := h.flight_zero (by omega)
    omega
  · exact ht.forall_mem_cache h.key_le h.pos fun _ he => (ht.bounds he).2.2
  · refine ht.forall_mem_cache h.key_le h.length_le ?_
    intro e he
    have hkey := ht.bounds he
    omega

theorem Outstanding.fillWindow (h : Outstanding s) : Outstanding s.fillWindow := by
  obtain ⟨new, hnew⟩ := transmits_fillWindow s
  exact h.transmits hnew (flight_fillWindow_lt s h.flight_lt h.flight_zero)

/-! ## The two computations -/

/-- A position that is not negative has the number from which it was found. -/
theorem eq_wrap_of_nBytes_le (s : TCPSender) (ackno : WrappingInt32)
    (hle : s.nBytes ackno ≤ s.nextSeqnoAbsolute) :
    ackno = wrap (s.nextSeqnoAbsolute - s.nBytes ackno).toNat s.isn := by
  obtain ⟨a, -, rfl⟩ := exists_eq_wrap ackno s.isn
  apply wrap_congr
  have hn : s.nBytes (wrap a s.isn) = Int.bmod (s.nextSeqnoAbsolute - a) (2 ^ 32) :=
    toInt_sub_wrap _ _ _
  have hmod : Int.bmod (s.nextSeqnoAbsolute - a) (2 ^ 32) % (2 ^ 32 : ℕ) =
      (s.nextSeqnoAbsolute - a) % (2 ^ 32 : ℕ) := Int.bmod_emod
  rw [← hn] at hmod
  omega

/-- The erased keys: all of them when the acknowledged position is negative, and
those not above it otherwise. -/
theorem mem_acknosPop_iff (h : Outstanding s) (hnext : s.nextSeqnoAbsolute < 2 ^ 63)
    (hn : 0 ≤ s.nBytes ackno) {e : ℕ × TCPSegment} (he : e ∈ s.segmentsCache) :
    e.1 ∈ s.acknosPop ackno ↔ (s.nextSeqnoAbsolute : ℤ) < s.nBytes ackno ∨
      (e.1 : ℤ) ≤ s.nextSeqnoAbsolute - s.nBytes ackno := by
  have hgt := h.key_gt e he
  have hle := h.key_le e he
  have hflight := h.flight_lt
  have hmax := nBytes_lt s ackno
  have hoffset : (ackno.sub (wrap e.1 s.isn)).toInt =
      (s.nextSeqnoAbsolute - s.nBytes ackno : ℤ) - e.1 := by
    rw [toInt_sub_eq_bmod ackno s.isn s.nextSeqnoAbsolute e.1]
    exact bmod_eq_self _ (by unfold nBytes nextSeqno at *; omega)
      (by unfold nBytes nextSeqno at *; omega)
  have hunwrap := unwrap_eq_of_offset ackno s.isn e.1 _ hoffset (by omega) (by omega)
  have hkey : e.1 ∈ s.segmentsCache.keys := (SortedMap.mem_keys _ _).mpr ⟨e.2, he⟩
  rw [acknosPop, List.mem_filter, decide_eq_true_eq, and_iff_right hkey]
  split_ifs at hunwrap with hneg
  · constructor
    · exact fun _ => Or.inl (by omega)
    · exact fun _ => by omega
  · constructor
    · exact fun hpop => Or.inr (by omega)
    · rintro (hlow | hpop)
      · omega
      · omega

/-! ## One acknowledgment -/

theorem Outstanding.popAcked (h : Outstanding s) (ackno : WrappingInt32)
    (windowSize : UInt16) :
    Outstanding (s.popAcked ackno windowSize) where
  key_gt := fun e he => h.key_gt e (mem_of_popAcked he)
  key_le := fun e he => h.key_le e (mem_of_popAcked he)
  flight_lt := h.flight_lt
  flight_zero := h.flight_zero
  pos := fun e he => h.pos e (mem_of_popAcked he)
  length_le := fun e he => h.length_le e (mem_of_popAcked he)
  seqno_eq := fun e he => h.seqno_eq e (mem_of_popAcked he)

/-- The count of what is in flight is set to the distance of the acknowledged
position, and every key that is left lies above that position. -/
theorem Outstanding.restart (h : Outstanding s) (hnext : s.nextSeqnoAbsolute < 2 ^ 63)
    (hn : 0 ≤ s.nBytes ackno) (hpop : s.acknosPop ackno ≠ []) :
    Outstanding ((s.popAcked ackno windowSize).restart (s.nBytes ackno) windowSize) where
  key_gt := by
    intro e he
    obtain ⟨hmem, hkey⟩ := (mem_popAcked_segmentsCache s ackno windowSize e).mp he
    rw [mem_acknosPop_iff h hnext hn hmem] at hkey
    change (s.nextSeqnoAbsolute : ℤ) - (s.nBytes ackno).toNat < e.1
    omega
  key_le := (h.popAcked ackno windowSize).key_le
  flight_lt := by
    have hmax := nBytes_lt s ackno
    change (s.nBytes ackno).toNat < 2 ^ 31
    omega
  flight_zero := by
    intro h0
    obtain ⟨e, he, -⟩ := exists_mem_of_acknosPop_ne_nil hpop
    have hle := h.key_le e he
    have hlen := h.length_le e he
    have hpos := h.pos e he
    change s.nextSeqnoAbsolute = 0 at h0
    omega
  pos := (h.popAcked ackno windowSize).pos
  length_le := (h.popAcked ackno windowSize).length_le
  seqno_eq := (h.popAcked ackno windowSize).seqno_eq

theorem Outstanding.ackReceived (h : Outstanding s) (hnext : s.nextSeqnoAbsolute < 2 ^ 63) :
    Outstanding (s.ackReceived ackno windowSize) := by
  rcases ackReceived_cases s ackno windowSize with
    ⟨-, heq⟩ | ⟨-, -, heq⟩ | ⟨hn, hpop, heq⟩
  · rw [heq]
    exact h
  · rw [heq]
    exact h.popAcked ackno windowSize
  · rw [heq]
    exact (h.restart hnext hn hpop).fillWindow

end

/-! ## Runs -/

section

variable {s : TCPSender} {n : Session}

/-- The invariant looks at the store and the two counters only. -/
theorem Outstanding.tick (h : Outstanding s) (ms : ℕ) : Outstanding (s.tick ms) := by
  obtain ⟨out, time, timeout, retx, heq, -⟩ := tick_eq s ms
  rw [heq]
  exact { h with }

/-- No call takes numbers back. -/
theorem next_le_step (n : Session) (a : Action) :
    n.sender.nextSeqnoAbsolute ≤ (n.step a).sender.nextSeqnoAbsolute := by
  cases a with
  | write data => exact le_rfl
  | endInput => exact le_rfl
  | fillWindow => exact next_le_fillWindow n.sender
  | ackReceived ackno windowSize => exact next_le_ackReceived n.sender ackno windowSize
  | tick ms =>
      obtain ⟨out, time, timeout, retx, heq, -⟩ := tick_eq n.sender ms
      change _ ≤ (n.sender.tick ms).nextSeqnoAbsolute
      rw [heq]
  | sendEmptySegment => exact le_rfl

theorem Outstanding.step (h : Outstanding n.sender) (a : Action)
    (hnext : n.sender.nextSeqnoAbsolute < 2 ^ 63) : Outstanding (n.step a).sender := by
  cases a with
  | write data => exact { h with }
  | endInput => exact { h with }
  | fillWindow => exact h.fillWindow
  | ackReceived ackno windowSize => exact h.ackReceived hnext
  | tick ms => exact h.tick ms
  | sendEmptySegment => exact { h with }

theorem outstanding_run (capacity : ℕ) (retxTimeout : UInt16) (isn : WrappingInt32)
    (actions : List Action)
    (hnext : (Session.run capacity retxTimeout isn actions).sender.nextSeqnoAbsolute < 2 ^ 63) :
    Outstanding (Session.run capacity retxTimeout isn actions).sender := by
  induction actions using List.reverseRecOn with
  | nil => exact outstanding_new capacity retxTimeout isn
  | append_singleton actions a ih =>
      rw [Session.run, List.foldl_concat] at hnext ⊢
      have hle := next_le_step (Session.run capacity retxTimeout isn actions) a
      have hold := lt_of_le_of_lt hle hnext
      exact (ih hold).step a hold

end

/-! ## What an acknowledgment forgets -/

/-- An acknowledgment of something in flight removes the segments whose last
number lies below it; any other one leaves the store, the count of bytes in
flight, the timer and the backoff alone. -/
structure ForgetsAcked (s : TCPSender) (ackno : WrappingInt32) (windowSize : UInt16) :
    Prop where
  removed : ∀ A : ℕ, (s.nextSeqnoAbsolute : ℤ) - s.bytesInFlight < A →
    A ≤ s.nextSeqnoAbsolute → ackno = wrap A s.isn → ∀ e ∈ s.segmentsCache,
      (e ∉ (s.ackReceived ackno windowSize).segmentsCache ↔ e.1 - 1 < A)
  kept : (∀ A : ℕ, (s.nextSeqnoAbsolute : ℤ) - s.bytesInFlight < A →
      A ≤ s.nextSeqnoAbsolute → ackno ≠ wrap A s.isn) →
    (s.ackReceived ackno windowSize).segmentsCache = s.segmentsCache ∧
    (s.ackReceived ackno windowSize).bytesInFlight = s.bytesInFlight ∧
    (s.ackReceived ackno windowSize).time = s.time ∧
    (s.ackReceived ackno windowSize).initialRetransmissionTimeout =
      s.initialRetransmissionTimeout ∧
    (s.ackReceived ackno windowSize).consecutiveRetransmissions =
      s.consecutiveRetransmissions

/-- The number lies beyond the next one, or nothing is stored, or the position
of the number is not below the initial one. -/
def NotBelowIsn (s : TCPSender) (ackno : WrappingInt32) : Prop :=
  (s.nextSeqno.sub ackno).toInt < 0 ∨ s.segmentsCache.entries = [] ∨
    (s.nextSeqno.sub ackno).toInt ≤ s.nextSeqnoAbsolute

section

variable {s : TCPSender} {ackno : WrappingInt32} {windowSize : UInt16}

theorem kept_of_acknosPop_eq_nil (h : s.acknosPop ackno = []) :
    (s.ackReceived ackno windowSize).segmentsCache = s.segmentsCache ∧
    (s.ackReceived ackno windowSize).bytesInFlight = s.bytesInFlight ∧
    (s.ackReceived ackno windowSize).time = s.time ∧
    (s.ackReceived ackno windowSize).initialRetransmissionTimeout =
      s.initialRetransmissionTimeout ∧
    (s.ackReceived ackno windowSize).consecutiveRetransmissions =
      s.consecutiveRetransmissions := by
  rcases ackReceived_cases s ackno windowSize with
    ⟨-, heq⟩ | ⟨-, -, heq⟩ | ⟨-, hpop, -⟩
  · rw [heq]
    exact ⟨rfl, rfl, rfl, rfl, rfl⟩
  · rw [heq]
    exact ⟨popAcked_segmentsCache_of_nil h, rfl, rfl, rfl, rfl⟩
  · exact absurd h hpop

theorem forgetsAcked_of_notBelowIsn (h : Outstanding s) (hnext : s.nextSeqnoAbsolute < 2 ^ 63)
    (hbelow : NotBelowIsn s ackno) : ForgetsAcked s ackno windowSize where
  removed := by
    intro A hlow hle hA e he
    have hflight := h.flight_lt
    have hlen := h.length_le e he
    have hpos := h.pos e he
    subst hA
    have hn := nBytes_wrap A hle (by omega)
    rw [mem_ackReceived_iff windowSize h.key_le (by omega) he, not_not,
      mem_acknosPop_iff h hnext (by omega) he, hn]
    omega
  kept := by
    intro hnone
    by_cases hneg : s.nBytes ackno < 0
    · have heq : s.ackReceived ackno windowSize = s := if_pos hneg
      rw [heq]
      exact ⟨rfl, rfl, rfl, rfl, rfl⟩
    · apply kept_of_acknosPop_eq_nil
      by_contra hpop
      obtain ⟨e, he, hkey⟩ := exists_mem_of_acknosPop_ne_nil hpop
      rcases hbelow with hlt | hempty | hle
      · exact hneg hlt
      · rw [SortedMap.mem_def, hempty] at he
        exact absurd he List.not_mem_nil
      · have hA := eq_wrap_of_nBytes_le s ackno hle
        have hgt := h.key_gt e he
        have hle' : s.nBytes ackno ≤ s.nextSeqnoAbsolute := hle
        rw [mem_acknosPop_iff h hnext (not_lt.mp hneg) he] at hkey
        exact hnone _ (by omega) (by omega) hA

theorem notBelowIsn_of_forgetsAcked (h : Outstanding s) (hnext : s.nextSeqnoAbsolute < 2 ^ 63)
    (hforgets : ForgetsAcked s ackno windowSize) : NotBelowIsn s ackno := by
  by_contra hbelow
  rw [NotBelowIsn] at hbelow
  simp only [not_or, not_lt, not_le] at hbelow
  obtain ⟨hn, hstored, hlow⟩ := hbelow
  have hflight := h.flight_lt
  obtain ⟨e, he⟩ := List.exists_mem_of_ne_nil _ hstored
  have hsame := (hforgets.kept ?_).1
  · have hpop : e.1 ∈ s.acknosPop ackno :=
      (mem_acknosPop_iff h hnext hn he).mpr (Or.inl hlow)
    have hgone := mem_ackReceived_iff windowSize h.key_le hn he
    rw [hsame] at hgone
    exact (hgone.mp he) hpop
  · intro A hgt hle hA
    subst hA
    have hA := nBytes_wrap A hle (by omega)
    rw [nBytes] at hA
    omega

end

/-- An acknowledgment forgets what it acknowledges, and nothing else, exactly
when its number is not below the initial one. The last number of a stored
segment is the one in front of its key. -/
theorem ackReceived_forgetsAcked_iff (capacity : ℕ) (retxTimeout : UInt16)
    (isn : WrappingInt32) (actions : List Action) (ackno : WrappingInt32)
    (windowSize : UInt16) :
    let s := (Session.run capacity retxTimeout isn actions).sender
    s.nextSeqnoAbsolute < 2 ^ 63 →
    (∀ e ∈ s.segmentsCache, 0 < e.2.lengthInSequenceSpace ∧
      e.2.lengthInSequenceSpace ≤ e.1 ∧
      e.2.header.seqno = wrap (e.1 - e.2.lengthInSequenceSpace) s.isn) ∧
    (ForgetsAcked s ackno windowSize ↔ NotBelowIsn s ackno) := by
  intro s hnext
  have h : Outstanding s := outstanding_run capacity retxTimeout isn actions hnext
  refine ⟨?_, ?_⟩
  · exact fun e he => ⟨h.pos e he, h.length_le e he, h.seqno_eq e he⟩
  · constructor
    · exact notBelowIsn_of_forgetsAcked h hnext
    · exact forgetsAcked_of_notBelowIsn h hnext

/-- The acknowledgment of the SYN, and one that is one less than the initial
number. -/
theorem ackReceived_forgetsAcked_iff_syn :
    ForgetsAcked (Session.run 4 1000 ⟨100⟩ [.fillWindow]).sender ⟨101⟩ 1 :=
  ((ackReceived_forgetsAcked_iff 4 1000 ⟨100⟩ [.fillWindow] ⟨101⟩ 1 (by decide)).2).mpr
    (by unfold NotBelowIsn; decide)

/-- One less than the initial number erases the unacknowledged SYN. -/
theorem not_forgetsAcked_belowIsn :
    ¬ ForgetsAcked (Session.run 4 1000 ⟨100⟩ [.fillWindow]).sender ⟨99⟩ 1 := by
  intro h
  have hsame := (h.kept ?_).2.1
  · exact absurd hsame (by decide)
  · intro A hgt hle
    have hA : A = 1 := by
      have hnext : (Session.run 4 1000 ⟨100⟩ [.fillWindow]).sender.nextSeqnoAbsolute = 1 := by
        decide
      have hflight : (Session.run 4 1000 ⟨100⟩ [.fillWindow]).sender.bytesInFlight = 1 := by
        decide
      rw [hnext, hflight] at hgt
      rw [hnext] at hle
      omega
    subst hA
    decide

end TCPSender

end NetworkLabs
