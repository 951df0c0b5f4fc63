import NetworkLabs.Library.Transition
import NetworkLabs.Sponge.TCPConnection.Steps
import NetworkLabs.Sponge.TCPSender.Steps

/-!
# Acknowledgments without the flag

Most branches of `segment_received` hand the `ackno` field to the sender without
a look at the ACK flag. A segment acknowledges nothing exactly when its branch
does not, or when the sender finds no stored segment at or in front of the
number. Which one it is depends on the initial number: the `ackno` of a segment
without the flag is `0`, and `0` lies below small initial numbers.
-/

namespace NetworkLabs

namespace TCPSender

/-- The number is not beyond the next one, and a stored segment ends at or in
front of its position. -/
def TakesAckno (s : TCPSender) (ackno : WrappingInt32) : Prop :=
  0 ≤ (s.nextSeqno.sub ackno).toInt ∧
    ∃ k ∈ s.segmentsCache.keys, k ≤ unwrap ackno s.isn k

instance : DecidableRel TakesAckno := fun s _ =>
  inferInstanceAs (Decidable (_ ∧ ∃ k ∈ s.segmentsCache.keys, _))

/-- The entries of the store of `t` that `s` did not have. -/
def newlyStored (s t : TCPSender) : List (ℕ × TCPSegment) :=
  t.segmentsCache.entries.filter fun e => e ∉ s.segmentsCache.entries

/-- From `s` to `t` no stored segment is lost, the bytes in flight grow by what
is newly stored, and the timer and the backoff are left alone. -/
structure AcknowledgesNothing (s t : TCPSender) : Prop where
  stored : ∀ e ∈ s.segmentsCache, e ∈ t.segmentsCache
  flight : t.bytesInFlight =
    s.bytesInFlight + ((newlyStored s t).map fun e => e.2.lengthInSequenceSpace).sum
  time_eq : t.time = s.time
  timeout_eq : t.initialRetransmissionTimeout = s.initialRetransmissionTimeout
  retx_eq : t.consecutiveRetransmissions = s.consecutiveRetransmissions

/-- The store, the counters and the timer of the two senders agree. -/
structure Quiet (s t : TCPSender) : Prop where
  cache_eq : t.segmentsCache = s.segmentsCache
  next_eq : t.nextSeqnoAbsolute = s.nextSeqnoAbsolute
  flight_eq : t.bytesInFlight = s.bytesInFlight
  time_eq : t.time = s.time
  timeout_eq : t.initialRetransmissionTimeout = s.initialRetransmissionTimeout
  retx_eq : t.retxTimes = s.retxTimes

section

variable {s t u : TCPSender} {new : List TCPSegment}

theorem Quiet.refl (s : TCPSender) : Quiet s s := ⟨rfl, rfl, rfl, rfl, rfl, rfl⟩

theorem Quiet.trans (h : Quiet s t) (h' : Quiet t u) : Quiet s u where
  cache_eq := h'.cache_eq.trans h.cache_eq
  next_eq := h'.next_eq.trans h.next_eq
  flight_eq := h'.flight_eq.trans h.flight_eq
  time_eq := h'.time_eq.trans h.time_eq
  timeout_eq := h'.timeout_eq.trans h.timeout_eq
  retx_eq := h'.retx_eq.trans h.retx_eq

theorem Quiet.keysLe (h : Quiet s t) (hkeys : KeysLe s) : KeysLe t := by
  intro e he
  rw [h.cache_eq] at he
  rw [h.next_eq]
  exact hkeys e he

/-- The acknowledgment of nothing that is stored. -/
theorem quiet_ackReceived (ackno : WrappingInt32) (windowSize : UInt16)
    (h : ¬ TakesAckno s ackno) : Quiet s (s.ackReceived ackno windowSize) := by
  rcases ackReceived_cases s ackno windowSize with
    ⟨-, heq⟩ | ⟨-, hnone, heq⟩ | ⟨hn, hpop, -⟩
  · rw [heq]
    exact Quiet.refl s
  · rw [heq]
    exact ⟨popAcked_segmentsCache_of_nil hnone, rfl, rfl, rfl, rfl, rfl⟩
  · obtain ⟨k, hk⟩ := List.exists_mem_of_ne_nil _ hpop
    obtain ⟨hkey, hle⟩ := List.mem_filter.mp hk
    exact absurd ⟨hn, k, hkey, of_decide_eq_true hle⟩ h

theorem newlyStored_of_transmits (h : Transmits s t new) (hkeys : KeysLe s) :
    newlyStored s t = ends s.nextSeqnoAbsolute new := by
  have hfresh : ∀ e ∈ ends s.nextSeqnoAbsolute new, e ∉ s.segmentsCache.entries := by
    intro e he hold
    have hbounds := h.bounds he
    have hle := hkeys e hold
    omega
  rw [newlyStored, h.entries_eq hkeys, List.filter_append,
    List.filter_eq_nil_iff.mpr (by simp), List.nil_append, List.filter_eq_self]
  simpa using hfresh

theorem sum_ends (n : ℕ) (l : List TCPSegment) :
    ((ends n l).map fun e => e.2.lengthInSequenceSpace).sum = total l := by
  have hsegments : (ends n l).map Prod.snd = l := Tiling.map_snd_ends _ n l
  calc ((ends n l).map fun e => e.2.lengthInSequenceSpace).sum
      = (((ends n l).map Prod.snd).map TCPSegment.lengthInSequenceSpace).sum := by
        rw [List.map_map]
        rfl
    _ = total l := by rw [hsegments, total, Tiling.total]

theorem Transmits.acknowledgesNothing (h : Transmits s t new) (hkeys : KeysLe s) :
    AcknowledgesNothing s t where
  stored := fun e he => (h.mem_cache hkeys e).mpr (Or.inl he)
  flight := by rw [newlyStored_of_transmits h hkeys, sum_ends, h.flight_eq]
  time_eq := h.time_eq
  timeout_eq := h.timeout_eq
  retx_eq := by rw [consecutiveRetransmissions, h.retx_eq, consecutiveRetransmissions]

theorem AcknowledgesNothing.quiet_left (h : Quiet s t) (h' : AcknowledgesNothing t u) :
    AcknowledgesNothing s u where
  stored := fun e he => h'.stored e (by rwa [h.cache_eq])
  flight := by
    have hnew : newlyStored s u = newlyStored t u := by
      rw [newlyStored, newlyStored, h.cache_eq]
    rw [hnew, h'.flight, h.flight_eq]
  time_eq := h'.time_eq.trans h.time_eq
  timeout_eq := h'.timeout_eq.trans h.timeout_eq
  retx_eq := h'.retx_eq.trans (by
    rw [consecutiveRetransmissions, h.retx_eq, consecutiveRetransmissions])

theorem AcknowledgesNothing.quiet_right (h : AcknowledgesNothing s t) (h' : Quiet t u) :
    AcknowledgesNothing s u where
  stored := fun e he => by
    rw [h'.cache_eq]
    exact h.stored e he
  flight := by
    have hnew : newlyStored s u = newlyStored s t := by
      rw [newlyStored, newlyStored, h'.cache_eq]
    rw [hnew, h'.flight_eq, h.flight]
  time_eq := h'.time_eq.trans h.time_eq
  timeout_eq := h'.timeout_eq.trans h.timeout_eq
  retx_eq := by
    rw [consecutiveRetransmissions, h'.retx_eq]
    exact h.retx_eq

theorem acknowledgesNothing_refl (s : TCPSender) (h : KeysLe s) : AcknowledgesNothing s s :=
  (Transmits.refl s).acknowledgesNothing h

/-- What an answer does to the sender: an empty segment, `fill_window`, and the
queue handed over. -/
def afterAnswer (s : TCPSender) (empty fill : Bool) : TCPSender :=
  let s := if empty then s.sendEmptySegment else s
  let s := if fill then s.fillWindow else s
  { s with segmentsOut := [] }

/-- An answer adds to the store behind the next number only. -/
theorem afterAnswer_spec (h : KeysLe s) (empty fill : Bool) :
    AcknowledgesNothing s (s.afterAnswer empty fill) ∧ KeysLe (s.afterAnswer empty fill) ∧
      ∀ e ∈ (s.afterAnswer empty fill).segmentsCache,
        e.1 ≤ s.nextSeqnoAbsolute → e ∈ s.segmentsCache := by
  have ht : Quiet s (if empty then s.sendEmptySegment else s) := by
    cases empty
    · exact Quiet.refl s
    · exact ⟨rfl, rfl, rfl, rfl, rfl, rfl⟩
  rw [afterAnswer]
  cases fill
  · have hquiet : Quiet s { (if empty then s.sendEmptySegment else s) with segmentsOut := [] } :=
      ht.trans ⟨rfl, rfl, rfl, rfl, rfl, rfl⟩
    refine ⟨(acknowledgesNothing_refl s h).quiet_right hquiet, hquiet.keysLe h, ?_⟩
    intro e he _
    rw [← hquiet.cache_eq]
    exact he
  · obtain ⟨new, hnew⟩ := transmits_fillWindow (if empty then s.sendEmptySegment else s)
    have hkeys := ht.keysLe h
    refine ⟨((hnew.acknowledgesNothing hkeys).quiet_left ht).quiet_right
      ⟨rfl, rfl, rfl, rfl, rfl, rfl⟩, hnew.keysLe hkeys, ?_⟩
    intro e he hle
    rcases (hnew.mem_cache hkeys e).mp he with hold | hends
    · rw [← ht.cache_eq]
      exact hold
    · have hbounds := hnew.bounds hends
      rw [ht.next_eq] at hbounds
      omega

/-- A segment that the sender takes as acknowledged leaves the store, and does
not come back with the answer. -/
theorem not_acknowledgesNothing_of_takesAckno (h : KeysLe s) {ackno : WrappingInt32}
    (htakes : TakesAckno s ackno) (windowSize : UInt16)
    (hlater : ∀ e ∈ t.segmentsCache,
      e.1 ≤ (s.ackReceived ackno windowSize).nextSeqnoAbsolute →
        e ∈ (s.ackReceived ackno windowSize).segmentsCache) :
    ¬ AcknowledgesNothing s t := by
  obtain ⟨hn, k, hk, hle⟩ := htakes
  obtain ⟨seg, hseg⟩ := (SortedMap.mem_keys _ k).mp hk
  intro hnothing
  have hmem : k ∈ s.acknosPop ackno := List.mem_filter.mpr ⟨hk, decide_eq_true hle⟩
  have hgone := (mem_ackReceived_iff windowSize h hn hseg).not.mpr (not_not.mpr hmem)
  apply hgone
  exact hlater _ (hnothing.stored _ hseg)
    (le_trans (h _ hseg) (next_le_ackReceived s ackno windowSize))

end

end TCPSender

namespace TCPConnection

open TCPSender

section

variable {c : TCPConnection} {seg : TCPSegment}

theorem answer_sender (c : TCPConnection) (empty fill : Bool) :
    (c.answer empty fill).sender = c.sender.afterAnswer empty fill := by
  rw [answer]
  rw [sendData_sender]
  cases empty
  · cases fill
    · rfl
    · rfl
  · cases fill
    · rfl
    · rfl

theorem readAckno_sender (c : TCPConnection) (seg : TCPSegment) :
    (c.readAckno seg).sender = if c.readsAckno seg
      then c.sender.ackReceived seg.header.ackno seg.header.win else c.sender := by
  rw [readAckno]
  split_ifs
  · rfl
  · rfl

/-! ## The keys of the store -/

theorem keysLe_enter (h : KeysLe c.sender) (a : Action) : KeysLe (c.enter a).sender := by
  apply enter_induction (P := fun d => KeysLe d.sender) a h
  · exact fun _ => h
  · exact h
  · exact fun _ => h
  · intro ms
    obtain ⟨out, time, timeout, retx, heq, -⟩ := tick_eq c.sender ms
    simp only [heq]
    exact h
  · exact h

theorem keysLe_step (h : KeysLe c.sender) (a : Action) : KeysLe (c.step a).sender := by
  have henter := keysLe_enter h a
  apply step_induction (P := fun d => KeysLe d.sender) a
  · exact fun _ => henter
  · exact fun _ => KeysLe.fillWindow henter
  · exact fun seg _ _ _ _ => KeysLe.ackReceived henter seg.header.ackno seg.header.win
  · exact fun seg _ _ d hd => hd
  · exact fun d _ hd => hd
  · exact fun d hd => KeysLe.fillWindow hd
  · intro d hd
    rw [sendData_sender]
    exact hd
  · exact fun d hd => hd
  · exact fun d hd => hd

theorem keysLe_run (cfg : TCPConfig) (actions : List Action) :
    KeysLe (run cfg actions).sender :=
  Transition.foldl_invariant (fun c : TCPConnection => KeysLe c.sender)
    (fun _ a h => keysLe_step h a) (new cfg) actions
    (fun e he => absurd he (SortedMap.not_mem_empty e))

/-! ## One segment -/

theorem acknowledgesNothing_dispatch (h : KeysLe c.sender)
    (hnot : c.readsAckno seg = true → ¬ TakesAckno c.sender seg.header.ackno) :
    AcknowledgesNothing c.sender (c.dispatch seg).sender := by
  have hread : Quiet c.sender (c.readAckno seg).sender := by
    rw [readAckno_sender]
    split_ifs with hreads
    · exact quiet_ackReceived _ _ (hnot hreads)
    · exact Quiet.refl _
  rcases dispatch_cases c seg with ⟨-, heq⟩ | heq | ⟨empty, fill, -, heq⟩
  · rw [heq]
    exact acknowledgesNothing_refl _ h
  · rw [heq]
    exact (acknowledgesNothing_refl _ h).quiet_right hread
  · rw [heq, answer_sender]
    exact (afterAnswer_spec (hread.keysLe h) empty fill).1.quiet_left hread

theorem not_acknowledgesNothing_dispatch (h : KeysLe c.sender)
    (hreads : c.readsAckno seg = true) (htakes : TakesAckno c.sender seg.header.ackno) :
    ¬ AcknowledgesNothing c.sender (c.dispatch seg).sender := by
  have hread := h.ackReceived seg.header.ackno seg.header.win
  have hsender : (c.readAckno seg).sender =
      c.sender.ackReceived seg.header.ackno seg.header.win := by
    rw [readAckno_sender, if_pos hreads]
  apply not_acknowledgesNothing_of_takesAckno h htakes seg.header.win
  rcases dispatch_cases c seg with ⟨hno, -⟩ | heq | ⟨empty, fill, -, heq⟩
  · rw [hno] at hreads
    exact absurd hreads (by decide)
  · intro e he _
    rw [heq] at he
    rw [← hsender]
    exact he
  · intro e he hle
    rw [heq, answer_sender] at he
    change e ∈ ((c.readAckno seg).sender.afterAnswer empty fill).segmentsCache at he
    rw [hsender] at he
    exact (afterAnswer_spec hread empty fill).2.2 e he hle

end

/-- A segment without RST acknowledges nothing exactly when the connection is
over, or its branch does not read the acknowledgment, or the sender finds
nothing that the number acknowledges. -/
theorem segmentReceived_acknowledgesNothing_iff (cfg : TCPConfig) (actions : List Action)
    (seg : TCPSegment) (hrst : seg.header.rst = false) :
    let c := run cfg actions
    AcknowledgesNothing c.sender (c.segmentReceived seg).sender ↔
      ¬ (c.active = true ∧ c.readsAckno seg = true ∧
        TakesAckno c.sender seg.header.ackno) := by
  intro c
  have h : KeysLe c.sender := keysLe_run cfg actions
  rw [segmentReceived]
  simp only [hrst, Bool.false_eq_true, if_false]
  split_ifs with hactive
  · rw [Bool.not_eq_true'] at hactive
    rw [hactive]
    simp only [Bool.false_eq_true, false_and, not_false_eq_true, iff_true]
    exact acknowledgesNothing_refl _ h
  · rw [Bool.not_eq_true', Bool.not_eq_false] at hactive
    rw [and_iff_right hactive, not_and]
    constructor
    · intro hnothing hreads htakes
      exact not_acknowledgesNothing_dispatch
        (c := { c with timeSinceLastSegmentReceived := 0 }) h hreads htakes hnothing
    · intro hnot
      exact acknowledgesNothing_dispatch
        (c := { c with timeSinceLastSegmentReceived := 0 }) h hnot

/-- The SYN of the peer, which opens simultaneously, acknowledges nothing. -/
theorem segmentReceived_acknowledgesNothing_iff_syn :
    let cfg : TCPConfig := { recvCapacity := 4, sendCapacity := 4, isn := ⟨100⟩ }
    let syn : TCPSegment := { header := { seqno := ⟨7⟩, syn := true } }
    AcknowledgesNothing (run cfg [.connect]).sender
      ((run cfg [.connect]).segmentReceived syn).sender :=
  (segmentReceived_acknowledgesNothing_iff _ [.connect] _ rfl).mpr (by decide)

/-- The same SYN once more: its `ackno` field `0` lies below the initial number
`100`, and the SYN that was sent is taken as acknowledged. -/
theorem not_acknowledgesNothing_duplicateSyn :
    let cfg : TCPConfig := { recvCapacity := 4, sendCapacity := 4, isn := ⟨100⟩ }
    let syn : TCPSegment := { header := { seqno := ⟨7⟩, syn := true } }
    ¬ AcknowledgesNothing (run cfg [.connect, .segmentReceived syn]).sender
      ((run cfg [.connect, .segmentReceived syn]).segmentReceived syn).sender := by
  intro cfg syn h
  exact absurd h.flight (by decide)

end TCPConnection

end NetworkLabs
