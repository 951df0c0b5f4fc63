import NetworkLabs.Sponge.TCPSender.Acks
import NetworkLabs.Sponge.TCPSender.Transmissions
import NetworkLabs.Sponge.TCPSender.Window

/-!
# The summary of a sender

`TCPState::state_summary` tells in a few words how far a sender has come: whether
its SYN was sent and acknowledged, and whether its FIN was. It looks at two
counters and the stream only.

The counters answer these questions because of what the calls keep up. Until the
SYN is acknowledged everything is in flight, since no number in front of the SYN
erases it; from then on the count of what is in flight is the distance to some
acknowledged number. It is zero only when everything was acknowledged, because
the segment that ends with the next number stays in the store until then.
-/

namespace NetworkLabs

/-- What a state of a sender is summarized as. -/
inductive TCPSenderStateSummary where
  | error
  | closed
  | synSent
  | synAcked
  | finSent
  | finAcked
  deriving DecidableEq

namespace TCPState

def stateSummary (sender : TCPSender) : TCPSenderStateSummary :=
  if sender.streamIn.error then .error
  else if sender.nextSeqnoAbsolute = 0 then .closed
  else if sender.nextSeqnoAbsolute = sender.bytesInFlight then .synSent
  else if sender.streamIn.eof = false then .synAcked
  else if sender.nextSeqnoAbsolute < sender.streamIn.bytesWritten + 2 then .synAcked
  else if sender.bytesInFlight ≠ 0 then .finSent
  else .finAcked

end TCPState

namespace TCPSender

/-- A session together with the largest position that was acknowledged. -/
structure AckRun where
  session : Session
  acked : ℕ

namespace AckRun

def start (capacity : ℕ) (retxTimeout : UInt16) (isn : WrappingInt32) : AckRun :=
  ⟨Session.start capacity retxTimeout isn, 0⟩

/-- The call that an event makes. -/
def action (r : AckRun) : WindowEvent → Action
  | .call a => a
  | .ack A windowSize => .ackReceived (wrap A r.session.sender.isn) windowSize

def step (r : AckRun) (e : WindowEvent) : AckRun where
  session := r.session.step (r.action e)
  acked :=
    match e with
    | .call _ => r.acked
    | .ack A _ => max r.acked A

def run (capacity : ℕ) (retxTimeout : UInt16) (isn : WrappingInt32)
    (events : List WindowEvent) : AckRun :=
  events.foldl step (start capacity retxTimeout isn)

/-- The numbers that the segments pushed so far occupy, repetitions apart. -/
def sent (r : AckRun) : ℕ := total (firstTransmissions r.session.sender.segmentsOut)

def SynSent (r : AckRun) : Prop := ∃ seg ∈ r.session.sender.segmentsOut, seg.header.syn = true

/-- The SYN has the position 0. -/
def SynAcked (r : AckRun) : Prop := r.SynSent ∧ 0 < r.acked

def FinSent (r : AckRun) : Prop := ∃ seg ∈ r.session.sender.segmentsOut, seg.header.fin = true

end AckRun

/-- Nothing is written to a stream that has ended, and every acknowledgment is one of
a position up to the next one to be sent. -/
def WindowEvent.Allowed (r : AckRun) : WindowEvent → Prop
  | .call (.ackReceived _ _) => False
  | .call a => a.Open r.session
  | .ack A _ => A ≤ r.session.sender.nextSeqnoAbsolute

/-- The summary agrees with what was sent and acknowledged. -/
structure TellsTruth (r : AckRun) : Prop where
  closed_iff : TCPState.stateSummary r.session.sender = .closed ↔ ¬ r.SynSent
  synSent_iff : TCPState.stateSummary r.session.sender = .synSent ↔ r.SynSent ∧ ¬ r.SynAcked
  synAcked_iff : TCPState.stateSummary r.session.sender = .synAcked ↔
    r.SynAcked ∧ ¬ r.FinSent
  finSent_iff : TCPState.stateSummary r.session.sender = .finSent ↔
    r.SynAcked ∧ r.FinSent ∧ r.acked < r.sent
  finAcked_iff : TCPState.stateSummary r.session.sender = .finAcked ↔
    r.FinSent ∧ r.acked = r.sent

/-! ## The counters and the store -/

/-- How far a sender has come when the largest acknowledged position is `acked`. -/
structure AckedUpTo (s : TCPSender) (acked : ℕ) : Prop where
  outstanding : Outstanding s
  flight_le : s.bytesInFlight ≤ s.nextSeqnoAbsolute
  acked_le : acked ≤ s.nextSeqnoAbsolute
  next_le : s.nextSeqnoAbsolute ≤ s.bytesInFlight + acked
  key_gt : ∀ e ∈ s.segmentsCache, acked < e.1
  last : s.bytesInFlight = 0 ∨ ∃ e ∈ s.segmentsCache, e.1 = s.nextSeqnoAbsolute
  syn : acked = 0 → 0 < s.nextSeqnoAbsolute → ∃ e ∈ s.segmentsCache, e.1 = 1
  started : 0 < acked → s.bytesInFlight < s.nextSeqnoAbsolute

theorem ackedUpTo_new (capacity : ℕ) (retxTimeout : UInt16) (isn : WrappingInt32) :
    AckedUpTo (new capacity retxTimeout isn) 0 where
  outstanding := outstanding_new capacity retxTimeout isn
  flight_le := le_rfl
  acked_le := le_rfl
  next_le := le_rfl
  key_gt := fun _ he => absurd he (SortedMap.not_mem_empty _)
  last := Or.inl rfl
  syn := fun _ hpos => absurd hpos (lt_irrefl 0)
  started := fun hpos => absurd hpos (lt_irrefl 0)

section

variable {s : TCPSender} {acked A : ℕ} {windowSize : UInt16}

/-- Nothing that `fill_window` stores takes the place of the SYN. -/
theorem syn_fillWindow (h : 0 < s.nextSeqnoAbsolute → ∃ e ∈ s.segmentsCache, e.1 = 1) :
    0 < s.fillWindow.nextSeqnoAbsolute → ∃ e ∈ s.fillWindow.segmentsCache, e.1 = 1 := by
  have hkeep : ∀ (t : TCPSender) (seg : TCPSegment), 0 < t.nextSeqnoAbsolute →
      0 < seg.lengthInSequenceSpace → (∃ e ∈ t.segmentsCache, e.1 = 1) →
      ∃ e ∈ (t.transmit seg).segmentsCache, e.1 = 1 := by
    rintro t seg hnext hlen ⟨e, he, hone⟩
    exact ⟨e, (mem_transmit_segmentsCache t seg e).mpr (Or.inr ⟨he, by omega⟩), hone⟩
  apply fillWindow_induction
    (P := fun t => 0 < t.nextSeqnoAbsolute → ∃ e ∈ t.segmentsCache, e.1 = 1)
  · intro t _ h0 _
    refine ⟨_, (mem_transmit_segmentsCache t t.synSegment _).mpr (Or.inl rfl), ?_⟩
    rw [h0]
    rfl
  · intro t remsz ht hnext _ hnil _
    exact hkeep (t.afterRead remsz) _ hnext (length_dataSegment_pos _ _ _ hnil) (ht hnext)
  · exact fun t remsz ht _ => ht
  · intro t ht hnext _ _ _
    exact hkeep t t.finSegment hnext Nat.one_pos (ht hnext)
  · exact h

theorem AckedUpTo.fillWindow (h : AckedUpTo s acked) : AckedUpTo s.fillWindow acked := by
  obtain ⟨new, hnew⟩ := transmits_fillWindow s
  have hnext := hnew.next_eq
  have hflight := hnew.flight_eq
  have hmem := hnew.mem_cache h.outstanding.key_le
  have hle := h.flight_le
  have hacked := h.acked_le
  have hbase := h.next_le
  exact {
    outstanding := h.outstanding.fillWindow
    flight_le := by omega
    acked_le := by omega
    next_le := by omega
    key_gt := by
      refine hnew.forall_mem_cache h.outstanding.key_le h.key_gt ?_
      intro e he
      have hbounds := hnew.bounds he
      omega
    last := by
      by_cases hnil : new = []
      · have htotal : total new = 0 := by rw [hnil, total, Tiling.total_nil]
        rcases h.last with hzero | ⟨e, he, hkey⟩
        · exact Or.inl (by omega)
        · exact Or.inr ⟨e, (hmem e).mpr (Or.inl he), by omega⟩
      · obtain ⟨seg, hseg⟩ := Tiling.exists_last TCPSegment.lengthInSequenceSpace
          s.nextSeqnoAbsolute hnil
        exact Or.inr ⟨_, (hmem _).mpr (Or.inr hseg), hnext.symm⟩
    syn := fun hzero => syn_fillWindow (h.syn hzero)
    started := by
      intro hpos
      have hstarted := h.started hpos
      omega }

/-! ## Acknowledgments -/

/-- A number that is not refused stands for its position. -/
theorem nBytes_wrap_of_nonneg (hA : A ≤ s.nextSeqnoAbsolute)
    (hnext : s.nextSeqnoAbsolute ≤ 2 ^ 31) (hn : 0 ≤ s.nBytes (wrap A s.isn)) :
    s.nBytes (wrap A s.isn) = (s.nextSeqnoAbsolute : ℤ) - A := by
  by_cases hnear : s.nextSeqnoAbsolute < A + 2 ^ 31
  · exact nBytes_wrap A hA hnear
  · have hmax := nBytes_lt s (wrap A s.isn)
    have hfar : s.nBytes (wrap A s.isn) =
        Int.bmod (s.nextSeqnoAbsolute - A) (2 ^ 32) := toInt_sub_wrap _ _ _
    have hmod : Int.bmod (s.nextSeqnoAbsolute - A) (2 ^ 32) % (2 ^ 32 : ℕ) =
        (s.nextSeqnoAbsolute - A) % (2 ^ 32 : ℕ) := Int.bmod_emod
    omega

/-- Only the position 0 can be refused, when it is a half turn away. -/
theorem eq_zero_of_nBytes_neg (hA : A ≤ s.nextSeqnoAbsolute)
    (hnext : s.nextSeqnoAbsolute ≤ 2 ^ 31) (hn : s.nBytes (wrap A s.isn) < 0) : A = 0 := by
  by_contra hpos
  rw [nBytes_wrap A hA (by omega)] at hn
  omega

namespace AckedUpTo

/-- The segments that are erased are those that end at or in front of the
position. -/
theorem mem_acknosPop_iff (h : AckedUpTo s acked) (hA : A ≤ s.nextSeqnoAbsolute)
    (hnext : s.nextSeqnoAbsolute ≤ 2 ^ 31) (hn : 0 ≤ s.nBytes (wrap A s.isn))
    {e : ℕ × TCPSegment} (he : e ∈ s.segmentsCache) :
    e.1 ∈ s.acknosPop (wrap A s.isn) ↔ e.1 ≤ A := by
  rw [TCPSender.mem_acknosPop_iff h.outstanding (by omega) hn he,
    nBytes_wrap_of_nonneg hA hnext hn]
  omega

/-- An acknowledgment that erases nothing lies in front of every stored segment. -/
theorem popAcked (h : AckedUpTo s acked) (hA : A ≤ s.nextSeqnoAbsolute)
    (hnext : s.nextSeqnoAbsolute ≤ 2 ^ 31) (hn : 0 ≤ s.nBytes (wrap A s.isn))
    (hnone : s.acknosPop (wrap A s.isn) = []) :
    AckedUpTo (s.popAcked (wrap A s.isn) windowSize) (max acked A) := by
  have hcache : (s.popAcked (wrap A s.isn) windowSize).segmentsCache = s.segmentsCache :=
    popAcked_segmentsCache_of_nil hnone
  have hlater : ∀ e ∈ s.segmentsCache, A < e.1 := by
    intro e he
    have hnot := h.mem_acknosPop_iff hA hnext hn he
    rw [hnone] at hnot
    exact not_le.mp fun hle => absurd (hnot.mpr hle) List.not_mem_nil
  have hacked := h.acked_le
  have hbase := h.next_le
  exact {
    outstanding := h.outstanding.popAcked _ _
    flight_le := h.flight_le
    acked_le := max_le hacked hA
    next_le := by
      change s.nextSeqnoAbsolute ≤ s.bytesInFlight + max acked A
      omega
    key_gt := by
      rw [hcache]
      exact fun e he => max_lt (h.key_gt e he) (hlater e he)
    last := by
      rw [hcache]
      exact h.last
    syn := by
      intro hzero
      rw [hcache]
      exact h.syn (by omega)
    started := by
      intro hpos
      change s.bytesInFlight < s.nextSeqnoAbsolute
      by_cases hzero : acked = 0
      · obtain ⟨e, he, hone⟩ := h.syn hzero (by omega)
        have hlow := hlater e he
        omega
      · exact h.started (Nat.pos_of_ne_zero hzero) }

/-- An acknowledgment that erases a segment is the largest so far, and the count is
the distance to it. -/
theorem restart (h : AckedUpTo s acked) (hA : A ≤ s.nextSeqnoAbsolute)
    (hnext : s.nextSeqnoAbsolute ≤ 2 ^ 31) (hn : 0 ≤ s.nBytes (wrap A s.isn))
    (hpop : s.acknosPop (wrap A s.isn) ≠ []) :
    AckedUpTo ((s.popAcked (wrap A s.isn) windowSize).restart (s.nBytes (wrap A s.isn))
      windowSize) (max acked A) := by
  have hcount : (s.nBytes (wrap A s.isn)).toNat = s.nextSeqnoAbsolute - A := by
    rw [nBytes_wrap_of_nonneg hA hnext hn]
    omega
  obtain ⟨e, he, hkey⟩ := exists_mem_of_acknosPop_ne_nil hpop
  have hlow := (h.mem_acknosPop_iff hA hnext hn he).mp hkey
  have hhigh := h.key_gt e he
  have hmax : max acked A = A := by omega
  have hleft := mem_popAcked_segmentsCache s (wrap A s.isn) windowSize
  rw [hmax]
  exact {
    outstanding := h.outstanding.restart (by omega) hn hpop
    flight_le := by
      change (s.nBytes (wrap A s.isn)).toNat ≤ s.nextSeqnoAbsolute
      omega
    acked_le := hA
    next_le := by
      change s.nextSeqnoAbsolute ≤ (s.nBytes (wrap A s.isn)).toNat + A
      omega
    key_gt := by
      intro f hf
      obtain ⟨hf, hnot⟩ := (hleft f).mp hf
      rw [h.mem_acknosPop_iff hA hnext hn hf] at hnot
      exact not_le.mp hnot
    last := by
      change (s.nBytes (wrap A s.isn)).toNat = 0 ∨ _
      by_cases hall : A = s.nextSeqnoAbsolute
      · exact Or.inl (by omega)
      · rcases h.last with hzero | ⟨f, hf, hlast⟩
        · -- nothing can be erased when nothing is in flight
          have hgt := h.outstanding.key_gt e he
          omega
        · refine Or.inr ⟨f, (hleft f).mpr ⟨hf, ?_⟩, hlast⟩
          rw [h.mem_acknosPop_iff hA hnext hn hf]
          omega
    syn := by
      intro hzero
      omega
    started := by
      intro hpos
      change (s.nBytes (wrap A s.isn)).toNat < s.nextSeqnoAbsolute
      omega }

theorem ackReceived (h : AckedUpTo s acked) (hA : A ≤ s.nextSeqnoAbsolute)
    (hnext : s.nextSeqnoAbsolute ≤ 2 ^ 31) :
    AckedUpTo (s.ackReceived (wrap A s.isn) windowSize) (max acked A) := by
  rcases ackReceived_cases s (wrap A s.isn) windowSize with
    ⟨hn, heq⟩ | ⟨hn, hnone, heq⟩ | ⟨hn, hpop, heq⟩
  · rw [heq, eq_zero_of_nBytes_neg hA hnext hn, Nat.max_zero]
    exact h
  · rw [heq]
    exact h.popAcked hA hnext hn hnone
  · rw [heq]
    exact (h.restart hA hnext hn hpop).fillWindow

theorem step {n : Session} (h : AckedUpTo n.sender acked) (a : Action)
    (ha : ∀ ackno windowSize, a ≠ .ackReceived ackno windowSize) :
    AckedUpTo (n.step a).sender acked := by
  cases a with
  | write data => exact { h with outstanding := { h.outstanding with } }
  | endInput => exact { h with outstanding := { h.outstanding with } }
  | fillWindow => exact h.fillWindow
  | ackReceived ackno windowSize => exact absurd rfl (ha ackno windowSize)
  | tick ms =>
      obtain ⟨out, time, timeout, retx, heq, -⟩ := tick_eq n.sender ms
      change AckedUpTo (n.sender.tick ms) acked
      rw [heq]
      exact { h with outstanding := { h.outstanding with } }
  | sendEmptySegment => exact { h with outstanding := { h.outstanding with } }

end AckedUpTo

end

/-! ## What the log says -/

namespace Logs

variable {isn : WrappingInt32} {capacity : ℕ} {s : Session} {q : BoundedFifo UInt8}
  {first : List TCPSegment} {fin : Bool}

theorem mem_first_iff (h : Logs isn capacity s q first fin) {seg : TCPSegment}
    (hpos : 0 < seg.lengthInSequenceSpace) : seg ∈ first ↔ seg ∈ s.sender.segmentsOut := by
  rw [← h.log_eq, mem_firstTransmissions, and_iff_left hpos]

theorem syn_sent_iff (h : Logs isn capacity s q first fin) :
    (∃ seg ∈ s.sender.segmentsOut, seg.header.syn = true) ↔
      0 < s.sender.nextSeqnoAbsolute := by
  constructor
  · rintro ⟨seg, hseg, hsyn⟩
    have hpos : 0 < seg.lengthInSequenceSpace := by
      rw [TCPSegment.lengthInSequenceSpace, if_pos hsyn]
      omega
    have hmem := (h.mem_first_iff hpos).mpr hseg
    obtain ⟨k, hk⟩ := Tiling.exists_mem_ends TCPSegment.lengthInSequenceSpace 0 first seg hmem
    have hbounds : 0 + seg.lengthInSequenceSpace ≤ k ∧ k ≤ 0 + total first :=
      Tiling.bounds_of_mem_ends TCPSegment.lengthInSequenceSpace 0 first _ hk
    rw [h.sent.next_eq]
    omega
  · intro hnext
    obtain ⟨rest, hrest, -⟩ := h.sent.segmented.syn_first.resolve_left (h.sent.first_ne_nil hnext)
    refine ⟨_, (h.mem_first_iff ?_).mp (by rw [hrest]; exact List.mem_cons_self), rfl⟩
    exact Nat.one_pos

theorem fin_sent_iff (h : Logs isn capacity s q first fin) :
    (∃ seg ∈ s.sender.segmentsOut, seg.header.fin = true) ↔ fin = true := by
  have hpos : ∀ seg : TCPSegment, seg.header.fin = true → 0 < seg.lengthInSequenceSpace := by
    intro seg hseg
    rw [TCPSegment.lengthInSequenceSpace, if_pos hseg]
    omega
  constructor
  · rintro ⟨seg, hseg, hsegfin⟩
    by_contra hfin
    have hnone := h.sent.segmented.not_fin (Bool.eq_false_of_not_eq_true hfin) seg
      ((h.mem_first_iff (hpos seg hsegfin)).mpr hseg)
    rw [hnone] at hsegfin
    exact absurd hsegfin (by decide)
  · intro hfin
    obtain ⟨front, seg, hlast, hsegfin, -⟩ := h.sent.segmented.fin_last hfin
    exact ⟨seg, (h.mem_first_iff (hpos seg hsegfin)).mp (by rw [hlast]; simp), hsegfin⟩

/-- Behind the SYN, the stream is at its end and no FIN is due exactly if the FIN was
sent. -/
theorem fin_iff (h : Logs isn capacity s q first fin)
    (hnext : 0 < s.sender.nextSeqnoAbsolute) : fin = true ↔
      s.sender.stream.eof = true ∧
        s.sender.stream.bytesWritten + 2 ≤ s.sender.nextSeqnoAbsolute := by
  have hdue := h.sent.finDue_iff hnext
  rw [finDue, Bool.and_eq_true, decide_eq_true_eq, ← and_assoc, ← h.sent.refines.eof_iff] at hdue
  constructor
  · intro hfin
    have heof := h.sent.refines.eof_iff.mpr (h.sent.ended hfin)
    refine ⟨heof, ?_⟩
    by_contra hlt
    have hfalse := (hdue.mp ⟨heof, not_le.mp hlt⟩).2
    rw [hfin] at hfalse
    exact absurd hfalse (by decide)
  · rintro ⟨heof, hle⟩
    by_contra hfin
    have hlt := (hdue.mpr ⟨heof, Bool.eq_false_of_not_eq_true hfin⟩).2
    omega

end Logs

/-! ## Runs -/

/-- The log and the counters of a run without error. A stream without capacity never
accepts anything, so the numbers in use always span less than a half turn. -/
structure Known (isn : WrappingInt32) (capacity : ℕ) (r : AckRun) (q : BoundedFifo UInt8)
    (first : List TCPSegment) (fin : Bool) : Prop where
  logs : Logs isn capacity r.session q first fin
  upTo : AckedUpTo r.session.sender r.acked
  noError : r.session.sender.stream.error = false
  accepted_nil : capacity = 0 → r.session.accepted = []

section

variable {isn : WrappingInt32} {capacity : ℕ} {r : AckRun} {q : BoundedFifo UInt8}
  {first : List TCPSegment} {fin : Bool}

theorem known_start (retxTimeout : UInt16) (h : capacity < 2 ^ 31) :
    Known isn capacity (AckRun.start capacity retxTimeout isn) (BoundedFifo.empty capacity) []
      false where
  logs := logs_start retxTimeout h
  upTo := ackedUpTo_new capacity retxTimeout isn
  noError := rfl
  accepted_nil := fun _ => rfl

theorem error_step (s : Session) (a : Action) :
    (s.step a).sender.stream.error = s.sender.stream.error := by
  cases a with
  | write data => rfl
  | endInput => rfl
  | fillWindow => exact (stream_fillWindow s.sender).2
  | ackReceived ackno windowSize => exact error_ackReceived s.sender ackno windowSize
  | tick ms =>
      obtain ⟨out, time, timeout, retx, heq, -⟩ := tick_eq s.sender ms
      change (s.sender.tick ms).stream.error = _
      rw [heq]
  | sendEmptySegment => rfl

namespace Known

theorem next_le (h : Known isn capacity r q first fin)
    (hbound : r.session.accepted.length + capacity < 2 ^ 31) :
    r.session.sender.nextSeqnoAbsolute ≤ 2 ^ 31 := by
  have hnext := h.logs.sent.next_le
  rw [h.logs.written_eq] at hnext
  by_cases hzero : capacity = 0
  · rw [h.accepted_nil hzero, List.length_nil] at hnext
    omega
  · omega

theorem accepted_step (h : Known isn capacity r q first fin) (a : Action)
    (hzero : capacity = 0) : (r.session.step a).accepted = [] := by
  have hnil := h.accepted_nil hzero
  cases a with
  | write data =>
      have hroom : q.room = 0 := by
        rw [BoundedFifo.room, h.logs.capacity_eq, hzero, Nat.zero_sub]
      change r.session.accepted ++ data.take (r.session.sender.stream.write data).2 = []
      rw [hnil, h.logs.sent.refines.take_write_snd, hroom, List.take_zero, List.append_nil]
  | endInput => exact hnil
  | fillWindow => exact hnil
  | ackReceived ackno windowSize => exact hnil
  | tick ms => exact hnil
  | sendEmptySegment => exact hnil

theorem step (h : Known isn capacity r q first fin) (e : WindowEvent) (he : e.Allowed r)
    (hbound : (r.step e).session.accepted.length + capacity < 2 ^ 31) :
    ∃ q' first' fin', Known isn capacity (r.step e) q' first' fin' := by
  have hopen : (r.action e).Open r.session := by
    cases e with
    | call a =>
        cases a with
        | write data => exact he
        | endInput => trivial
        | fillWindow => trivial
        | ackReceived ackno windowSize => trivial
        | tick ms => trivial
        | sendEmptySegment => trivial
    | ack A windowSize => trivial
  obtain ⟨⟨q', new, fin', hlogs⟩, -⟩ := h.logs.step (r.action e) hopen hbound
  refine ⟨q', first ++ new, fin', hlogs, ?_, ?_, h.accepted_step (r.action e)⟩
  · cases e with
    | call a =>
        apply h.upTo.step a
        rintro ackno windowSize rfl
        exact he
    | ack A windowSize =>
        have hle := accepted_length_le_step r.session (r.action (.ack A windowSize))
        apply h.upTo.ackReceived he
        apply h.next_le
        change (r.session.step (r.action (.ack A windowSize))).accepted.length + _ < _ at hbound
        omega
  · exact (error_step r.session (r.action e)).trans h.noError

/-- The tests of the summary, put into words of the history. -/
theorem stateSummary_eq (h : Known isn capacity r q first fin) :
    TCPState.stateSummary r.session.sender =
      if r.session.sender.nextSeqnoAbsolute = 0 then .closed
      else if r.acked = 0 then .synSent
      else if fin = false then .synAcked
      else if r.acked < r.session.sender.nextSeqnoAbsolute then .finSent
      else .finAcked := by
  have hle := h.upTo.flight_le
  have hbase := h.upTo.next_le
  have hacked := h.upTo.acked_le
  rw [TCPState.stateSummary, streamIn, h.noError, if_neg Bool.false_ne_true]
  by_cases hzero : r.session.sender.nextSeqnoAbsolute = 0
  · rw [if_pos hzero, if_pos hzero]
  · rw [if_neg hzero, if_neg hzero]
    have hfin := h.logs.fin_iff (Nat.pos_of_ne_zero hzero)
    by_cases hsyn : r.acked = 0
    · rw [if_pos hsyn, if_pos (by omega)]
    · have hstarted := h.upTo.started (Nat.pos_of_ne_zero hsyn)
      rw [if_neg hsyn, if_neg (by omega)]
      cases fin with
      | false =>
          rw [if_pos rfl]
          split_ifs with heof hlt hflight
          · rfl
          · rfl
          · exact absurd (hfin.mpr ⟨Bool.eq_true_of_not_eq_false heof, not_lt.mp hlt⟩) (by decide)
          · exact absurd (hfin.mpr ⟨Bool.eq_true_of_not_eq_false heof, not_lt.mp hlt⟩) (by decide)
      | true =>
          obtain ⟨heof, hend⟩ := hfin.mp rfl
          have hopen : ¬ r.session.sender.stream.eof = false := by
            rw [heof]
            decide
          rw [if_neg hopen, if_neg (not_lt.mpr hend), if_neg Bool.true_eq_false.mp]
          by_cases hflight : r.session.sender.bytesInFlight = 0
          · rw [if_neg (not_not.mpr hflight), if_neg (by omega)]
          · rw [if_pos hflight, if_pos]
            -- the segment that ends with the next number is still stored
            obtain ⟨e, he, hkey⟩ := h.upTo.last.resolve_left hflight
            have hgt := h.upTo.key_gt e he
            omega

theorem tellsTruth (h : Known isn capacity r q first fin) : TellsTruth r := by
  have hsyn : r.SynSent ↔ 0 < r.session.sender.nextSeqnoAbsolute := h.logs.syn_sent_iff
  have hfin : r.FinSent ↔ fin = true := h.logs.fin_sent_iff
  have hsent : r.sent = r.session.sender.nextSeqnoAbsolute := by
    rw [AckRun.sent, h.logs.log_eq, h.logs.sent.next_eq]
  have hacked := h.upTo.acked_le
  have hfinpos : fin = true → 0 < r.session.sender.nextSeqnoAbsolute := by
    intro htrue
    have hcount := h.logs.sent.next_eq_readCount
    rw [if_pos htrue] at hcount
    omega
  constructor
  all_goals
    rw [h.stateSummary_eq]
    simp only [AckRun.SynAcked, hsyn, hfin, hsent]
    split_ifs
    all_goals simp_all
    all_goals omega

end Known

theorem known_run (retxTimeout : UInt16) (events : List WindowEvent)
    (hallowed : Transition.Along AckRun.step (fun r e => e.Allowed r)
      (AckRun.start capacity retxTimeout isn) events)
    (hbound : (AckRun.run capacity retxTimeout isn events).session.accepted.length + capacity <
      2 ^ 31) :
    ∃ q first fin, Known isn capacity (AckRun.run capacity retxTimeout isn events) q first
      fin := by
  induction events using List.reverseRecOn with
  | nil => exact ⟨_, _, _, known_start retxTimeout (by omega)⟩
  | append_singleton events e ih =>
      rw [Transition.along_concat] at hallowed
      rw [AckRun.run, List.foldl_concat] at hbound ⊢
      have hle := accepted_length_le_step
        (AckRun.run capacity retxTimeout isn events).session
        ((AckRun.run capacity retxTimeout isn events).action e)
      change (AckRun.step (AckRun.run capacity retxTimeout isn events)
        e).session.accepted.length + _ < _ at hbound
      obtain ⟨q, first, fin, hknown⟩ := ih hallowed.1 (by
        change _ ≤ (AckRun.step (AckRun.run capacity retxTimeout isn events)
          e).session.accepted.length at hle
        omega)
      exact hknown.step e hallowed.2 hbound

end

/-- After every run without stream error the summary tells what was sent and what
was acknowledged, whatever the windows were and whenever the input ended. -/
theorem run_tellsTruth (capacity : ℕ) (retxTimeout : UInt16) (isn : WrappingInt32)
    (events : List WindowEvent)
    (hallowed : Transition.Along AckRun.step (fun r e => e.Allowed r)
      (AckRun.start capacity retxTimeout isn) events)
    (hbound : (AckRun.run capacity retxTimeout isn events).session.accepted.length + capacity <
      2 ^ 31) :
    TellsTruth (AckRun.run capacity retxTimeout isn events) := by
  obtain ⟨q, first, fin, hknown⟩ := known_run retxTimeout events hallowed hbound
  exact hknown.tellsTruth

instance : DecidableRel fun (r : AckRun) (e : WindowEvent) => e.Allowed r
  | _, .call (.ackReceived _ _) => isFalse id
  | r, .call (.write data) => inferInstanceAs (Decidable ((Action.write data).Open r.session))
  | _, .call .endInput => isTrue trivial
  | _, .call .fillWindow => isTrue trivial
  | _, .call (.tick _) => isTrue trivial
  | _, .call .sendEmptySegment => isTrue trivial
  | r, .ack A _ => inferInstanceAs (Decidable (A ≤ r.session.sender.nextSeqnoAbsolute))

/-- Three bytes and the FIN leave in one segment, of which two bytes are acknowledged
at first, and then all of it. -/
theorem run_tellsTruth_partial :
    TellsTruth (AckRun.run 4 1000 ⟨7⟩ [.call .fillWindow, .ack 1 10, .call (.write [1, 2, 3]),
      .call .endInput, .call .fillWindow, .ack 3 10, .call (.tick 1000), .ack 5 10]) :=
  run_tellsTruth 4 1000 ⟨7⟩ _ (by decide) (by decide)

end TCPSender

end NetworkLabs
