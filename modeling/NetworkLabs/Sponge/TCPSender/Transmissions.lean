import NetworkLabs.Sponge.TCPSender.Segmentation

/-!
# The log of a sender

The queue `segments_out` of a run lists every segment ever pushed: first
transmissions, repetitions by the timer, and empty ones. `firstTransmissions`
picks the first occurrences of those that occupy sequence numbers. They are the
list that the invariant of a sender builds up, so they tile the sequence space;
all others are copies of an earlier one that is still in the store.
-/

namespace NetworkLabs

namespace TCPSender

/-- The segments of a log that occupy sequence numbers, each where it occurs
first. -/
def firstTransmissions (log : List TCPSegment) : List TCPSegment :=
  (log.filter fun seg => 0 < seg.lengthInSequenceSpace).eraseDups

theorem mem_firstTransmissions (log : List TCPSegment) (seg : TCPSegment) :
    seg ∈ firstTransmissions log ↔ seg ∈ log ∧ 0 < seg.lengthInSequenceSpace := by
  rw [firstTransmissions, List.mem_eraseDups, List.mem_filter, decide_eq_true_eq]

theorem eraseDups_concat (l : List TCPSegment) (a : TCPSegment) :
    (l ++ [a]).eraseDups = if a ∈ l then l.eraseDups else l.eraseDups ++ [a] := by
  rw [List.eraseDups_append]
  split_ifs with ha
  · simp [List.removeAll, ha]
  · simp [List.removeAll, ha, List.eraseDups_cons]

/-- New segments at the end of a log are first transmissions. -/
theorem firstTransmissions_append (log new : List TCPSegment)
    (hpos : ∀ seg ∈ new, 0 < seg.lengthInSequenceSpace)
    (hnodup : (firstTransmissions log ++ new).Nodup) :
    firstTransmissions (log ++ new) = firstTransmissions log ++ new := by
  induction new using List.reverseRecOn with
  | nil => rw [List.append_nil, List.append_nil]
  | append_singleton new a ih =>
      rw [← List.append_assoc] at hnodup
      obtain ⟨hfront, -, hnew⟩ := List.nodup_append.mp hnodup
      have ih' := ih (fun seg hseg => hpos seg (List.mem_append_left _ hseg)) hfront
      have ha : 0 < a.lengthInSequenceSpace := hpos a (by simp)
      have hmem : a ∉ (log ++ new).filter fun seg => 0 < seg.lengthInSequenceSpace := by
        intro hmem
        rw [← List.mem_eraseDups, ← firstTransmissions, ih'] at hmem
        exact hnew a hmem a (List.mem_singleton_self a) rfl
      rw [firstTransmissions, ← List.append_assoc, List.filter_append,
        List.filter_cons_of_pos (by simpa using ha), List.filter_nil, eraseDups_concat,
        if_neg hmem, ← firstTransmissions, ih', List.append_assoc]

/-- Repeated and empty segments at the end of a log are no first
transmissions. -/
theorem firstTransmissions_append_old (log old : List TCPSegment)
    (hold : ∀ seg ∈ old, 0 < seg.lengthInSequenceSpace → seg ∈ log) :
    firstTransmissions (log ++ old) = firstTransmissions log := by
  induction old using List.reverseRecOn with
  | nil => rw [List.append_nil]
  | append_singleton old a ih =>
      have ih' := ih fun seg hseg => hold seg (List.mem_append_left _ hseg)
      rw [← List.append_assoc, ← ih', firstTransmissions, List.filter_append]
      by_cases ha : 0 < a.lengthInSequenceSpace
      · have hmem : a ∈ (log ++ old).filter fun seg => 0 < seg.lengthInSequenceSpace := by
          rw [List.mem_filter, decide_eq_true_eq]
          exact ⟨List.mem_append_left _ (hold a (by simp) ha), ha⟩
        rw [List.filter_cons_of_pos (by simpa using ha), List.filter_nil, eraseDups_concat,
          if_pos hmem, firstTransmissions]
      · rw [List.filter_cons_of_neg (by simpa using ha), List.filter_nil, List.append_nil,
          firstTransmissions]

/-! ## Runs -/

/-- Nothing is written to a stream that has ended. -/
def Action.Open (s : Session) : Action → Prop
  | .write _ => s.sender.stream.inputEnded = false
  | _ => True

instance : DecidableRel fun (s : Session) (a : Action) => a.Open s
  | s, .write _ => inferInstanceAs (Decidable (s.sender.stream.inputEnded = false))
  | _, .endInput => isTrue trivial
  | _, .fillWindow => isTrue trivial
  | _, .ackReceived _ _ => isTrue trivial
  | _, .tick _ => isTrue trivial
  | _, .sendEmptySegment => isTrue trivial

/-- A segment pushed by an action that occupies numbers was not pushed before,
or it is a copy of one that was and that the store still holds. -/
def PushesStored (s : Session) (a : Action) : Prop :=
  ∀ front seg back,
    (s.step a).sender.segmentsOut = s.sender.segmentsOut ++ front ++ seg :: back →
    0 < seg.lengthInSequenceSpace →
    seg ∉ s.sender.segmentsOut ++ front ∨
      (seg ∈ s.sender.segmentsOut ∧ ∃ k, (k, seg) ∈ s.sender.segmentsCache)

/-- The log of the session consists of the segments in `first`, and of
repetitions. -/
structure Logs (isn : WrappingInt32) (capacity : ℕ) (s : Session) (q : BoundedFifo UInt8)
    (first : List TCPSegment) (fin : Bool) : Prop where
  sent : Sent isn s.sender q first fin
  written_eq : q.written = s.accepted
  capacity_eq : q.capacity = capacity
  log_eq : firstTransmissions s.sender.segmentsOut = first

section

variable {isn : WrappingInt32} {capacity : ℕ} {s : Session} {q : BoundedFifo UInt8}
  {first : List TCPSegment} {fin : Bool}

theorem logs_start (retxTimeout : UInt16) (h : capacity < 2 ^ 31) :
    Logs isn capacity (Session.start capacity retxTimeout isn) (BoundedFifo.empty capacity) []
      false where
  sent := sent_new capacity retxTimeout isn h
  written_eq := rfl
  capacity_eq := rfl
  log_eq := rfl

/-- A call that transmits the segments `new` after those of `first`. -/
theorem Logs.transmit (h : Logs isn capacity s q first fin) {t : TCPSender}
    {q' : BoundedFifo UInt8} {new : List TCPSegment} {fin' : Bool}
    (hbound : s.accepted.length + capacity < 2 ^ 31)
    (ht : Sent isn t q' (first ++ new) fin') (hwritten : q'.written = q.written)
    (hcap : q'.capacity = q.capacity)
    (hout : t.segmentsOut = s.sender.segmentsOut ++ new) :
    Logs isn capacity { s with sender := t } q' (first ++ new) fin' ∧
      ∀ front seg back, new = front ++ seg :: back →
        seg ∉ s.sender.segmentsOut ++ front := by
  have hnext := ht.next_le
  rw [hwritten, h.written_eq, ht.next_eq] at hnext
  have hnodup := ht.segmented.nodup (by omega)
  have hpos : ∀ seg ∈ new, 0 < seg.lengthInSequenceSpace :=
    fun seg hseg => ht.segmented.length_pos seg (List.mem_append_right _ hseg)
  refine ⟨{
    sent := ht
    written_eq := hwritten.trans h.written_eq
    capacity_eq := hcap.trans h.capacity_eq
    log_eq := ?_ }, ?_⟩
  · change firstTransmissions t.segmentsOut = _
    rw [hout, firstTransmissions_append _ _ hpos (by rwa [h.log_eq]), h.log_eq]
  · intro front seg back hnew hmem
    have hseg : 0 < seg.lengthInSequenceSpace := hpos seg (by rw [hnew]; simp)
    rw [hnew, ← List.append_assoc] at hnodup
    apply (List.nodup_append.mp hnodup).2.2 seg _ seg List.mem_cons_self rfl
    rcases List.mem_append.mp hmem with hmem | hmem
    · apply List.mem_append_left
      rw [← h.log_eq, mem_firstTransmissions]
      exact ⟨hmem, hseg⟩
    · exact List.mem_append_right _ hmem

/-- A call that pushes stored or empty segments only. -/
theorem Logs.resend (h : Logs isn capacity s q first fin) {t : TCPSender}
    (out : List TCPSegment) (ht : Sent isn t q first fin)
    (hout : t.segmentsOut = s.sender.segmentsOut ++ out)
    (hold : ∀ seg ∈ out, 0 < seg.lengthInSequenceSpace →
      ∃ k, (k, seg) ∈ s.sender.segmentsCache) :
    Logs isn capacity { s with sender := t } q first fin ∧
      ∀ seg ∈ out, 0 < seg.lengthInSequenceSpace →
        seg ∈ s.sender.segmentsOut ∧ ∃ k, (k, seg) ∈ s.sender.segmentsCache := by
  have hlog : ∀ seg ∈ out, 0 < seg.lengthInSequenceSpace →
      seg ∈ s.sender.segmentsOut ∧ ∃ k, (k, seg) ∈ s.sender.segmentsCache := by
    intro seg hseg hpos
    obtain ⟨k, hk⟩ := hold seg hseg hpos
    have hmem := h.sent.mem_first hk
    rw [← h.log_eq, mem_firstTransmissions] at hmem
    exact ⟨hmem.1, k, hk⟩
  refine ⟨{
    sent := ht
    written_eq := h.written_eq
    capacity_eq := h.capacity_eq
    log_eq := ?_ }, hlog⟩
  change firstTransmissions t.segmentsOut = _
  rw [hout, firstTransmissions_append_old _ _ fun seg hseg hpos => (hlog seg hseg hpos).1,
    h.log_eq]

/-- Every action extends the list of first transmissions at its end. -/
theorem Logs.step (h : Logs isn capacity s q first fin) (a : Action) (hopen : a.Open s)
    (hbound : (s.step a).accepted.length + capacity < 2 ^ 31) :
    (∃ q' new fin', Logs isn capacity (s.step a) q' (first ++ new) fin') ∧ PushesStored s a := by
  have hquiet : ∀ t : Session, t.sender.segmentsOut = s.sender.segmentsOut →
      ∀ (front back : List TCPSegment) (seg : TCPSegment),
        t.sender.segmentsOut ≠ s.sender.segmentsOut ++ front ++ seg :: back := by
    intro t ht front back seg heq
    have hlen := congrArg List.length heq
    rw [ht] at hlen
    simp at hlen
  cases a with
  | write data =>
      have hopen' : s.sender.stream.isEnd = false := hopen
      have haccepted : (q.push data).written =
          s.accepted ++ data.take (s.sender.stream.write data).2 := by
        rw [BoundedFifo.written_push, h.written_eq, h.sent.refines.take_write_snd]
      have hpush : (q.push data).written.length + q.capacity < 2 ^ 31 := by
        rw [haccepted, h.capacity_eq]
        exact hbound
      refine ⟨⟨q.push data, [], fin, ?_⟩, fun front seg back heq => ?_⟩
      · rw [List.append_nil]
        exact {
          sent := h.sent.write data hopen' hpush
          written_eq := haccepted
          capacity_eq := h.capacity_eq
          log_eq := h.log_eq }
      · exact absurd heq (hquiet _ rfl front back seg)
  | endInput =>
      refine ⟨⟨q, [], fin, ?_⟩, fun front seg back heq => ?_⟩
      · rw [List.append_nil]
        exact { h with sent := h.sent.endInput }
      · exact absurd heq (hquiet _ rfl front back seg)
  | fillWindow =>
      obtain ⟨q', new, fin', ht, hwritten, hcap, hout, -⟩ := h.sent.fillWindow
      obtain ⟨hlogs, hnew⟩ := h.transmit hbound ht hwritten hcap hout
      refine ⟨⟨q', new, fin', hlogs⟩, fun front seg back heq _ => Or.inl ?_⟩
      change s.sender.fillWindow.segmentsOut = _ at heq
      rw [hout, List.append_assoc, List.append_cancel_left_eq] at heq
      exact hnew front seg back heq
  | ackReceived ackno windowSize =>
      obtain ⟨q', new, fin', ht, hwritten, hcap, hout, -⟩ :=
        h.sent.ackReceived ackno windowSize
      obtain ⟨hlogs, hnew⟩ := h.transmit hbound ht hwritten hcap hout
      refine ⟨⟨q', new, fin', hlogs⟩, fun front seg back heq _ => Or.inl ?_⟩
      change (s.sender.ackReceived ackno windowSize).segmentsOut = _ at heq
      rw [hout, List.append_assoc, List.append_cancel_left_eq] at heq
      exact hnew front seg back heq
  | tick ms =>
      obtain ⟨out, time, timeout, retx, heq', hstored⟩ := tick_eq s.sender ms
      have hout : (s.sender.tick ms).segmentsOut = s.sender.segmentsOut ++ out := by
        rw [heq']
      obtain ⟨hlogs, hold⟩ := h.resend out (h.sent.tick ms) hout fun seg hseg _ =>
        hstored seg hseg
      refine ⟨⟨q, [], fin, by rwa [List.append_nil]⟩, fun front seg back heq hpos => ?_⟩
      change (s.sender.tick ms).segmentsOut = _ at heq
      rw [hout, List.append_assoc, List.append_cancel_left_eq] at heq
      exact Or.inr (hold seg (by rw [heq]; simp) hpos)
  | sendEmptySegment =>
      have hsent : Sent isn s.sender.sendEmptySegment q first fin := { h.sent with }
      obtain ⟨hlogs, hold⟩ := h.resend [s.sender.emptySegment] hsent rfl
        (by simp [emptySegment, TCPSegment.lengthInSequenceSpace])
      refine ⟨⟨q, [], fin, by rwa [List.append_nil]⟩, fun front seg back heq hpos => ?_⟩
      change s.sender.segmentsOut ++ [s.sender.emptySegment] = _ at heq
      rw [List.append_assoc, List.append_cancel_left_eq] at heq
      exact Or.inr (hold seg (by rw [heq]; simp) hpos)

theorem accepted_length_le_step (s : Session) (a : Action) :
    s.accepted.length ≤ (s.step a).accepted.length := by
  cases a with
  | write data =>
      change _ ≤ (s.accepted ++ _).length
      rw [List.length_append]
      exact Nat.le_add_right _ _
  | endInput => exact le_rfl
  | fillWindow => exact le_rfl
  | ackReceived ackno windowSize => exact le_rfl
  | tick ms => exact le_rfl
  | sendEmptySegment => exact le_rfl

theorem logs_run (retxTimeout : UInt16) (actions : List Action)
    (hopen : Transition.Along Session.step (fun s a => a.Open s)
      (Session.start capacity retxTimeout isn) actions)
    (hbound : (Session.run capacity retxTimeout isn actions).accepted.length + capacity <
      2 ^ 31) :
    (∃ q first fin, Logs isn capacity (Session.run capacity retxTimeout isn actions) q first fin) ∧
      Transition.Along Session.step PushesStored
        (Session.start capacity retxTimeout isn) actions := by
  induction actions using List.reverseRecOn with
  | nil => exact ⟨⟨_, _, _, logs_start retxTimeout (by omega)⟩, trivial⟩
  | append_singleton actions a ih =>
      rw [Transition.along_concat] at hopen ⊢
      rw [Session.run, List.foldl_concat] at hbound ⊢
      have hle := accepted_length_le_step (Session.run capacity retxTimeout isn actions) a
      change (Session.step (Session.run capacity retxTimeout isn actions) a).accepted.length + _ < _
        at hbound
      obtain ⟨⟨q, first, fin, hlogs⟩, halong⟩ := ih hopen.1 (by omega)
      obtain ⟨⟨q', new, fin', hlogs'⟩, hpushes⟩ := hlogs.step a hopen.2 hbound
      exact ⟨⟨q', first ++ new, fin', hlogs'⟩, halong, hpushes⟩

end

/-- What was pushed for the first time tiles the sequence space: a lone SYN,
then the accepted bytes in payloads of bounded size, each segment starting
behind the one before it, and the FIN on the segment that ends with the last
accepted byte. Everything else that occupies numbers is a copy of a stored
segment. -/
theorem run_tiles_stream (capacity : ℕ) (retxTimeout : UInt16) (isn : WrappingInt32)
    (actions : List Action)
    (hopen : Transition.Along Session.step (fun s a => a.Open s)
      (Session.start capacity retxTimeout isn) actions)
    (hbound : (Session.run capacity retxTimeout isn actions).accepted.length + capacity <
      2 ^ 31) :
    let s := Session.run capacity retxTimeout isn actions
    let first := firstTransmissions s.sender.segmentsOut
    (first = [] ∨ ∃ rest, first = { header := { seqno := isn, syn := true } } :: rest ∧
      ∀ seg ∈ rest, seg.header.syn = false) ∧
    (∀ e ∈ ends 0 first, e.2.header.seqno = wrap (e.1 - e.2.lengthInSequenceSpace) isn) ∧
    first.flatMap TCPSegment.payload <+: s.accepted ∧
    (∀ seg ∈ first, seg.payload.length ≤ TCPConfig.MAX_PAYLOAD_SIZE) ∧
    (∀ front seg back, first = front ++ seg :: back → seg.header.fin = true →
      back = [] ∧ s.sender.stream.inputEnded = true ∧
        first.flatMap TCPSegment.payload = s.accepted) ∧
    Transition.Along Session.step PushesStored
      (Session.start capacity retxTimeout isn) actions := by
  intro s first
  obtain ⟨⟨q, list, fin, hlogs⟩, halong⟩ := logs_run retxTimeout actions hopen hbound
  have hfirst : first = list := hlogs.log_eq
  have hseg := hlogs.sent.segmented
  rw [hfirst]
  refine ⟨hseg.syn_first, hseg.seqno_eq, ?_, hseg.length_payload_le, ?_, halong⟩
  · rw [hseg.flatMap_payload, hlogs.written_eq]
    exact List.take_prefix _ _
  · intro front seg back hlist hsegfin
    have hfin : fin = true := by
      by_contra hfin
      have hnone := hseg.not_fin (Bool.eq_false_of_not_eq_true hfin) seg (by rw [hlist]; simp)
      rw [hnone] at hsegfin
      exact absurd hsegfin (by decide)
    obtain ⟨hend, hall⟩ := hlogs.sent.ended hfin
    refine ⟨?_, hend, ?_⟩
    · obtain ⟨front', last, hlast, -, hfront'⟩ := hseg.fin_last hfin
      rcases List.eq_nil_or_concat back with hnil | ⟨back', x, hback⟩
      · exact hnil
      · rw [hback, List.concat_eq_append, ← List.cons_append, ← List.append_assoc] at hlist
        have hsame := (List.append_inj' (hlast.symm.trans hlist) rfl).1
        have hnone := hfront' seg (by rw [hsame]; simp)
        rw [hnone] at hsegfin
        exact absurd hsegfin (by decide)
    · rw [hseg.flatMap_payload, hall, List.take_length, hlogs.written_eq]

/-- Three bytes and the FIN in one segment, which the timer then repeats. -/
theorem run_tiles_stream_short :
    (firstTransmissions (Session.run 4 1000 ⟨7⟩ [.fillWindow, .write [1, 2, 3], .endInput,
        .ackReceived ⟨8⟩ 10, .tick 1000]).sender.segmentsOut).flatMap TCPSegment.payload <+:
      [1, 2, 3] :=
  (run_tiles_stream 4 1000 ⟨7⟩ [.fillWindow, .write [1, 2, 3], .endInput, .ackReceived ⟨8⟩ 10,
    .tick 1000] (by decide) (by decide)).2.2.1

end TCPSender

end NetworkLabs
