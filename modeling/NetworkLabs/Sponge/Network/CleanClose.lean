import NetworkLabs.Sponge.Network.Close
import NetworkLabs.Sponge.TCPConnection.Ending

/-!
# When a connection closes cleanly

The end of a connection is inferred: the input has ended, the outgoing stream is
at its end, and nothing is in flight. That this means what it should is a matter
of the whole run. The invariant remembers, for a connection with nothing in
flight behind its FIN, the segment that acknowledged it; for one that will not
linger, the moment at which its input ended first; and it bounds the time that
was counted by the time that has passed. The segments that arrive are arbitrary
here, and the peer need not be another connection of this kind.
-/

namespace NetworkLabs

open TCPConnection
open TCPSender (FinAcked FinWaits Sent Segmented)

/-- The segment is another one up to its acknowledgment and its window. -/
def TCPSegment.SameData (p seg : TCPSegment) : Prop :=
  p.payload = seg.payload ∧ p.header.syn = seg.header.syn ∧ p.header.fin = seg.header.fin ∧
    p.header.seqno = seg.header.seqno

namespace TCPConnection

open TCPSegment

/-- All that the sender has transmitted of the bytes `S` was put out, or is in its
queue. -/
def PutOut (S : List UInt8) (capacity : ℕ) (isn : WrappingInt32) (c : TCPConnection) : Prop :=
  ∃ q first fin, Sent isn c.sender q first fin ∧ q.written = S ∧ q.capacity = capacity ∧
    ∀ seg ∈ first, ∃ p ∈ c.segmentsOut ++ c.sender.segmentsOut, p.SameData seg

namespace PutOut

variable {S : List UInt8} {capacity : ℕ} {isn : WrappingInt32} {c : TCPConnection}

theorem start (cfg : TCPConfig) (h : cfg.sendCapacity < 2 ^ 31) :
    PutOut [] cfg.sendCapacity cfg.isn (new cfg) :=
  ⟨_, [], false, TCPSender.sent_new _ _ _ h, rfl, rfl, fun _ h => absurd h List.not_mem_nil⟩

/-- Another sender, whose queue is longer by what it has transmitted. -/
theorem of_sent (h : PutOut S capacity isn c) {s : TCPSender}
    (hsent : ∀ q first fin, Sent isn c.sender q first fin → ∃ q' new fin',
      Sent isn s q' (first ++ new) fin' ∧ q'.written = q.written ∧ q'.capacity = q.capacity ∧
        s.segmentsOut = c.sender.segmentsOut ++ new) :
    PutOut S capacity isn { c with sender := s } := by
  obtain ⟨q, first, fin, hold, hwritten, hcap, hput⟩ := h
  obtain ⟨q', new, fin', hnew, hwritten', hcap', hout⟩ := hsent q first fin hold
  refine ⟨q', first ++ new, fin', hnew, hwritten'.trans hwritten, hcap'.trans hcap, ?_⟩
  intro seg hseg
  change ∃ p ∈ c.segmentsOut ++ s.segmentsOut, _
  rw [hout, ← List.append_assoc]
  rcases List.mem_append.mp hseg with hseg | hseg
  · obtain ⟨p, hp, hsame⟩ := hput seg hseg
    exact ⟨p, List.mem_append_left _ hp, hsame⟩
  · exact ⟨seg, List.mem_append_right _ hseg, rfl, rfl, rfl, rfl⟩

/-- Another sender that has transmitted the same, and has more in its queue. -/
theorem of_queue (h : PutOut S capacity isn c) {s : TCPSender} (more : List TCPSegment)
    (hsent : ∀ q first fin, Sent isn c.sender q first fin → Sent isn s q first fin)
    (hout : s.segmentsOut = c.sender.segmentsOut ++ more) :
    PutOut S capacity isn { c with sender := s } := by
  obtain ⟨q, first, fin, hold, hwritten, hcap, hput⟩ := h
  refine ⟨q, first, fin, hsent q first fin hold, hwritten, hcap, ?_⟩
  intro seg hseg
  obtain ⟨p, hp, hsame⟩ := hput seg hseg
  refine ⟨p, ?_, hsame⟩
  change p ∈ c.segmentsOut ++ s.segmentsOut
  rw [hout, ← List.append_assoc]
  exact List.mem_append_left _ hp

theorem fillWindow (h : PutOut S capacity isn c) : PutOut S capacity isn c.fillWindow := by
  apply h.of_sent
  intro q first fin hold
  obtain ⟨q', new, fin', hnew, hwritten, hcap, hout, -⟩ := hold.fillWindow
  exact ⟨q', new, fin', hnew, hwritten, hcap, hout⟩

theorem ackReceived (h : PutOut S capacity isn c) (seg : TCPSegment) :
    PutOut S capacity isn (c.ackReceived seg) := by
  apply h.of_sent
  intro q first fin hold
  obtain ⟨q', new, fin', hnew, hwritten, hcap, hout, -⟩ :=
    hold.ackReceived seg.header.ackno seg.header.win
  exact ⟨q', new, fin', hnew, hwritten, hcap, hout⟩

theorem sendEmptySegment (h : PutOut S capacity isn c) :
    PutOut S capacity isn c.sendEmptySegment :=
  h.of_queue [c.sender.emptySegment] (fun _ _ _ hold => { hold with }) rfl

theorem tick (h : PutOut S capacity isn c) (ms : ℕ) :
    PutOut S capacity isn { c with sender := c.sender.tick ms } := by
  obtain ⟨out, time, timeout, retx, heq, -⟩ := TCPSender.tick_eq c.sender ms
  apply h.of_queue out (fun _ _ _ hold => hold.tick ms)
  rw [heq]

theorem setError (h : PutOut S capacity isn c) :
    PutOut S capacity isn
      { c with sender := { c.sender with stream := c.sender.stream.setError } } :=
  h.of_queue [] (fun _ _ _ hold => hold.setError) (List.append_nil _).symm

theorem endInput (h : PutOut S capacity isn c) :
    PutOut S capacity isn
      { c with sender := { c.sender with stream := c.sender.stream.endInput } } :=
  h.of_queue [] (fun _ _ _ hold => hold.endInput) (List.append_nil _).symm

theorem write (h : PutOut S capacity isn c) (hopen : c.sender.stream.isEnd = false)
    (data : List UInt8)
    (hbound : (S ++ data.take (c.sender.stream.write data).2).length + capacity < 2 ^ 31) :
    PutOut (S ++ data.take (c.sender.stream.write data).2) capacity isn
      { c with sender := { c.sender with stream := (c.sender.stream.write data).1 } } := by
  obtain ⟨q, first, fin, hold, hwritten, hcap, hput⟩ := h
  have hpush : (q.push data).written = S ++ data.take (c.sender.stream.write data).2 := by
    rw [BoundedFifo.written_push, hwritten, hold.refines.take_write_snd]
  have hnew := hold.write data hopen (by rw [hpush, hcap]; exact hbound)
  exact ⟨q.push data, first, fin, hnew, hpush, hcap, hput⟩

/-- A connection with other data beside its sender. -/
theorem of_eq (h : PutOut S capacity isn c) {d : TCPConnection} (hsender : d.sender = c.sender)
    (more : List TCPSegment) (hout : d.segmentsOut = c.segmentsOut ++ more) :
    PutOut S capacity isn d := by
  obtain ⟨q, first, fin, hold, hwritten, hcap, hput⟩ := h
  rw [PutOut, hsender]
  refine ⟨q, first, fin, hold, hwritten, hcap, ?_⟩
  intro seg hseg
  obtain ⟨p, hp, hsame⟩ := hput seg hseg
  refine ⟨p, ?_, hsame⟩
  rw [hout]
  rcases List.mem_append.mp hp with hp | hp
  · exact List.mem_append_left _ (List.mem_append_left _ hp)
  · exact List.mem_append_right _ hp

/-- Whatever was in the queue is put out. -/
theorem sendData (h : PutOut S capacity isn c) : PutOut S capacity isn c.sendData := by
  obtain ⟨q, first, fin, hold, hwritten, hcap, hput⟩ := h
  rw [PutOut, sendData_sender, sendData_segmentsOut]
  refine ⟨q, first, fin, { hold with }, hwritten, hcap, ?_⟩
  intro seg hseg
  obtain ⟨p, hp, hsame⟩ := hput seg hseg
  rcases List.mem_append.mp hp with hp | hp
  · exact ⟨p, List.mem_append_left _ (List.mem_append_left _ hp), hsame⟩
  · refine ⟨stamp c.receiver p, ?_, ?_⟩
    · exact List.mem_append_left _ (List.mem_append_right _ (List.mem_map_of_mem hp))
    · obtain ⟨hpayload, hsyn, hfin, hseqno⟩ := stamp_fields c.receiver p
      exact ⟨hpayload.trans hsame.1, hsyn.trans hsame.2.1, hfin.trans hsame.2.2.1,
        hseqno.trans hsame.2.2.2⟩

end PutOut

end TCPConnection

namespace Endpoint

section

variable {e : Endpoint} {a : Action} {capacity : ℕ} {isn : WrappingInt32}

theorem putOut_enter (h : PutOut e.accepted capacity isn e.conn)
    (ho : Outbound e.accepted e.ended capacity isn e.conn)
    (hopen : ∀ data, a = .write data → e.ended = false)
    (hbound : (e.step a).accepted.length + capacity < 2 ^ 31) :
    PutOut (e.step a).accepted capacity isn (e.conn.enter a) := by
  cases a with
  | connect => exact h
  | write data =>
      change (e.accepted ++ data.take (e.conn.write data).2).length + capacity < 2 ^ 31 at hbound
      change PutOut (e.accepted ++ data.take (e.conn.write data).2) capacity isn _
      rw [enter]
      rw [TCPConnection.write] at hbound ⊢
      split_ifs at hbound ⊢ with hdata
      · rw [List.take_zero, List.append_nil]
        exact h
      · exact h.write (ho.isEnd_eq.trans (hopen data rfl)) data hbound
  | endInputStream => exact h.endInput
  | read len => exact h.of_eq rfl [] (List.append_nil _).symm
  | tick ms =>
      rw [enter]
      split_ifs
      · exact h
      · exact (h.tick ms).of_eq rfl [] (List.append_nil _).symm
  | segmentReceived seg =>
      rw [enter]
      split_ifs
      · exact h
      · exact h.of_eq rfl [] (List.append_nil _).symm

theorem putOut_step (h : PutOut e.accepted capacity isn e.conn)
    (ho : Outbound e.accepted e.ended capacity isn e.conn)
    (hopen : ∀ data, a = .write data → e.ended = false)
    (hbound : (e.step a).accepted.length + capacity < 2 ^ 31) :
    PutOut (e.step a).accepted capacity isn (e.step a).conn := by
  have henter := putOut_enter h ho hopen hbound
  apply step_induction a
  · exact fun _ => henter
  · exact fun _ => henter.fillWindow
  · exact fun seg _ _ _ _ => henter.ackReceived seg
  · exact fun seg _ _ d hd => hd.of_eq rfl [] (List.append_nil _).symm
  · exact fun d _ hd => hd.sendEmptySegment
  · exact fun d hd => hd.fillWindow
  · exact fun d hd => hd.sendData
  · exact fun d hd => hd.setError.of_eq rfl [] (List.append_nil _).symm
  · exact fun d hd => hd.setError.of_eq rfl [rstSegment] rfl

theorem finWaits_step (h : FinWaits e.conn.sender)
    (ho : Outbound e.accepted e.ended capacity isn e.conn)
    (hopen : ∀ data, a = .write data → e.ended = false)
    (hbound : (e.step a).accepted.length + capacity < 2 ^ 31) :
    FinWaits (e.step a).conn.sender := by
  have henter := outbound_enter ho hopen hbound
  apply step_induction (P := fun d => FinWaits d.sender) a
  · exact finWaits_enter h henter hopen
  · exact fun _ => TCPSender.finWaits_fillWindow _
  · intro seg ha _ _ _
    subst ha
    exact (finWaits_enter h henter hopen nofun).ackReceived _ _
  · exact fun seg _ _ d hd => hd
  · exact fun d _ hd => hd
  · exact fun d _ => TCPSender.finWaits_fillWindow _
  · intro d hd
    rw [sendData_sender]
    exact hd
  · exact fun d hd => hd
  · exact fun d hd => hd

end

end Endpoint

namespace TCPConnection

/-- The segment is the one that acknowledges the number behind the FIN. -/
def AcksFin (c : TCPConnection) (seg : TCPSegment) : Prop :=
  c.active = true ∧ seg.header.rst = false ∧ c.readsAckno seg = true ∧
    c.sender.nextSeqnoAbsolute = c.sender.stream.bytesWritten + 2 ∧
    seg.header.ackno = c.sender.nextSeqno

/-- Nothing is in flight behind the FIN only if that was so before, or if it is
acknowledged now. -/
theorem finAcked_step {c : TCPConnection} {a : Action} (h : FinAcked (c.step a).sender) :
    FinAcked (c.enter a).sender ∨ ∃ seg, a = .segmentReceived seg ∧ c.AcksFin seg := by
  have hstep := step_induction (c := c) (P := fun d => FinAcked d.sender →
    FinAcked (c.enter a).sender ∨ ∃ seg, a = .segmentReceived seg ∧ c.AcksFin seg) a
  revert h
  apply hstep
  · exact fun _ => Or.inl
  · exact fun _ hfin => Or.inl hfin.of_fillWindow
  · intro seg ha hrst hactive hreads hfin
    subst ha
    rcases hfin.of_ackReceived with hold | ⟨-, hnext, hackno⟩
    · exact Or.inl hold
    · rw [enter, if_neg (by simp [hactive])] at hreads hnext hackno
      exact Or.inr ⟨seg, rfl, hactive, hrst, hreads, hnext, hackno⟩
  · exact fun seg _ _ d hd => hd
  · exact fun d _ hd => hd
  · exact fun d hd hfin => hd hfin.of_fillWindow
  · intro d hd
    rw [sendData_sender]
    exact hd
  · exact fun d hd => hd
  · exact fun d hd => hd

/-- Where the last number stands. -/
theorem Outbound.next_of_finAcked {S : List UInt8} {ended : Bool} {capacity : ℕ}
    {isn : WrappingInt32} {c : TCPConnection} (h : Outbound S ended capacity isn c)
    (hnext : c.sender.nextSeqnoAbsolute = c.sender.stream.bytesWritten + 2) :
    c.sender.nextSeqnoAbsolute = S.length + 2 ∧ c.sender.isn = isn := by
  rw [hnext, h.bytesWritten_eq]
  exact ⟨rfl, h.isn_eq⟩

/-! ## The history of a run -/

/-- The last number of the outgoing stream was acknowledged: a segment carried it
when it was the next number already. -/
def LastAcked (cfg : TCPConfig) (actions : List Action) : Prop :=
  ∃ front seg back, actions = front ++ .segmentReceived seg :: back ∧
    (run cfg front).AcksFin seg ∧
    (run cfg front).sender.nextSeqnoAbsolute = (run cfg actions).sender.nextSeqnoAbsolute ∧
    seg.header.ackno = (run cfg actions).sender.nextSeqno

/-- There was a moment at which the inbound stream had ended and the outgoing one
was not at its end. -/
def InputFirst (cfg : TCPConfig) (actions : List Action) : Prop :=
  ∃ front back, actions = front ++ back ∧
    (run cfg front).inboundStream.inputEnded = true ∧ (run cfg front).sender.stream.eof = false

theorem run_concat (cfg : TCPConfig) (actions : List Action) (a : Action) :
    run cfg (actions ++ [a]) = (run cfg actions).step a := by
  rw [run, List.foldl_concat]
  rfl

/-- A connection that does not linger had its input end first. -/
theorem inputFirst_step {cfg : TCPConfig} {actions : List Action} (a : Action)
    (h : (run cfg actions).lingerAfterStreamsFinish = false → InputFirst cfg actions)
    (hlinger : (run cfg (actions ++ [a])).lingerAfterStreamsFinish = false) :
    InputFirst cfg (actions ++ [a]) := by
  have hlater : (run cfg actions).lingerAfterStreamsFinish = false →
      InputFirst cfg (actions ++ [a]) := by
    intro hold
    obtain ⟨front, back, hsplit, hfirst⟩ := h hold
    exact ⟨front, back ++ [a], by rw [hsplit, List.append_assoc], hfirst⟩
  have hrun := run_concat cfg actions a
  rw [hrun] at hlinger
  cases step_ends (run cfg actions) a with
  | sent d hd heq =>
      rw [heq] at hlinger
      rcases lingers_sendData d hlinger with hold | ⟨hended, heof⟩
      · exact hlater (hd.linger_eq.symm.trans hold)
      · refine ⟨actions ++ [a], [], (List.append_nil _).symm, ?_, ?_⟩
        · rw [hrun, heq, inboundStream, sendData_receiver]
          exact hended
        · rw [hrun, heq, sendData_sender]
          exact heof
  | kept hreach => exact hlater (hreach.linger_eq.symm.trans hlinger)
  | aborted hcfg hsame herror => exact hlater (hsame.symm.trans hlinger)

end TCPConnection

namespace Endpoint

def run (cfg : TCPConfig) (actions : List Action) : Endpoint := actions.foldl step (start cfg)

theorem conn_run (cfg : TCPConfig) (actions : List Action) :
    (run cfg actions).conn = TCPConnection.run cfg actions := by
  induction actions using List.reverseRecOn with
  | nil => rfl
  | append_singleton actions a ih => rw [run, List.foldl_concat, run_concat, ← ih]; rfl

/-- An application does not write after it has ended its stream. -/
def Open (e : Endpoint) : Action → Prop
  | .write _ => e.ended = false
  | .connect => True
  | .endInputStream => True
  | .read _ => True
  | .tick _ => True
  | .segmentReceived _ => True

instance : DecidableRel Open := fun e a =>
  match a with
  | .write _ => inferInstanceAs (Decidable (e.ended = false))
  | .connect => isTrue trivial
  | .endInputStream => isTrue trivial
  | .read _ => isTrue trivial
  | .tick _ => isTrue trivial
  | .segmentReceived _ => isTrue trivial

/-- What an endpoint has to remember of its run. -/
structure Recalls (cfg : TCPConfig) (actions : List Action) : Prop where
  outbound : Outbound (run cfg actions).accepted (run cfg actions).ended cfg.sendCapacity cfg.isn
    (run cfg actions).conn
  putOut : PutOut (run cfg actions).accepted cfg.sendCapacity cfg.isn (run cfg actions).conn
  finWaits : FinWaits (run cfg actions).conn.sender
  acked : FinAcked (run cfg actions).conn.sender → LastAcked cfg actions
  lingers : (run cfg actions).conn.lingerAfterStreamsFinish = false → InputFirst cfg actions
  time : (run cfg actions).conn.active = true →
    (run cfg actions).conn.timeSinceLastSegmentReceived ≤ elapsed actions

section

variable {cfg : TCPConfig} {actions : List Action} {a : Action}

theorem run_concat (cfg : TCPConfig) (actions : List Action) (a : Action) :
    run cfg (actions ++ [a]) = (run cfg actions).step a := by
  rw [run, List.foldl_concat]
  rfl

/-- What an action does on its own does not acknowledge the FIN. -/
theorem finAcked_enter {e : Endpoint} {capacity : ℕ} {isn : WrappingInt32}
    (h : FinAcked (e.conn.enter a).sender)
    (ho : Outbound (e.step a).accepted (e.step a).ended capacity isn (e.conn.enter a))
    (hopen : e.Open a) : FinAcked e.conn.sender ∧ (e.step a).accepted = e.accepted := by
  cases a with
  | connect => exact ⟨h, rfl⟩
  | write data =>
      have hopen' : e.ended = false := hopen
      have hended : e.ended = true := ho.ended_of_finAcked h
      rw [hopen'] at hended
      exact absurd hended Bool.false_ne_true
  | endInputStream => exact ⟨h, rfl⟩
  | read len => exact ⟨h, rfl⟩
  | tick ms =>
      refine ⟨?_, rfl⟩
      rw [enter] at h
      split_ifs at h
      · exact h
      · obtain ⟨out, time, timeout, retx, heq, -⟩ := TCPSender.tick_eq e.conn.sender ms
        rw [heq] at h
        exact h
  | segmentReceived seg =>
      refine ⟨?_, rfl⟩
      rw [enter] at h
      split_ifs at h
      · exact h
      · exact h

/-- The acknowledgment of the last number is remembered. -/
theorem lastAcked_step (h : FinAcked (run cfg actions).conn.sender → LastAcked cfg actions)
    (ho : Outbound (run cfg actions).accepted (run cfg actions).ended cfg.sendCapacity cfg.isn
      (run cfg actions).conn) (hopen : (run cfg actions).Open a)
    (hbound : (run cfg (actions ++ [a])).accepted.length + cfg.sendCapacity < 2 ^ 31)
    (hfin : FinAcked (run cfg (actions ++ [a])).conn.sender) : LastAcked cfg (actions ++ [a]) := by
  have hwrite : ∀ data, a = .write data → (run cfg actions).ended = false := by
    intro data ha
    subst ha
    exact hopen
  have hbefore := conn_run cfg actions
  have hafter := conn_run cfg (actions ++ [a])
  rw [run_concat] at hbound hfin hafter
  have honext := outbound_step ho hwrite hbound
  obtain ⟨hnext', hisn'⟩ := honext.next_of_finAcked hfin.1
  have hsame : ∀ hnext : (run cfg actions).conn.sender.nextSeqnoAbsolute =
        (run cfg actions).conn.sender.stream.bytesWritten + 2,
      ((run cfg actions).step a).accepted = (run cfg actions).accepted →
      (TCPConnection.run cfg actions).sender.nextSeqnoAbsolute =
          (TCPConnection.run cfg (actions ++ [a])).sender.nextSeqnoAbsolute ∧
        (TCPConnection.run cfg actions).sender.nextSeqno =
          (TCPConnection.run cfg (actions ++ [a])).sender.nextSeqno := by
    intro hnext haccepted
    obtain ⟨hlast, hisn⟩ := ho.next_of_finAcked hnext
    rw [haccepted, ← hlast] at hnext'
    rw [← hbefore, ← hafter, TCPSender.nextSeqno, TCPSender.nextSeqno, hnext', hisn', hisn]
    exact ⟨rfl, rfl⟩
  rcases finAcked_step hfin with hold | ⟨seg, rfl, hacks⟩
  · obtain ⟨hkept, haccepted⟩ := finAcked_enter hold (outbound_enter ho hwrite hbound) hopen
    obtain ⟨front, seg, back, hsplit, hacks, hnext, hackno⟩ := h hkept
    obtain ⟨hlast, hnumber⟩ := hsame hkept.1 haccepted
    refine ⟨front, seg, back ++ [a], ?_, hacks, hnext.trans hlast, hackno.trans hnumber⟩
    rw [hsplit, List.append_assoc, List.cons_append]
  · obtain ⟨hlast, hnumber⟩ := hsame hacks.2.2.2.1 rfl
    rw [hbefore] at hacks
    exact ⟨actions, seg, [], rfl, hacks, hlast, hacks.2.2.2.2.trans hnumber⟩

theorem recalls_start (h : cfg.sendCapacity < 2 ^ 31) : Recalls cfg [] where
  outbound := Outbound.start cfg h
  putOut := PutOut.start cfg h
  finWaits := (Outbound.start cfg h).finWaits_of_open
  acked := fun hfin => absurd hfin.1 (Nat.succ_ne_zero 1).symm
  lingers := nofun
  time := fun _ => le_rfl

theorem Recalls.concat (h : Recalls cfg actions) (hopen : (run cfg actions).Open a)
    (hbound : (run cfg (actions ++ [a])).accepted.length + cfg.sendCapacity < 2 ^ 31) :
    Recalls cfg (actions ++ [a]) := by
  have hwrite : ∀ data, a = .write data → (run cfg actions).ended = false := by
    intro data ha
    subst ha
    exact hopen
  have hstep := run_concat cfg actions a
  have hbound' := hbound
  rw [hstep] at hbound'
  refine ⟨?_, ?_, ?_, lastAcked_step h.acked h.outbound hopen hbound, ?_, ?_⟩
  · rw [hstep]
    exact outbound_step h.outbound hwrite hbound'
  · rw [hstep]
    exact putOut_step h.putOut h.outbound hwrite hbound'
  · rw [hstep]
    exact finWaits_step h.finWaits h.outbound hwrite hbound'
  · rw [conn_run]
    apply inputFirst_step a
    rw [← conn_run]
    exact h.lingers
  · rw [hstep]
    intro hactive
    change ((run cfg actions).conn.step a).active = true at hactive
    have hbefore : (run cfg actions).conn.active = true := by
      by_contra hdead
      rw [Bool.not_eq_true] at hdead
      rw [active_step_of_dead hdead a] at hactive
      exact Bool.false_ne_true hactive
    rw [elapsed, List.foldl_concat]
    exact time_step_le hbefore (h.time hbefore) a

theorem recalls_run (hopen : Transition.Along step Open (start cfg) actions)
    (hbound : (run cfg actions).accepted.length + cfg.sendCapacity < 2 ^ 31) :
    Recalls cfg actions := by
  induction actions using List.reverseRecOn with
  | nil =>
      apply recalls_start
      exact lt_of_le_of_lt (Nat.le_add_left _ _) hbound
  | append_singleton actions a ih =>
      rw [Transition.along_concat] at hopen
      have hle : (run cfg actions).accepted.length ≤
          (run cfg (actions ++ [a])).accepted.length := by
        rw [run_concat]
        exact (accepted_prefix_step (run cfg actions) a).length_le
      exact (ih hopen.1 (by omega)).concat hopen.2 hbound

end

end Endpoint

/-- A clean end: the inbound stream has ended; every accepted byte and the FIN were
put out, and the number behind the FIN was acknowledged; the input ended before the
outgoing stream was at its end, or the connection has lingered. -/
structure TCPConnection.EndsCleanly (cfg : TCPConfig) (actions : List Action) : Prop where
  inputEnded : (run cfg actions).inboundStream.inputEnded = true
  sent : ∃ first, Segmented cfg.isn first (Endpoint.run cfg actions).accepted true ∧
    ∀ seg ∈ first, ∃ p ∈ (run cfg actions).segmentsOut, p.SameData seg
  acked : LastAcked cfg actions
  waited : InputFirst cfg actions ∨ 10 * cfg.rtTimeout.toNat ≤ elapsed actions

namespace TCPConnection

variable {cfg : TCPConfig} {actions : List Action}

/-- What a connection with nothing in flight behind its FIN has put out. -/
theorem exists_segmented {S : List UInt8} {capacity : ℕ} {isn : WrappingInt32}
    {c : TCPConnection} (h : PutOut S capacity isn c) (hfin : FinAcked c.sender)
    (hqueue : c.sender.segmentsOut = []) :
    ∃ first, Segmented isn first S true ∧ ∀ seg ∈ first, ∃ p ∈ c.segmentsOut, p.SameData seg := by
  obtain ⟨q, first, fin, hsent, hwritten, -, hput⟩ := h
  have hfinSent := hsent.fin_of_next hfin.1
  have hsegmented := hsent.segmented
  rw [(hsent.ended hfinSent).2, List.take_length, hwritten, hfinSent] at hsegmented
  rw [hqueue, List.append_nil] at hput
  exact ⟨first, hsegmented, hput⟩

/-- A connection that ends without an error ends cleanly, whatever has arrived. -/
theorem run_ends_cleanly (cfg : TCPConfig) (actions : List Action) (a : Action)
    (hopen : Transition.Along Endpoint.step Endpoint.Open (Endpoint.start cfg) (actions ++ [a]))
    (hbound : (Endpoint.run cfg (actions ++ [a])).accepted.length + cfg.sendCapacity < 2 ^ 31)
    (hactive : (run cfg actions).active = true)
    (hclosed : (run cfg (actions ++ [a])).active = false)
    (herror : (run cfg (actions ++ [a])).sender.stream.error = false) :
    EndsCleanly cfg (actions ++ [a]) := by
  have h := Endpoint.recalls_run hopen hbound
  have hconn := Endpoint.conn_run cfg (actions ++ [a])
  have hstep := run_concat cfg actions a
  have helapsed : (run cfg (actions ++ [a])).timeSinceLastSegmentReceived ≤
      elapsed (actions ++ [a]) := by
    have hopen' := (Transition.along_concat _ _ _).mp hopen
    have hprefix := (Endpoint.run cfg actions).accepted_prefix_step a
    rw [← Endpoint.run_concat] at hprefix
    have hle := hprefix.length_le
    have hbefore := Endpoint.recalls_run hopen'.1 (by omega)
    have htime := hbefore.time
    rw [Endpoint.conn_run] at htime
    rw [hstep, elapsed, List.foldl_concat]
    exact time_step_le hactive (htime hactive) a
  cases step_ends (run cfg actions) a with
  | sent d hd heq =>
      have hlast : run cfg (actions ++ [a]) = d.sendData := hstep.trans heq
      rw [hlast] at hclosed helapsed
      obtain ⟨hended, heof, hflight, hreason⟩ :=
        finished_of_sendData d (hd.active_eq.trans hactive) hclosed
      have hsender : (run cfg (actions ++ [a])).sender = { d.sender with segmentsOut := [] } := by
        rw [hlast, sendData_sender]
      have hfin : FinAcked (Endpoint.run cfg (actions ++ [a])).conn.sender := by
        apply h.outbound.finAcked_of_eof h.finWaits
        · rw [hconn, hsender]
          exact heof
        · rw [hconn, hsender]
          exact hflight
      refine ⟨?_, ?_, h.acked hfin, ?_⟩
      · rw [hlast, inboundStream, sendData_receiver]
        exact hended
      · have hput := exists_segmented h.putOut hfin (by rw [hconn, hsender])
        rwa [hconn] at hput
      · rcases hreason with hlinger | htime
        · refine Or.inl (h.lingers ?_)
          rw [hconn, hlast]
          exact hlinger
        · rw [hd.cfg_eq, cfg_run] at htime
          rw [sendData_time] at helapsed
          exact Or.inr (le_trans htime helapsed)
  | kept hreach =>
      rw [hstep, hreach.active_eq, hactive] at hclosed
      exact absurd hclosed (by decide)
  | aborted hcfg hlinger herror' =>
      rw [hstep, herror'] at herror
      exact absurd herror (by decide)

/-- The peer closes first, and its acknowledgment of the FIN is the last segment. -/
theorem run_ends_cleanly_passive :
    EndsCleanly { recvCapacity := 4, sendCapacity := 4, isn := ⟨100⟩ } ([
      .segmentReceived { header := { seqno := ⟨7⟩, syn := true } },
      .segmentReceived { header := { seqno := ⟨8⟩, ackno := ⟨101⟩, ack := true, win := 4 } },
      .write [5],
      .segmentReceived
        { header := { seqno := ⟨8⟩, ackno := ⟨102⟩, ack := true, fin := true, win := 4 } },
      .endInputStream] ++
      [.segmentReceived
        { header := { seqno := ⟨9⟩, ackno := ⟨103⟩, ack := true, win := 4 } }]) :=
  run_ends_cleanly _ _ _ (by decide) (by decide) (by decide) (by decide) (by decide)

end TCPConnection

end NetworkLabs
