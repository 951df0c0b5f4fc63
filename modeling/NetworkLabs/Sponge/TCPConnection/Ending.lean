import NetworkLabs.Sponge.TCPConnection.Silence

/-!
# How an action ends

Every call but `read` ends with `_send_data`, unless it does nothing at all, or
resets the connection. There the connection learns that its peer was the first
to close, and there it ends. The time since the last segment is only moved by
ticks and segments.
-/

namespace NetworkLabs

namespace TCPConnection

section

variable (c : TCPConnection)

@[simp] theorem closeIfFinished_time :
    c.closeIfFinished.timeSinceLastSegmentReceived = c.timeSinceLastSegmentReceived := by
  rw [closeIfFinished]
  split_ifs
  all_goals rfl

@[simp] theorem sendData_time :
    c.sendData.timeSinceLastSegmentReceived = c.timeSinceLastSegmentReceived :=
  closeIfFinished_time _

@[simp] theorem fillWindow_sendData_time :
    c.fillWindow.sendData.timeSinceLastSegmentReceived = c.timeSinceLastSegmentReceived :=
  closeIfFinished_time _

/-- The connection will not linger if its input ended first. -/
theorem lingers_sendData (h : c.sendData.lingerAfterStreamsFinish = false) :
    c.lingerAfterStreamsFinish = false ∨
      (c.receiver.streamOut.inputEnded = true ∧ c.sender.stream.eof = false) := by
  rw [sendData, closeIfFinished] at h
  split_ifs at h with hended heof
  · rw [Bool.not_eq_true'] at heof
    exact Or.inr ⟨hended, heof⟩
  · exact Or.inl h
  · exact Or.inl h
  · exact Or.inl h
  · exact Or.inl h

/-- When `_send_data` ends a connection, all is done, and there is no reason to
linger. -/
theorem finished_of_sendData (hactive : c.active = true) (h : c.sendData.active = false) :
    c.receiver.streamOut.inputEnded = true ∧ c.sender.stream.eof = true ∧
      c.sender.bytesInFlight = 0 ∧ (c.sendData.lingerAfterStreamsFinish = false ∨
        10 * c.cfg.rtTimeout.toNat ≤ c.timeSinceLastSegmentReceived) := by
  rw [sendData, closeIfFinished] at h ⊢
  split_ifs at h ⊢ with hended heof hflight hlinger
  · exact absurd (hactive.symm.trans h) (by decide)
  · rw [Bool.not_eq_true', Bool.not_eq_false] at heof
    refine ⟨hended, heof, hflight, ?_⟩
    rw [Bool.or_eq_true, Bool.not_eq_true', decide_eq_true_eq] at hlinger
    exact hlinger
  · exact absurd (hactive.symm.trans h) (by decide)
  · exact absurd (hactive.symm.trans h) (by decide)
  · exact absurd (hactive.symm.trans h) (by decide)

end

section

variable {c : TCPConnection}

/-- The connection `d` stands for `c` at the last `_send_data` of an action. -/
structure Reaches (c d : TCPConnection) : Prop where
  cfg_eq : d.cfg = c.cfg
  linger_eq : d.lingerAfterStreamsFinish = c.lingerAfterStreamsFinish
  active_eq : d.active = c.active

/-- The action leaves the connection `e`: it ends with `_send_data`, or it leaves
`c` as active as it was, or it resets it. -/
inductive Ends (c e : TCPConnection) : Prop where
  | sent (d : TCPConnection) (hd : Reaches c d) (heq : e = d.sendData)
  | kept (hreach : Reaches c e)
  | aborted (hcfg : e.cfg = c.cfg)
      (hlinger : e.lingerAfterStreamsFinish = c.lingerAfterStreamsFinish)
      (herror : e.sender.stream.error = true)

theorem ends_answer {e : TCPConnection} (h : Reaches c e) (empty fill : Bool) :
    Ends c (e.answer empty fill) := by
  obtain ⟨sender, hanswer⟩ := answer_frame e empty fill
  have hd : Reaches c { e with sender := sender } := ⟨h.cfg_eq, h.linger_eq, h.active_eq⟩
  exact Ends.sent _ hd hanswer

theorem reaches_readAckno {e : TCPConnection} (h : Reaches c e) (seg : TCPSegment) :
    Reaches c ((e.readAckno seg).receive seg) := by
  obtain ⟨sender, hread⟩ := readAckno_frame e seg
  rw [hread]
  exact ⟨h.cfg_eq, h.linger_eq, h.active_eq⟩

theorem step_ends (c : TCPConnection) (a : Action) : Ends c (c.step a) := by
  have hself : Reaches c c := ⟨rfl, rfl, rfl⟩
  cases a with
  | connect => exact ends_answer hself false true
  | write data =>
      change Ends c (c.write data).1
      rw [write]
      split_ifs
      · exact Ends.kept hself
      · exact ends_answer (c := c) (e := { c with sender := { c.sender with
          stream := (c.sender.stream.write data).1 } }) ⟨rfl, rfl, rfl⟩ false true
  | endInputStream =>
      exact ends_answer (c := c) (e := { c with sender := { c.sender with
        stream := c.sender.stream.endInput } }) ⟨rfl, rfl, rfl⟩ false true
  | read len => exact Ends.kept ⟨rfl, rfl, rfl⟩
  | tick ms =>
      change Ends c (c.tick ms)
      rw [tick]
      simp only
      split_ifs
      · exact Ends.kept hself
      · exact Ends.aborted rfl rfl rfl
      · refine Ends.sent _ ?_ rfl
        exact ⟨rfl, rfl, rfl⟩
  | segmentReceived seg =>
      have harrival : Reaches c c.noteArrival := ⟨rfl, rfl, rfl⟩
      have hread := reaches_readAckno harrival seg
      change Ends c (c.segmentReceived seg)
      rw [segmentReceived]
      simp only
      split_ifs
      · exact Ends.kept hself
      · exact Ends.aborted rfl rfl rfl
      · change Ends c (c.noteArrival.dispatch seg)
        rcases dispatch_cases c.noteArrival seg with ⟨-, heq⟩ | heq | ⟨empty, fill, -, heq⟩
        · rw [heq]
          exact Ends.kept harrival
        · rw [heq]
          exact Ends.kept hread
        · rw [heq]
          exact ends_answer hread empty fill

theorem cfg_run (cfg : TCPConfig) (actions : List Action) : (run cfg actions).cfg = cfg :=
  Transition.foldl_invariant (fun c : TCPConnection => c.cfg = cfg)
    (fun c a h => by
      cases step_ends c a with
      | sent d hd heq => rw [heq, sendData_cfg, hd.cfg_eq, h]
      | kept hreach => rw [hreach.cfg_eq, h]
      | aborted hcfg hlinger herror => rw [hcfg, h]) (new cfg) actions rfl

/-! ## The time since the last segment -/

/-- The ticks since the last segment, after one more action. -/
def elapse (n : ℕ) : Action → ℕ
  | .tick ms => n + ms
  | .segmentReceived _ => 0
  | .connect => n
  | .write _ => n
  | .endInputStream => n
  | .read _ => n

/-- The ticks since the last segment of a run. -/
def elapsed (actions : List Action) : ℕ := actions.foldl elapse 0

theorem time_dispatch (c : TCPConnection) (seg : TCPSegment) :
    (c.dispatch seg).timeSinceLastSegmentReceived = c.timeSinceLastSegmentReceived := by
  have hread : ((c.readAckno seg).receive seg).timeSinceLastSegmentReceived =
      c.timeSinceLastSegmentReceived := by
    obtain ⟨sender, hread⟩ := readAckno_frame c seg
    rw [hread]
    rfl
  rcases dispatch_cases c seg with ⟨-, heq⟩ | heq | ⟨empty, fill, -, heq⟩
  · rw [heq]
  · rw [heq, hread]
  · obtain ⟨sender, hanswer⟩ := answer_frame ((c.readAckno seg).receive seg) empty fill
    rw [heq, hanswer, sendData_time]
    exact hread

/-- The connection never counts more than has elapsed. -/
theorem time_step_le {n : ℕ} (hactive : c.active = true)
    (h : c.timeSinceLastSegmentReceived ≤ n) (a : Action) :
    (c.step a).timeSinceLastSegmentReceived ≤ elapse n a := by
  cases a with
  | connect => exact (fillWindow_sendData_time c).trans_le h
  | write data =>
      change (c.write data).1.timeSinceLastSegmentReceived ≤ n
      rw [write]
      split_ifs
      · exact h
      · exact (fillWindow_sendData_time _).trans_le h
  | endInputStream => exact (fillWindow_sendData_time _).trans_le h
  | read len => exact h
  | tick ms =>
      have hstored : sizeT (c.timeSinceLastSegmentReceived + ms) ≤
          c.timeSinceLastSegmentReceived + ms := by
        rw [← Nat.cast_add]
        exact MachineInt.unsigned_natCast_le 64 _
      have hwrap := le_trans hstored (Nat.add_le_add_right h ms)
      change (c.tick ms).timeSinceLastSegmentReceived ≤ n + ms
      rw [tick, if_neg (by simp [hactive])]
      simp only
      split_ifs
      · exact hwrap
      · rw [sendData_time]
        exact hwrap
  | segmentReceived seg =>
      change (c.segmentReceived seg).timeSinceLastSegmentReceived ≤ 0
      rw [segmentReceived, if_neg (by simp [hactive])]
      simp only
      split_ifs
      · exact le_rfl
      · rw [time_dispatch]

end

end TCPConnection

end NetworkLabs
