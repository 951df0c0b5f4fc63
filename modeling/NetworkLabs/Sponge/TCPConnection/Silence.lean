import NetworkLabs.Sponge.TCPConnection.Replies

/-!
# Connections that are over

Nothing makes a connection active again, and ticks and segments do nothing to one
that is over. The three calls of the owner that send something do not ask. After
the end they put out what the sender still has in its queue, for instance the
segment that the last tick wanted to send again, and whatever `fill_window`
sends.
-/

namespace NetworkLabs

namespace TCPConnection

open TCPSender

theorem active_of_sendData {d : TCPConnection} (h : d.active = false) :
    d.sendData.active = false := by
  rw [sendData, closeIfFinished]
  split_ifs
  · exact h
  · rfl
  · exact h
  · exact h
  · exact h

/-- No action makes a connection active. -/
theorem active_step_of_dead {c : TCPConnection} (h : c.active = false) (a : Action) :
    (c.step a).active = false := by
  cases a with
  | connect => exact active_of_sendData h
  | write data =>
      change (c.write data).1.active = false
      rw [write]
      split_ifs
      · exact h
      · exact active_of_sendData h
  | endInputStream => exact active_of_sendData h
  | read len => exact h
  | tick ms =>
      change (c.tick ms).active = false
      rw [tick, h]
      exact h
  | segmentReceived seg =>
      change (c.segmentReceived seg).active = false
      rw [segmentReceived, h]
      exact h

/-- The sender would put out nothing: its queue is empty, and `fill_window` sends
nothing. -/
def HasNothing (s : TCPSender) : Prop := s.segmentsOut = [] ∧ ¬ s.Sends

instance : DecidablePred HasNothing := fun s =>
  inferInstanceAs (Decidable (s.segmentsOut = [] ∧ ¬ s.Sends))

theorem segmentsOut_fill_sendData_iff (d : TCPConnection) :
    d.fillWindow.sendData.segmentsOut = d.segmentsOut ↔ HasNothing d.sender := by
  obtain ⟨new, hnew, hiff⟩ := d.sender.exists_fillWindow
  rw [sendData_segmentsOut]
  change d.segmentsOut ++ d.sender.fillWindow.segmentsOut.map (stamp d.receiver) = _ ↔ _
  rw [hnew.out_eq, List.append_right_eq_self, List.map_eq_nil_iff, List.append_eq_nil_iff,
    HasNothing, ← hiff, not_not]

/-- The action puts nothing out when the connection is over: a call of the owner
finds nothing that the sender would send. -/
def Silent (c : TCPConnection) : Action → Prop
  | .connect => HasNothing c.sender
  | .write data =>
      data = [] ∨ HasNothing { c.sender with stream := (c.sender.stream.write data).1 }
  | .endInputStream => HasNothing { c.sender with stream := c.sender.stream.endInput }
  | .read _ => True
  | .tick _ => True
  | .segmentReceived _ => True

theorem segmentsOut_step_iff {c : TCPConnection} (h : c.active = false) (a : Action) :
    (c.step a).segmentsOut = c.segmentsOut ↔ c.Silent a := by
  cases a with
  | connect => exact segmentsOut_fill_sendData_iff c
  | write data =>
      change (c.write data).1.segmentsOut = c.segmentsOut ↔ data = [] ∨ _
      rw [write]
      by_cases hdata : data = []
      · rw [if_pos hdata]
        exact iff_of_true rfl (Or.inl hdata)
      · rw [if_neg hdata, or_iff_right hdata]
        exact segmentsOut_fill_sendData_iff
          { c with sender := { c.sender with stream := (c.sender.stream.write data).1 } }
  | endInputStream =>
      exact segmentsOut_fill_sendData_iff
        { c with sender := { c.sender with stream := c.sender.stream.endInput } }
  | read len => exact iff_of_true rfl trivial
  | tick ms =>
      change (c.tick ms).segmentsOut = _ ↔ True
      rw [tick, h]
      exact iff_of_true rfl trivial
  | segmentReceived seg =>
      change (c.segmentReceived seg).segmentsOut = _ ↔ True
      rw [segmentReceived, h]
      exact iff_of_true rfl trivial

/-- A connection that is over stays over and silent exactly in those runs in
which, from then on, its owner only makes calls that find nothing to send. -/
theorem run_dead_silent_iff (cfg : TCPConfig) (actions : List Action) :
    (∀ j k, j ≤ k → (run cfg (actions.take j)).active = false →
      (run cfg (actions.take k)).active = false ∧
        (run cfg (actions.take k)).segmentsOut = (run cfg (actions.take j)).segmentsOut) ↔
      Transition.Along step (fun c a => c.active = false → c.Silent a) (new cfg) actions := by
  rw [Transition.along_iff_forall_getElem]
  constructor
  · intro hdead k hk hover
    have hstep := (hdead k (k + 1) (Nat.le_succ k) hover).2
    rw [run_take_succ cfg actions hk] at hstep
    exact (segmentsOut_step_iff hover _).mp hstep
  · intro hsilent j k hjk hover
    induction k, hjk using Nat.le_induction with
    | base => exact ⟨hover, rfl⟩
    | succ k _ ih =>
        by_cases hk : k < actions.length
        · have hpush := (segmentsOut_step_iff ih.1 _).mpr (hsilent k hk ih.1)
          rw [run_take_succ cfg actions hk]
          exact ⟨active_step_of_dead ih.1 _, hpush.trans ih.2⟩
        · have hlast : actions.take (k + 1) = actions.take k := by
            rw [List.take_of_length_le (not_lt.mp hk),
              List.take_of_length_le (le_trans (not_lt.mp hk) (Nat.le_succ k))]
          rw [hlast]
          exact ih

/-- A connection that was reset by its peer is opened again. -/
theorem not_silent_connect :
    ¬ ∀ (cfg : TCPConfig) (actions : List Action) (a : Action),
      (run cfg actions).active = false →
        ((run cfg actions).step a).segmentsOut = (run cfg actions).segmentsOut := by
  intro h
  have hconnect := h { recvCapacity := 4, sendCapacity := 4, isn := ⟨100⟩ }
    [.segmentReceived { header := { rst := true } }] .connect (by decide)
  exact absurd hconnect (by decide)

end TCPConnection

end NetworkLabs
