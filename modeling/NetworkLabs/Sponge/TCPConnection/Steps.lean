import NetworkLabs.Sponge.TCPConnection.Phase
import NetworkLabs.Sponge.TCPSender.Steps

/-!
# What the calls to a connection can do

A segment is dropped, or its acknowledgment is read if `readsAckno` says so, the
receiver takes it, and a reply is made up of an empty segment, a call to
`fill_window`, or both. What an action does is therefore a sequence of a few
calls, and what each of them keeps is kept by the action.
-/

namespace NetworkLabs

namespace TCPConnection

section Frame

variable (c : TCPConnection)

@[simp] theorem closeIfFinished_cfg : c.closeIfFinished.cfg = c.cfg := by
  rw [closeIfFinished]
  split_ifs
  all_goals rfl

@[simp] theorem closeIfFinished_receiver : c.closeIfFinished.receiver = c.receiver := by
  rw [closeIfFinished]
  split_ifs
  all_goals rfl

@[simp] theorem closeIfFinished_sender : c.closeIfFinished.sender = c.sender := by
  rw [closeIfFinished]
  split_ifs
  all_goals rfl

@[simp] theorem closeIfFinished_segmentsOut :
    c.closeIfFinished.segmentsOut = c.segmentsOut := by
  rw [closeIfFinished]
  split_ifs
  all_goals rfl

@[simp] theorem sendData_cfg : c.sendData.cfg = c.cfg :=
  closeIfFinished_cfg _

@[simp] theorem sendData_receiver : c.sendData.receiver = c.receiver :=
  closeIfFinished_receiver _

@[simp] theorem sendData_sender :
    c.sendData.sender = { c.sender with segmentsOut := [] } :=
  closeIfFinished_sender _

@[simp] theorem sendData_segmentsOut : c.sendData.segmentsOut =
    c.segmentsOut ++ c.sender.segmentsOut.map (stamp c.receiver) :=
  closeIfFinished_segmentsOut _

/-- The connection ends in `_send_data` only once the input has ended and all
that was sent is acknowledged. -/
theorem active_sendData (h : c.sendData.active = false) : c.active = false ∨
    (c.receiver.streamOut.inputEnded = true ∧ c.sender.stream.eof = true ∧
      c.sender.bytesInFlight = 0) := by
  rw [sendData, closeIfFinished] at h
  split_ifs at h with hended heof hflight hlinger
  · exact Or.inl h
  · simp only [Bool.not_eq_true', Bool.not_eq_false] at heof
    exact Or.inr ⟨hended, heof, hflight⟩
  · exact Or.inl h
  · exact Or.inl h
  · exact Or.inl h

/-- An acknowledgment that is read changes the sender only. -/
theorem readAckno_frame (c : TCPConnection) (seg : TCPSegment) :
    ∃ sender, c.readAckno seg = { c with sender := sender } := by
  rw [readAckno]
  split_ifs
  · exact ⟨_, rfl⟩
  · exact ⟨_, rfl⟩

/-- What an answer does before it sends changes the sender only. -/
theorem answer_frame (c : TCPConnection) (empty fill : Bool) :
    ∃ sender, c.answer empty fill = { c with sender := sender }.sendData := by
  rw [answer]
  cases empty
  · cases fill
    · exact ⟨_, rfl⟩
    · exact ⟨_, rfl⟩
  · cases fill
    · exact ⟨_, rfl⟩
    · exact ⟨_, rfl⟩

end Frame

/-- The three ways through the branches of `segment_received`: the segment is
dropped, it is taken without an answer, or it is answered. -/
theorem dispatch_cases (c : TCPConnection) (seg : TCPSegment) :
    (c.readsAckno seg = false ∧ c.dispatch seg = c) ∨
    c.dispatch seg = (c.readAckno seg).receive seg ∨
    ∃ empty fill, (empty = true → c.sender.nextSeqnoAbsolute ≠ 0) ∧
      c.dispatch seg = ((c.readAckno seg).receive seg).answer empty fill := by
  have hopen : c.phase ≠ .closed → c.sender.nextSeqnoAbsolute ≠ 0 := next_ne_zero
  rw [dispatch_eq, readsAckno_eq, reply]
  cases hphase : c.phase with
  | closed =>
      cases seg.header.syn
      · exact Or.inl ⟨rfl, rfl⟩
      · exact Or.inr (Or.inr ⟨false, true, by simp, rfl⟩)
  | synSent =>
      cases seg.header.syn
      · exact Or.inl ⟨rfl, rfl⟩
      · exact Or.inr (Or.inr ⟨true, false, fun _ => hopen (by simp [hphase]), rfl⟩)
  | synRevd => exact Or.inr (Or.inl rfl)
  | established => exact Or.inr (Or.inr ⟨_, true, fun _ => hopen (by simp [hphase]), rfl⟩)
  | finWait1 =>
      cases seg.header.fin
      · cases seg.header.ack
        · exact Or.inl ⟨rfl, rfl⟩
        · exact Or.inr (Or.inr ⟨false, false, by simp, rfl⟩)
      · exact Or.inr (Or.inr ⟨true, false, fun _ => hopen (by simp [hphase]), rfl⟩)
  | finWait2 => exact Or.inr (Or.inr ⟨true, false, fun _ => hopen (by simp [hphase]), rfl⟩)
  | timeWait =>
      cases seg.header.fin
      · exact Or.inl ⟨rfl, rfl⟩
      · exact Or.inr (Or.inr ⟨true, false, fun _ => hopen (by simp [hphase]), rfl⟩)
  | other => exact Or.inr (Or.inr ⟨false, true, by simp, rfl⟩)

/-! ## The calls of an action -/

/-- What an action does on its own, in front of the calls that follow from
it. -/
def enter (c : TCPConnection) : Action → TCPConnection
  | .connect => c
  | .write data =>
      if data = [] then c
      else { c with sender := { c.sender with stream := (c.sender.stream.write data).1 } }
  | .endInputStream => { c with sender := { c.sender with stream := c.sender.stream.endInput } }
  | .read len => (c.read len).1
  | .tick ms =>
      if !c.active then c
      else { c with
        timeSinceLastSegmentReceived := sizeT (c.timeSinceLastSegmentReceived + ms)
        sender := c.sender.tick ms }
  | .segmentReceived _ =>
      if !c.active then c else { c with timeSinceLastSegmentReceived := 0 }

section Induction

variable {P : TCPConnection → Prop} {c : TCPConnection}

/-- The rule for what an action does on its own. -/
theorem enter_induction (a : Action) (hc : P c)
    (hwrite : ∀ data,
      P { c with sender := { c.sender with stream := (c.sender.stream.write data).1 } })
    (hend : P { c with sender := { c.sender with stream := c.sender.stream.endInput } })
    (hread : ∀ len, P (c.read len).1)
    (htick : ∀ ms, P { c with
      timeSinceLastSegmentReceived := sizeT (c.timeSinceLastSegmentReceived + ms)
      sender := c.sender.tick ms })
    (harrival : P { c with timeSinceLastSegmentReceived := 0 }) : P (c.enter a) := by
  cases a with
  | connect => exact hc
  | write data =>
      rw [enter]
      split_ifs
      · exact hc
      · exact hwrite data
  | endInputStream => exact hend
  | read len => exact hread len
  | tick ms =>
      rw [enter]
      split_ifs
      · exact hc
      · exact htick ms
  | segmentReceived seg =>
      rw [enter]
      split_ifs
      · exact hc
      · exact harrival

/-- The rule for `segment_received` behind the test for RST: the segment is read and
taken, and everything else follows from calls that keep `P`. -/
theorem dispatch_induction {seg : TCPSegment} (hc : P c)
    (hread : P ((c.readAckno seg).receive seg))
    (hempty : ∀ d, d.sender.nextSeqnoAbsolute ≠ 0 → P d → P d.sendEmptySegment)
    (hfill : ∀ d, P d → P d.fillWindow) (hsend : ∀ d, P d → P d.sendData) :
    P (c.dispatch seg) := by
  have hnext : c.sender.nextSeqnoAbsolute ≤ (c.readAckno seg).sender.nextSeqnoAbsolute := by
    rw [readAckno]
    split_ifs
    · exact TCPSender.next_le_ackReceived _ _ _
    · exact le_rfl
  rcases dispatch_cases c seg with ⟨-, heq⟩ | heq | ⟨empty, fill, hopen, heq⟩
  · rw [heq]
    exact hc
  · rw [heq]
    exact hread
  · have hanswer : P (if empty then ((c.readAckno seg).receive seg).sendEmptySegment
        else (c.readAckno seg).receive seg) := by
      split_ifs with hflag
      · apply hempty _ _ hread
        have hne := hopen hflag
        change (c.readAckno seg).sender.nextSeqnoAbsolute ≠ 0
        omega
      · exact hread
    rw [heq]
    apply hsend
    cases fill
    · exact hanswer
    · exact hfill _ hanswer

/-- The rule for all actions. The end of the input and the call to `fill_window`
behind it are one step, and so is what is read and taken of a segment. -/
theorem step_induction_received (a : Action)
    (henter : a ≠ .endInputStream → P (c.enter a))
    (hend : a = .endInputStream → P (c.enter a).fillWindow)
    (hread : ∀ seg, a = .segmentReceived seg → seg.header.rst = false → c.active = true →
      P (((c.enter a).readAckno seg).receive seg))
    (hempty : ∀ d, d.sender.nextSeqnoAbsolute ≠ 0 → P d → P d.sendEmptySegment)
    (hfill : ∀ d, P d → P d.fillWindow) (hsend : ∀ d, P d → P d.sendData)
    (habort : ∀ d, P d → P d.abort) (hreset : ∀ d, P d → P d.resetConnection) :
    P (c.step a) := by
  cases a with
  | connect => exact hsend _ (hfill _ (henter nofun))
  | write data =>
      have hwrite := henter nofun
      change P (c.write data).1
      rw [enter] at hwrite
      rw [write]
      split_ifs at hwrite ⊢
      · exact hwrite
      · exact hsend _ (hfill _ hwrite)
  | endInputStream => exact hsend _ (hend rfl)
  | read len => exact henter nofun
  | tick ms =>
      have htick := henter nofun
      change P (c.tick ms)
      rw [enter] at htick
      rw [tick]
      split_ifs at htick ⊢
      · exact htick
      · simp only
        split_ifs
        · exact hreset _ htick
        · exact hsend _ htick
  | segmentReceived seg =>
      have htime := henter nofun
      change P (c.segmentReceived seg)
      rw [segmentReceived]
      split_ifs with hactive hrst
      · rwa [enter, if_pos hactive] at htime
      · rw [enter, if_neg hactive] at htime
        exact habort _ htime
      · rw [Bool.not_eq_true] at hrst
        have hreceived := hread seg rfl hrst (by simpa using hactive)
        rw [enter, if_neg hactive] at htime hreceived
        exact dispatch_induction htime hreceived hempty hfill hsend

/-- The rule for invariants that each call keeps. -/
theorem step_induction (a : Action)
    (henter : a ≠ .endInputStream → P (c.enter a))
    (hend : a = .endInputStream → P (c.enter a).fillWindow)
    (hack : ∀ seg, a = .segmentReceived seg → seg.header.rst = false → c.active = true →
      (c.enter a).readsAckno seg = true → P ((c.enter a).ackReceived seg))
    (hreceive : ∀ seg, a = .segmentReceived seg → seg.header.rst = false →
      ∀ d, P d → P (d.receive seg))
    (hempty : ∀ d, d.sender.nextSeqnoAbsolute ≠ 0 → P d → P d.sendEmptySegment)
    (hfill : ∀ d, P d → P d.fillWindow) (hsend : ∀ d, P d → P d.sendData)
    (habort : ∀ d, P d → P d.abort) (hreset : ∀ d, P d → P d.resetConnection) :
    P (c.step a) := by
  refine step_induction_received a henter hend ?_ hempty hfill hsend habort hreset
  intro seg ha hrst hactive
  apply hreceive seg ha hrst
  rw [readAckno]
  split_ifs with hreads
  · exact hack seg ha hrst hactive hreads
  · apply henter
    rw [ha]
    exact Action.noConfusion

end Induction

/-- A run one action longer. -/
theorem run_take_succ (cfg : TCPConfig) (actions : List Action) {k : ℕ} (h : k < actions.length) :
    run cfg (actions.take (k + 1)) = (run cfg (actions.take k)).step actions[k] := by
  rw [List.take_add_one, List.getElem?_eq_getElem h, run, List.foldl_append]
  rfl

end TCPConnection

end NetworkLabs
