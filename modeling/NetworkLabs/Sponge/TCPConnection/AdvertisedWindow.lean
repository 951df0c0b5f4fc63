import NetworkLabs.Sponge.StreamReassembler.Push
import NetworkLabs.Sponge.ByteStream.Runs
import NetworkLabs.Sponge.TCPConnection.Replies
import NetworkLabs.Sponge.TCPReceiver.HonestPeer

/-!
# The window that a connection advertises

`window_size` is a `size_t`, and `_send_data` stores it in the 16 bits of the
header. What does not fit is cut off at the top, so a window that is a multiple of
`2 ^ 16` is advertised as closed. The field is the window, or the largest one that
can be expressed, exactly if the window fits or ends in sixteen ones.

As long as the cursor of the reader is in its range, the position of the
acknowledgment and the window add up to the bytes read and the capacity, and to one
more at the end of the input. This sum never gets smaller.
-/

namespace NetworkLabs

/-- A stream without room is full. -/
theorem ByteStream.bufferSize_eq_capacity (s : ByteStream) (hcap : s.capacity < 2 ^ 64)
    (h : s.remainingCapacity = 0) : s.bufferSize = s.capacity := by
  rw [remainingCapacity, sizeT, MachineInt.unsigned] at h
  have hlt : s.bufferSize < 2 ^ 64 := by
    rw [bufferSize, sizeT, MachineInt.unsigned]
    omega
  omega

namespace TCPReceiver

section

variable {P : ByteStream → Prop} {r : TCPReceiver} {seg : TCPSegment}

/-- The rule for the stream of a receiver. -/
theorem streamOut_segmentReceived_induction (hwrite : ∀ s data, P s → P (s.write data).1)
    (hend : ∀ s, P s → P s.endInput) (h : P r.streamOut) :
    P (r.segmentReceived seg).streamOut := by
  have hpush (streamIndex : ℕ) : P ((r.noteSyn seg).pushPayload seg streamIndex).streamOut := by
    apply StreamReassembler.output_pushSubstring_induction hwrite hend
    change P (r.noteSyn seg).streamOut
    rwa [noteSyn_streamOut]
  rw [segmentReceived]
  simp only
  cases (r.noteSyn seg).ackno with
  | none =>
      change P (r.noteSyn seg).streamOut
      rwa [noteSyn_streamOut]
  | some ackno =>
      simp only
      split_ifs
      · rwa [noteSyn_streamOut]
      · rwa [noteSyn_streamOut]
      · exact hpush _
      · exact hpush _

/-- The initial number is taken once. -/
theorem isn_segmentReceived (h : r.synReceived = true) :
    (r.segmentReceived seg).synReceived = true ∧ (r.segmentReceived seg).isn = r.isn := by
  have hnote : r.noteSyn seg = r := by
    rw [noteSyn, h, Bool.not_true, Bool.and_false, if_neg Bool.false_ne_true]
  rw [segmentReceived]
  simp only [hnote]
  cases r.ackno with
  | none => exact ⟨h, rfl⟩
  | some ackno =>
      simp only
      split_ifs
      · exact ⟨h, rfl⟩
      · exact ⟨h, rfl⟩
      · exact ⟨h, rfl⟩
      · exact ⟨h, rfl⟩

end

end TCPReceiver

namespace TCPConnection

/-- The receiver after it has taken what an action brings, in front of everything
that is sent. -/
def taken (c : TCPConnection) : Action → TCPReceiver
  | .segmentReceived seg => c.receiver.segmentReceived seg
  | .read len => (c.receiver.read len).1
  | _ => c.receiver

/-- The timer runs out once too often, and the connection is reset. -/
def GivesUp (c : TCPConnection) : Action → Prop
  | .tick ms => c.active = true ∧
      TCPConfig.MAX_RETX_ATTEMPTS < (c.sender.tick ms).consecutiveRetransmissions
  | _ => False

/-- The segment is emitted by the action, and the receiver has an acknowledgment
then. -/
def Advertises (c : TCPConnection) (a : Action) (seg : TCPSegment) : Prop :=
  seg ∈ pushes c (c.step a) ∧ (c.step a).receiver.ackno.isSome = true

/-- The window is expressed in 16 bits, or what is left of it is the largest one that
is; a reset carries the window 0. -/
def WindowFits (c : TCPConnection) (a : Action) : Prop :=
  (¬ c.GivesUp a ∧ ((c.taken a).windowSize ≤ 65535 ∨
    (c.taken a).windowSize % 65536 = 65535)) ∨
  (c.GivesUp a ∧ (c.taken a).windowSize = 0)

/-- What a run may advertise: the window, as far as it can be expressed, so that a
closed one stands for a full buffer, and no less than before. -/
structure Honest (cfg : TCPConfig) (actions : List Action) : Prop where
  win_eq : ∀ k (h : k < actions.length) seg,
    Advertises (run cfg (actions.take k)) actions[k] seg →
    seg.header.win.toNat = min (run cfg (actions.take (k + 1))).receiver.windowSize 65535
  full : ∀ k (h : k < actions.length) seg,
    Advertises (run cfg (actions.take k)) actions[k] seg → seg.header.win = 0 →
    (run cfg (actions.take (k + 1))).receiver.streamOut.bufferSize = cfg.recvCapacity
  ackno_eq : ∀ k (h : k < actions.length) seg,
    Advertises (run cfg (actions.take k)) actions[k] seg → seg.header.ack = true →
    seg.header.ackno = wrap (run cfg (actions.take (k + 1))).receiver.nextWrite
      (run cfg (actions.take (k + 1))).receiver.isn
  edge_le : cfg.recvCapacity ≤ 65535 → ∀ j k (hj : j < actions.length)
    (hk : k < actions.length) seg seg', j ≤ k →
    Advertises (run cfg (actions.take j)) actions[j] seg →
    Advertises (run cfg (actions.take k)) actions[k] seg' →
    (run cfg (actions.take (j + 1))).receiver.isn =
      (run cfg (actions.take (k + 1))).receiver.isn ∧
    (run cfg (actions.take (j + 1))).receiver.nextWrite + seg.header.win.toNat ≤
      (run cfg (actions.take (k + 1))).receiver.nextWrite + seg'.header.win.toNat

/-! ## What is emitted -/

section

variable {c : TCPConnection} {a : Action} {seg : TCPSegment}

/-- A segment is dropped or taken in silence, or the queue is sent in the end. -/
theorem dispatch_sends (c : TCPConnection) (seg : TCPSegment) :
    (c.dispatch seg).segmentsOut = c.segmentsOut ∨
    ∃ d : TCPConnection, c.dispatch seg = d.sendData ∧ d.segmentsOut = c.segmentsOut ∧
      d.receiver = c.receiver.segmentReceived seg := by
  have hread : ((c.readAckno seg).receive seg).segmentsOut = c.segmentsOut ∧
      ((c.readAckno seg).receive seg).receiver = c.receiver.segmentReceived seg := by
    obtain ⟨sender, hread⟩ := readAckno_frame c seg
    rw [hread]
    exact ⟨rfl, rfl⟩
  rcases dispatch_cases c seg with ⟨-, heq⟩ | heq | ⟨empty, fill, -, heq⟩
  · rw [heq]
    exact Or.inl rfl
  · rw [heq]
    exact Or.inl hread.1
  · obtain ⟨sender, hanswer⟩ := answer_frame ((c.readAckno seg).receive seg) empty fill
    exact Or.inr ⟨_, heq.trans hanswer, hread⟩

/-- An action sends what the queue of the sender holds, or resets, or sends
nothing. -/
theorem step_sends (c : TCPConnection) (a : Action) :
    (c.step a).segmentsOut = c.segmentsOut ∨
    (¬ c.GivesUp a ∧ ∃ d : TCPConnection, c.step a = d.sendData ∧
      d.segmentsOut = c.segmentsOut ∧ d.receiver = c.taken a) ∨
    (c.GivesUp a ∧ ∃ d : TCPConnection, c.step a = d.resetConnection ∧
      d.segmentsOut = c.segmentsOut ∧ d.receiver = c.taken a) := by
  cases a with
  | connect => exact Or.inr (Or.inl ⟨id, c.fillWindow, rfl, rfl, rfl⟩)
  | write data =>
      change (c.write data).1.segmentsOut = _ ∨ (_ ∧ ∃ d, (c.write data).1 = _ ∧ _) ∨ _
      rw [write]
      split_ifs
      · exact Or.inl rfl
      · exact Or.inr (Or.inl ⟨id, _, rfl, rfl, rfl⟩)
  | endInputStream => exact Or.inr (Or.inl ⟨id, _, rfl, rfl, rfl⟩)
  | read len => exact Or.inl rfl
  | tick ms =>
      change (c.tick ms).segmentsOut = _ ∨ (_ ∧ ∃ d, c.tick ms = _ ∧ _) ∨
        (_ ∧ ∃ d, c.tick ms = _ ∧ _)
      rw [tick]
      by_cases hactive : c.active = true
      · rw [hactive, Bool.not_true, if_neg Bool.false_ne_true]
        simp only
        split_ifs with hmax
        · exact Or.inr (Or.inr ⟨⟨hactive, hmax⟩, _, rfl, rfl, rfl⟩)
        · exact Or.inr (Or.inl ⟨fun h => hmax h.2, _, rfl, rfl, rfl⟩)
      · rw [Bool.not_eq_true] at hactive
        rw [hactive]
        exact Or.inl rfl
  | segmentReceived seg =>
      change (c.segmentReceived seg).segmentsOut = _ ∨
        (_ ∧ ∃ d, c.segmentReceived seg = _ ∧ _) ∨ _
      rw [segmentReceived]
      simp only
      split_ifs
      · exact Or.inl rfl
      · exact Or.inl rfl
      · rcases dispatch_sends { c with timeSinceLastSegmentReceived := 0 } seg with
          hsilent | ⟨d, heq, hout, htaken⟩
        · exact Or.inl hsilent
        · exact Or.inr (Or.inl ⟨id, d, heq, hout, htaken⟩)

/-- What an action emits is stamped by the receiver it leaves, or it is a reset. Sending
does not change the window. -/
theorem Advertises.cases (h : Advertises c a seg) :
    (c.step a).receiver.windowSize = (c.taken a).windowSize ∧
    ((¬ c.GivesUp a ∧ ∃ seg', seg = stamp (c.step a).receiver seg') ∨
      (c.GivesUp a ∧ seg = rstSegment)) := by
  obtain ⟨hmem, -⟩ := h
  rcases step_sends c a with hsilent | ⟨hnot, d, heq, hout, htaken⟩ |
    ⟨hgives, d, heq, hout, htaken⟩
  · rw [pushes, hsilent, List.drop_length] at hmem
    exact absurd hmem List.not_mem_nil
  · rw [heq, sendData_receiver, ← htaken]
    rw [heq, pushes_eq (by rw [sendData_segmentsOut, hout])] at hmem
    obtain ⟨seg', -, rfl⟩ := List.mem_map.mp hmem
    exact ⟨rfl, Or.inl ⟨hnot, seg', rfl⟩⟩
  · have hreset : d.resetConnection.segmentsOut = c.segmentsOut ++ [rstSegment] := by
      rw [← hout]
      rfl
    rw [heq, pushes_eq hreset] at hmem
    rw [heq, ← htaken]
    exact ⟨rfl, Or.inr ⟨hgives, List.mem_singleton.mp hmem⟩⟩

theorem Advertises.ackno_eq (h : Advertises c a seg) (hack : seg.header.ack = true) :
    seg.header.ackno = wrap (c.step a).receiver.nextWrite (c.step a).receiver.isn := by
  obtain ⟨-, ⟨-, seg', rfl⟩ | ⟨-, rfl⟩⟩ := h.cases
  · obtain ⟨ackno, hackno⟩ := Option.isSome_iff_exists.mp h.2
    have hvalue : ackno = wrap (c.step a).receiver.nextWrite (c.step a).receiver.isn := by
      rw [TCPReceiver.ackno] at hackno
      split_ifs at hackno
      exact (Option.some.inj hackno).symm
    rw [stamp, hackno]
    exact hvalue
  · exact absurd hack Bool.false_ne_true

theorem toNat_win_stamp (r : TCPReceiver) (seg : TCPSegment) (h : r.ackno.isSome = true) :
    (stamp r seg).header.win.toNat = r.windowSize % 65536 := by
  obtain ⟨ackno, hackno⟩ := Option.isSome_iff_exists.mp h
  rw [stamp, hackno]
  exact UInt16.toNat_ofNat'

/-- The field is the window as far as it can be expressed exactly if the window
fits. -/
theorem Advertises.win_eq_iff (h : Advertises c a seg) :
    seg.header.win.toNat = min (c.step a).receiver.windowSize 65535 ↔ c.WindowFits a := by
  obtain ⟨hwindow, ⟨hnot, seg', rfl⟩ | ⟨hgives, rfl⟩⟩ := h.cases
  · rw [toNat_win_stamp _ seg' h.2, hwindow, WindowFits, and_iff_right hnot,
      or_iff_left (not_and_of_not_left _ hnot)]
    omega
  · have hzero : rstSegment.header.win.toNat = 0 := rfl
    rw [hzero, hwindow, WindowFits, and_iff_right hgives,
      or_iff_right (not_and_of_not_left _ (not_not.mpr hgives))]
    omega

theorem Advertises.synReceived (h : Advertises c a seg) :
    (c.step a).receiver.synReceived = true := by
  have hsome := h.2
  rw [TCPReceiver.ackno] at hsome
  by_contra hnot
  rw [if_neg hnot] at hsome
  exact absurd hsome Bool.false_ne_true

/-- A closed window that is the window stands for a full buffer. -/
theorem bufferSize_eq_of_win_eq_zero (hfits : seg.header.win.toNat =
      min (c.step a).receiver.windowSize 65535) (hzero : seg.header.win = 0)
    (hcap : (c.step a).receiver.streamOut.capacity < 2 ^ 64) :
    (c.step a).receiver.streamOut.bufferSize = (c.step a).receiver.streamOut.capacity := by
  rw [hzero, TCPReceiver.windowSize] at hfits
  change 0 = min _ _ at hfits
  exact ByteStream.bufferSize_eq_capacity _ hcap (by omega)

end

/-! ## The stream of the receiver -/

section

variable {P : ByteStream → Prop} {c : TCPConnection}

/-- The rule for the stream of the receiver: what is not closed under reading has to
hold behind the action itself. -/
theorem streamOut_step_induction (hwrite : ∀ s data, P s → P (s.write data).1)
    (hend : ∀ s, P s → P s.endInput) (herror : ∀ s, P s → P s.setError) (a : Action)
    (h : P (c.enter a).receiver.streamOut) : P (c.step a).receiver.streamOut := by
  apply step_induction (P := fun d => P d.receiver.streamOut) a
  · exact fun _ => h
  · exact fun _ => h
  · exact fun seg _ _ _ _ => h
  · exact fun seg _ _ d hd => TCPReceiver.streamOut_segmentReceived_induction hwrite hend hd
  · exact fun d _ hd => hd
  · exact fun d hd => hd
  · intro d hd
    rwa [sendData_receiver]
  · exact fun d hd => herror _ hd
  · exact fun d hd => herror _ hd

/-- What an action does on its own leaves the stream of the receiver alone, unless it
reads. -/
theorem enter_receiver (c : TCPConnection) (a : Action) (h : ∀ len, a ≠ .read len) :
    (c.enter a).receiver = c.receiver := by
  cases a with
  | connect => rfl
  | write data =>
      rw [enter]
      split_ifs
      · rfl
      · rfl
  | endInputStream => rfl
  | read len => exact absurd rfl (h len)
  | tick ms =>
      rw [enter]
      split_ifs
      · rfl
      · rfl
  | segmentReceived seg =>
      rw [enter]
      split_ifs
      · rfl
      · rfl

theorem capacity_streamOut_step (c : TCPConnection) (a : Action) :
    (c.step a).receiver.streamOut.capacity = c.receiver.streamOut.capacity := by
  apply streamOut_step_induction (P := fun s => s.capacity = c.receiver.streamOut.capacity)
  · exact fun s data hs => hs
  · exact fun s hs => hs
  · exact fun s hs => hs
  · cases a with
    | read len => rfl
    | _ => rw [enter_receiver c _ (by simp)]

theorem capacity_streamOut_run (cfg : TCPConfig) (actions : List Action) :
    (run cfg actions).receiver.streamOut.capacity = cfg.recvCapacity :=
  Transition.foldl_invariant (fun c => c.receiver.streamOut.capacity = cfg.recvCapacity)
    (fun c a h => (capacity_streamOut_step c a).trans h) (new cfg) actions rfl

/-- The stream is counted by a queue, of which at least so much was read. -/
def Served (capacity readCount : ℕ) (ended : Bool) (s : ByteStream) : Prop :=
  ∃ q, ByteStream.Counts s q ∧ q.capacity = capacity ∧ readCount ≤ q.readCount ∧
    (ended = true → s.inputEnded = true)

/-- As long as the cursor of the reader stays in its range, the stream is that of a
queue, of which more and more is read. -/
theorem served_step {q : BoundedFifo UInt8} (h : ByteStream.Counts c.receiver.streamOut q)
    (a : Action) (hlt : q.capacity + (c.step a).receiver.streamOut.bytesRead < 2 ^ 31) :
    Served q.capacity q.readCount c.receiver.streamOut.inputEnded
      (c.step a).receiver.streamOut := by
  apply streamOut_step_induction
    (P := Served q.capacity q.readCount c.receiver.streamOut.inputEnded)
  · rintro s data ⟨q', hq', hcap, hread, hended⟩
    exact ⟨q'.push data, hq'.write data, hcap, hread, hended⟩
  · rintro s ⟨q', hq', hcap, hread, -⟩
    exact ⟨q', { hq' with }, hcap, hread, fun _ => rfl⟩
  · rintro s ⟨q', hq', hcap, hread, hended⟩
    exact ⟨q', { hq' with }, hcap, hread, hended⟩
  · cases a with
    | read len =>
        have hcount : (c.step (.read len)).receiver.streamOut.bytesRead =
          (q.pop len).readCount := h.readCnt_popOutput len
        rw [hcount] at hlt
        exact ⟨q.pop len, h.popOutput len hlt, rfl, Nat.le_add_right _ _, id⟩
    | _ =>
        rw [enter_receiver c _ (by simp)]
        exact ⟨q, h, rfl, le_rfl, id⟩

theorem edge_eq {r : TCPReceiver} {q : BoundedFifo UInt8} (h : ByteStream.Counts r.streamOut q) :
    r.nextWrite + r.windowSize =
      q.capacity + q.readCount + (if r.streamOut.inputEnded then 2 else 1) := by
  have hsize := q.size_add_readCount
  have hroom := q.room_add_size
  have hwritten : r.streamOut.bytesWritten = q.written.length := h.writeCnt_eq
  rw [TCPReceiver.windowSize, h.remainingCapacity_eq, TCPReceiver.nextWrite, hwritten]
  split_ifs
  · omega
  · omega

/-- The end of the window never moves back. -/
theorem edge_le_step {q : BoundedFifo UInt8} (h : ByteStream.Counts c.receiver.streamOut q)
    (a : Action) (hlt : q.capacity + (c.step a).receiver.streamOut.bytesRead < 2 ^ 31) :
    c.receiver.nextWrite + c.receiver.windowSize ≤
      (c.step a).receiver.nextWrite + (c.step a).receiver.windowSize := by
  obtain ⟨q', hq', hcap, hread, hended⟩ := served_step h a hlt
  rw [edge_eq h, edge_eq hq', hcap]
  split_ifs with hbefore hafter
  · omega
  · exact absurd (hended hbefore) hafter
  · omega
  · omega

/-- The initial number of the peer is fixed with the first acknowledgment. -/
theorem isn_step (h : c.receiver.synReceived = true) (a : Action) :
    (c.step a).receiver.synReceived = true ∧ (c.step a).receiver.isn = c.receiver.isn := by
  have henter : (c.enter a).receiver.synReceived = true ∧
      (c.enter a).receiver.isn = c.receiver.isn := by
    cases a with
    | read len => exact ⟨h, rfl⟩
    | _ =>
        rw [enter_receiver c _ (by simp)]
        exact ⟨h, rfl⟩
  apply step_induction (P := fun d => d.receiver.synReceived = true ∧
    d.receiver.isn = c.receiver.isn) a
  · exact fun _ => henter
  · exact fun _ => henter
  · exact fun seg _ _ _ _ => henter
  · intro seg _ _ d hd
    obtain ⟨hsyn, hisn⟩ := @TCPReceiver.isn_segmentReceived _ seg hd.1
    exact ⟨hsyn, hisn.trans hd.2⟩
  · exact fun d _ hd => hd
  · exact fun d hd => hd
  · intro d hd
    rwa [sendData_receiver]
  · exact fun d hd => hd
  · exact fun d hd => hd

end

/-! ## Runs -/

section

variable {cfg : TCPConfig} {actions : List Action}

theorem counts_take
    (hread : ∀ k, cfg.recvCapacity + (run cfg (actions.take k)).receiver.streamOut.bytesRead <
      2 ^ 31) (k : ℕ) (hk : k ≤ actions.length) :
    ∃ q, ByteStream.Counts (run cfg (actions.take k)).receiver.streamOut q ∧
      q.capacity = cfg.recvCapacity := by
  induction k with
  | zero =>
      have hcap := hread 0
      exact ⟨_, ByteStream.counts_new cfg.recvCapacity (by omega), rfl⟩
  | succ k ih =>
      obtain ⟨q, hq, hcap⟩ := ih (by omega)
      have hlt := hread (k + 1)
      rw [run_take_succ cfg actions hk] at hlt ⊢
      obtain ⟨q', hq', hcap', -⟩ := served_step hq actions[k] (by rwa [hcap])
      exact ⟨q', hq', hcap'.trans hcap⟩

theorem edge_le_take
    (hread : ∀ k, cfg.recvCapacity + (run cfg (actions.take k)).receiver.streamOut.bytesRead <
      2 ^ 31) {j k : ℕ} (hjk : j ≤ k) (hk : k ≤ actions.length) :
    (run cfg (actions.take j)).receiver.nextWrite +
        (run cfg (actions.take j)).receiver.windowSize ≤
      (run cfg (actions.take k)).receiver.nextWrite +
        (run cfg (actions.take k)).receiver.windowSize := by
  induction k, hjk using Nat.le_induction with
  | base => exact le_rfl
  | succ k hjk ih =>
      obtain ⟨q, hq, hcap⟩ := counts_take hread k (by omega)
      have hlt := hread (k + 1)
      refine le_trans (ih (by omega)) ?_
      rw [run_take_succ cfg actions hk] at hlt ⊢
      exact edge_le_step hq actions[k] (by rwa [hcap])

theorem isn_take {j k : ℕ} (hjk : j ≤ k) (hk : k ≤ actions.length)
    (h : (run cfg (actions.take j)).receiver.synReceived = true) :
    (run cfg (actions.take k)).receiver.synReceived = true ∧
      (run cfg (actions.take k)).receiver.isn = (run cfg (actions.take j)).receiver.isn := by
  induction k, hjk using Nat.le_induction with
  | base => exact ⟨h, rfl⟩
  | succ k hjk ih =>
      obtain ⟨hsyn, hisn⟩ := ih (by omega)
      rw [run_take_succ cfg actions hk]
      obtain ⟨hsyn', hisn'⟩ := isn_step hsyn actions[k]
      exact ⟨hsyn', hisn'.trans hisn⟩

end

/-- What a run advertises is honest exactly if every window fits when it is
advertised. -/
theorem run_honest_iff (cfg : TCPConfig) (actions : List Action)
    (hcap : cfg.recvCapacity < 2 ^ 64)
    (hread : cfg.recvCapacity ≤ 65535 → ∀ k,
      cfg.recvCapacity + (run cfg (actions.take k)).receiver.streamOut.bytesRead < 2 ^ 31) :
    Honest cfg actions ↔ ∀ k (h : k < actions.length) seg,
      Advertises (run cfg (actions.take k)) actions[k] seg →
      WindowFits (run cfg (actions.take k)) actions[k] := by
  constructor
  · intro h k hk seg hseg
    have hwin := h.win_eq k hk seg hseg
    rw [run_take_succ cfg actions hk] at hwin
    exact hseg.win_eq_iff.mp hwin
  · intro hfits
    have hwin : ∀ k (hk : k < actions.length) seg,
        Advertises (run cfg (actions.take k)) actions[k] seg → seg.header.win.toNat =
          min (run cfg (actions.take (k + 1))).receiver.windowSize 65535 := by
      intro k hk seg hseg
      rw [run_take_succ cfg actions hk]
      exact hseg.win_eq_iff.mpr (hfits k hk seg hseg)
    refine ⟨hwin, ?_, ?_, ?_⟩
    · intro k hk seg hseg hzero
      have hfits := hwin k hk seg hseg
      have hcapacity := capacity_streamOut_run cfg (actions.take (k + 1))
      rw [run_take_succ cfg actions hk] at hfits hcapacity ⊢
      exact (bufferSize_eq_of_win_eq_zero hfits hzero (by rwa [hcapacity])).trans hcapacity
    · intro k hk seg hseg hack
      rw [run_take_succ cfg actions hk]
      exact hseg.ackno_eq hack
    · intro hsmall j k hj hk seg seg' hjk hseg hseg'
      have hle : j + 1 ≤ k + 1 := Nat.add_le_add_right hjk 1
      have hedge := edge_le_take (hread hsmall) hle hk
      have hsyn : (run cfg (actions.take (j + 1))).receiver.synReceived = true := by
        rw [run_take_succ cfg actions hj]
        exact hseg.synReceived
      refine ⟨(isn_take hle hk hsyn).2.symm, ?_⟩
      obtain ⟨q, hq, hq'⟩ := counts_take (hread hsmall) (j + 1) hj
      obtain ⟨p, hp, hp'⟩ := counts_take (hread hsmall) (k + 1) hk
      have hroom := q.room_add_size
      have hroom' := p.room_add_size
      rw [hwin j hj seg hseg, hwin k hk seg' hseg']
      simp only [TCPReceiver.windowSize, hq.remainingCapacity_eq, hp.remainingCapacity_eq]
        at hedge ⊢
      omega

/-- A connection with a buffer of four bytes answers a SYN, and then a byte. -/
theorem run_honest_small :
    Honest { recvCapacity := 4, sendCapacity := 4, isn := ⟨7⟩ }
      [.segmentReceived { header := { seqno := ⟨100⟩, syn := true } },
        .segmentReceived
          { header := { seqno := ⟨101⟩, ackno := ⟨8⟩, ack := true, win := 9 },
            payload := [5] },
        .read 1] := by
  refine (run_honest_iff _ _ (by decide) ?_).mpr ?_
  · intro _ k
    match k with
    | 0 => decide
    | 1 => decide
    | 2 => decide
    | k + 3 =>
        rw [List.take_of_length_le (by simp)]
        decide
  · intro k hk seg _
    match k with
    | 0 => exact Or.inl ⟨id, Or.inl (Nat.le_of_ble_eq_true rfl)⟩
    | 1 => exact Or.inl ⟨id, Or.inl (Nat.le_of_ble_eq_true rfl)⟩
    | 2 => exact Or.inl ⟨id, Or.inl (Nat.le_of_ble_eq_true rfl)⟩

/-- With a buffer of `2 ^ 16` bytes the answer to a SYN closes the window, although the
buffer is empty. -/
theorem not_honest_large : ¬ ∀ (cfg : TCPConfig) (actions : List Action),
    cfg.recvCapacity < 2 ^ 64 → Honest cfg actions := by
  intro h
  have hrun := h { recvCapacity := 65536, sendCapacity := 4, isn := ⟨7⟩ }
    [.segmentReceived { header := { seqno := ⟨100⟩, syn := true } }] (by decide)
  have hfull := hrun.full 0 (by decide)
    { header := { seqno := ⟨7⟩, ackno := ⟨101⟩, ack := true, syn := true, win := 0 } }
    ⟨by decide +kernel, by decide +kernel⟩ rfl
  exact absurd hfull (by decide +kernel)

end TCPConnection

end NetworkLabs
