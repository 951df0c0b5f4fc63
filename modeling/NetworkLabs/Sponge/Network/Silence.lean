import NetworkLabs.Sponge.Network.Exchange
import NetworkLabs.Sponge.TCPConnection.Addressing

/-!
# An exchange dies out

Without ticks and calls of the applications two connections only answer each other.
Every delivery of a segment takes it from the network and may put others there.
What an endpoint has not sent yet can be sent once, and its FIN is acknowledged
once. A delivery without such progress puts out what was waiting in the queue, and
one empty segment at most: for a segment that occupies sequence numbers, or in
FIN-WAIT-2, for any segment. An empty segment on its way to an endpoint in
FIN-WAIT-2 therefore weighs more than another one, and less than one that occupies
sequence numbers. The weight of what is on its way decreases, because the two
endpoints are not in FIN-WAIT-2 together.
-/

namespace NetworkLabs

open TCPConnection
open TCPSender (FinAcked Outstanding Extends total)

namespace TCPSender

instance (s : TCPSender) : Decidable (FinAcked s) :=
  inferInstanceAs (Decidable (_ ∧ _))

end TCPSender

namespace TCPConnection

/-- An empty segment answers one that occupies sequence numbers, or any in
FIN-WAIT-2. -/
theorem of_reply_empty {c : TCPConnection} {seg : TCPSegment} {fill : Bool}
    (h : c.reply seg = .answered true fill) :
    0 < seg.lengthInSequenceSpace ∨ c.phase = .finWait2 := by
  rw [reply] at h
  cases hphase : c.phase with
  | closed =>
      rw [hphase] at h
      simp only at h
      split_ifs at h
      cases h
  | synSent =>
      rw [hphase] at h
      simp only at h
      split_ifs at h with hsyn
      exact Or.inl (length_pos_of_syn hsyn)
  | synRevd =>
      rw [hphase] at h
      cases h
  | established =>
      rw [hphase] at h
      injection h with hlength
      exact Or.inl (of_decide_eq_true hlength)
  | finWait1 =>
      rw [hphase] at h
      simp only at h
      split_ifs at h with hfin hack
      · exact Or.inl (length_pos_of_fin hfin)
      · cases h
  | finWait2 => exact Or.inr rfl
  | timeWait =>
      rw [hphase] at h
      simp only at h
      split_ifs at h with hfin
      exact Or.inl (length_pos_of_fin hfin)
  | other =>
      rw [hphase] at h
      cases h

/-- What a segment provokes when nothing is transmitted: nothing at all, or the
queue is put out, and one empty segment at most. -/
def Provokes (c : TCPConnection) (seg : TCPSegment) : Prop :=
  let d := c.segmentReceived seg
  (pushes c d = [] ∧ d.sender.segmentsOut = c.sender.segmentsOut) ∨
  ∃ (empty : Bool) (s : TCPSender) (r : TCPReceiver), d.sender.segmentsOut = [] ∧
    (empty = true → 0 < seg.lengthInSequenceSpace ∨ c.phase = .finWait2) ∧
    pushes c d = (c.sender.segmentsOut ++ if empty then [s.emptySegment] else []).map (stamp r)

theorem exists_provokes (c : TCPConnection) (seg : TCPSegment) :
    ∃ new, Extends c.sender (c.segmentReceived seg).sender new ∧ (new = [] → c.Provokes seg) := by
  have hquiet : ∀ d : TCPConnection, d.segmentsOut = c.segmentsOut → pushes c d = [] := by
    intro d hd
    exact pushes_eq (by rw [hd, List.append_nil])
  by_cases hactive : c.active = true
  · cases hrst : seg.header.rst with
    | true =>
        have hstep : c.segmentReceived seg = c.noteArrival.abort := by
          rw [segmentReceived, if_neg (by simp [hactive])]
          exact if_pos hrst
        refine ⟨[], ?_, fun _ => Or.inl ?_⟩
        · rw [hstep]
          exact (Extends.refl _).of_eq rfl rfl rfl
        · rw [hstep]
          exact ⟨hquiet _ rfl, rfl⟩
    | false =>
        have hstep := segmentReceived_eq hactive hrst
        obtain ⟨old, hext, hqueue⟩ := exists_readAckno_extends c.noteArrival seg
        cases hreply : c.reply seg with
        | dropped =>
            rw [hreply] at hstep
            refine ⟨[], ?_, fun _ => Or.inl ?_⟩
            · rw [hstep]
              exact Extends.refl _
            · rw [hstep]
              exact ⟨hquiet _ rfl, rfl⟩
        | taken =>
            rw [hreply] at hstep
            refine ⟨old, ?_, fun hnone => Or.inl ?_⟩
            · rw [hstep]
              exact hext
            · rw [hnone, List.append_nil] at hqueue
              rw [hstep]
              exact ⟨hquiet _ (readAckno_segmentsOut _ seg), hqueue⟩
        | answered empty fill =>
            rw [hreply] at hstep
            obtain ⟨new, hlast, hnone, -, -, -, hpush⟩ := exists_answer_extends
              (d := (c.noteArrival.readAckno seg).receive seg) hext
              (readAckno_segmentsOut c.noteArrival seg) empty fill
            refine ⟨old ++ new, ?_, fun hboth => Or.inr ⟨empty,
              (c.noteArrival.readAckno seg).sender, c.receiver.segmentReceived seg, ?_, ?_, ?_⟩⟩
            · rw [hstep]
              exact hlast
            · rw [hstep]
              exact hnone
            · intro hempty
              rw [hempty] at hreply
              exact of_reply_empty hreply
            · obtain ⟨hold, hnew⟩ := List.append_eq_nil_iff.mp hboth
              rw [hold, List.append_nil] at hqueue
              have hkept : ((c.noteArrival.readAckno seg).receive seg).sender.segmentsOut =
                  c.sender.segmentsOut := hqueue
              have hreceiver : ((c.noteArrival.readAckno seg).receive seg).receiver =
                  c.receiver.segmentReceived seg := by
                rw [receive, readAckno_receiver]
                rfl
              rw [hnew, List.append_nil, hkept, hreceiver] at hpush
              rw [hstep]
              exact hpush
  · have hstep : c.segmentReceived seg = c := by
      rw [segmentReceived, if_pos (by simpa using hactive)]
    refine ⟨[], ?_, fun _ => Or.inl ?_⟩
    · rw [hstep]
      exact Extends.refl _
    · rw [hstep]
      exact ⟨hquiet _ rfl, rfl⟩

/-! ## What is left to be done -/

section

variable {S : List UInt8} {ended : Bool} {capacity : ℕ} {isn : WrappingInt32}
  {c : TCPConnection}

/-- Behind its acknowledged FIN a connection has nothing to send. -/
theorem Outbound.finAcked_fillWindow (h : Outbound S ended capacity isn c)
    (hacked : FinAcked c.sender) : FinAcked c.fillWindow.sender := by
  obtain ⟨new, hnew⟩ := TCPSender.transmits_fillWindow c.sender
  have hle := h.fillWindow.next_le
  have hwritten := h.fillWindow.bytesWritten_eq
  have hold := h.bytesWritten_eq
  have hnext := hnew.next_eq
  have hflight := hnew.flight_eq
  obtain ⟨hfin, hnone⟩ := hacked
  change c.sender.fillWindow.nextSeqnoAbsolute ≤ S.length + 2 at hle
  change c.sender.fillWindow.stream.bytesWritten = S.length at hwritten
  have htotal : total new = 0 := by omega
  refine ⟨?_, ?_⟩
  · change c.sender.fillWindow.nextSeqnoAbsolute = c.sender.fillWindow.stream.bytesWritten + 2
    omega
  · change c.sender.fillWindow.bytesInFlight = 0
    omega

/-- With nothing in flight an acknowledgment erases nothing. -/
theorem FinAcked.ackReceived {s : TCPSender} (hacked : FinAcked s) (h : Outstanding s)
    (ackno : WrappingInt32) (windowSize : UInt16) :
    FinAcked (s.ackReceived ackno windowSize) := by
  rcases TCPSender.ackReceived_cases s ackno windowSize with
    ⟨-, heq⟩ | ⟨-, -, heq⟩ | ⟨-, hpop, -⟩
  · rw [heq]
    exact hacked
  · rw [heq]
    exact hacked
  · obtain ⟨e, he, -⟩ := TCPSender.exists_mem_of_acknosPop_ne_nil hpop
    have hgt := h.key_gt e he
    have hle := h.key_le e he
    rw [hacked.2] at hgt
    omega

theorem Outbound.finAcked_segmentReceived (h : Outbound S ended capacity isn c)
    (hstore : Outstanding c.sender) (hacked : FinAcked c.sender) (seg : TCPSegment) :
    FinAcked (c.segmentReceived seg).sender := by
  have henter : Outbound S ended capacity isn (c.enter (.segmentReceived seg)) ∧
      FinAcked (c.enter (.segmentReceived seg)).sender := by
    rw [enter]
    split_ifs
    · exact ⟨h, hacked⟩
    · exact ⟨{ h with }, hacked⟩
  refine (step_induction (c := c)
    (P := fun d => Outbound S ended capacity isn d ∧ FinAcked d.sender) (.segmentReceived seg)
    (fun _ => henter) ?_ ?_ ?_ ?_ ?_ ?_ ?_ ?_).2
  · intro ha
    cases ha
  · intro seg' ha _ hactive _
    cases ha
    have hsender : (c.enter (.segmentReceived seg)).sender = c.sender := by
      rw [enter, if_neg (by simp [hactive])]
    refine ⟨henter.1.ackReceived seg, ?_⟩
    change FinAcked ((c.enter (.segmentReceived seg)).sender.ackReceived _ _)
    rw [hsender]
    exact FinAcked.ackReceived hacked hstore _ _
  · exact fun seg' _ _ d hd => ⟨hd.1.receive seg', hd.2⟩
  · exact fun d hnext hd => ⟨hd.1.sendEmptySegment hnext, hd.2⟩
  · exact fun d hd => ⟨hd.1.fillWindow, hd.1.finAcked_fillWindow hd.2⟩
  · intro d hd
    refine ⟨hd.1.sendData, ?_⟩
    rw [sendData_sender]
    exact hd.2
  · exact fun d hd => ⟨hd.1.abort, hd.2⟩
  · exact fun d hd => ⟨hd.1.resetConnection, hd.2⟩

/-- What a connection has not sent, and the acknowledgment of its FIN. -/
def left (c : TCPConnection) : ℕ :=
  c.sender.stream.bytesWritten + 2 - c.sender.nextSeqnoAbsolute +
    if FinAcked c.sender then 0 else 1

/-- A segment that gets nothing done provokes the queue and one empty segment at
most. -/
theorem Outbound.left_segmentReceived (h : Outbound S ended capacity isn c)
    (hstore : Outstanding c.sender) (seg : TCPSegment)
    (hafter : Outbound S ended capacity isn (c.segmentReceived seg)) :
    (c.segmentReceived seg).left < c.left ∨ ((c.segmentReceived seg).left = c.left ∧
      (FinAcked (c.segmentReceived seg).sender → FinAcked c.sender) ∧ c.Provokes seg) := by
  obtain ⟨new, hext, hprovokes⟩ := exists_provokes c seg
  have hnext := hext.next_eq
  have hle := hafter.next_le
  have hkept : FinAcked c.sender → FinAcked (c.segmentReceived seg).sender :=
    fun hacked => h.finAcked_segmentReceived hstore hacked seg
  rw [left, left, h.bytesWritten_eq, hafter.bytesWritten_eq]
  by_cases hnew : new = []
  · have hzero : total new = 0 := by
      rw [hnew]
      rfl
    by_cases hacked : FinAcked c.sender
    · rw [if_pos hacked, if_pos (hkept hacked)]
      exact Or.inr ⟨by omega, fun _ => hacked, hprovokes hnew⟩
    · by_cases hlater : FinAcked (c.segmentReceived seg).sender
      · rw [if_neg hacked, if_pos hlater]
        exact Or.inl (by omega)
      · rw [if_neg hacked, if_neg hlater]
        exact Or.inr ⟨by omega, fun hdone => absurd hdone hlater, hprovokes hnew⟩
  · have hpos : 0 < total new := Tiling.total_pos _ hnew hext.pos
    refine Or.inl ?_
    by_cases hacked : FinAcked c.sender
    · rw [if_pos hacked, if_pos (hkept hacked)]
      omega
    · rw [if_neg hacked]
      split_ifs
      · omega
      · omega

end

/-- What a segment on its way to a connection may still provoke there. -/
def weight (c : TCPConnection) (seg : TCPSegment) : ℕ :=
  if 0 < seg.lengthInSequenceSpace then 3
  else if FinAcked c.sender ∧ c.inboundStream.inputEnded = false then 2
  else 1

theorem weight_pos (c : TCPConnection) (seg : TCPSegment) : 1 ≤ c.weight seg := by
  rw [weight]
  split_ifs
  · exact Nat.le_add_left 1 2
  · exact Nat.le_add_left 1 1
  · exact le_rfl

/-- A connection that has its FIN acknowledged for longer, and whose input has ended
meanwhile, provokes less. -/
theorem weight_le {c d : TCPConnection} (hacked : FinAcked d.sender → FinAcked c.sender)
    (hended : c.inboundStream.inputEnded = true → d.inboundStream.inputEnded = true)
    (seg : TCPSegment) : d.weight seg ≤ c.weight seg := by
  rw [weight, weight]
  split_ifs with hpos hd hc
  · exact le_rfl
  · exact le_rfl
  · refine absurd ⟨hacked hd.1, ?_⟩ hc
    rw [← Bool.not_eq_true]
    intro hopen
    rw [hended hopen] at hd
    exact Bool.noConfusion hd.2
  · exact Nat.le_succ 1
  · exact le_rfl

theorem of_phase_finWait2 {c : TCPConnection} (h : c.phase = .finWait2) :
    FinAcked c.sender ∧ c.inboundStream.inputEnded = false := by
  rw [phase] at h
  split_ifs at h with _ _ _ _ _ hphase
  exact ⟨⟨hphase.1, hphase.2.1⟩, hphase.2.2.2⟩

/-- The queue, on its way to `peer`, weighs as much as before. -/
theorem sum_weight_stamped (peer : TCPConnection) (r : TCPReceiver) {l : List TCPSegment}
    (hl : AllPos l) : ((l.map (stamp r)).map peer.weight).sum = 3 * l.length := by
  induction l with
  | nil => rfl
  | cons seg l ih =>
      have hseg : peer.weight (stamp r seg) = 3 := by
        rw [weight, stamp_length, if_pos (hl seg List.mem_cons_self)]
      have hrest := ih fun s hs => hl s (List.mem_cons_of_mem seg hs)
      rw [List.map_cons, List.map_cons, List.sum_cons, hseg, hrest, List.length_cons]
      omega

/-- What a segment provokes weighs less than the segment, unless both connections
are in FIN-WAIT-2. -/
theorem Provokes.weight_lt {c : TCPConnection} {seg : TCPSegment} (h : c.Provokes seg)
    (hqueue : AllPos c.sender.segmentsOut) (peer : TCPConnection)
    (hpeer : c.phase = .finWait2 → peer.inboundStream.inputEnded = true) :
    ((pushes c (c.segmentReceived seg)).map peer.weight).sum +
        3 * (c.segmentReceived seg).sender.segmentsOut.length <
      c.weight seg + 3 * c.sender.segmentsOut.length := by
  have hone := c.weight_pos seg
  rcases h with ⟨hnone, hsame⟩ | ⟨empty, s, r, hflushed, hempty, hpush⟩
  · rw [hnone, hsame, List.map_nil, List.sum_nil]
    omega
  · rw [hpush, hflushed, List.map_append, List.map_append, List.sum_append,
      sum_weight_stamped peer r hqueue]
    cases empty with
    | false =>
        rw [if_neg Bool.false_ne_true, List.map_nil, List.map_nil, List.sum_nil, List.length_nil]
        omega
    | true =>
        have hlength : ¬ 0 < (stamp r s.emptySegment).lengthInSequenceSpace := by
          rw [stamp_length]
          exact Nat.lt_irrefl 0
        have hlt : peer.weight (stamp r s.emptySegment) < c.weight seg := by
          rw [weight, if_neg hlength, weight]
          rcases hempty rfl with hpos | hphase
          · rw [if_pos hpos]
            split_ifs
            · exact Nat.lt_succ_self 2
            · exact Nat.lt_add_left 1 (Nat.lt_succ_self 1)
          · rw [if_neg fun hopen => Bool.noConfusion (hopen.2.symm.trans (hpeer hphase)),
              if_pos (of_phase_finWait2 hphase)]
            split_ifs
            · exact Nat.lt_add_left 1 (Nat.lt_succ_self 1)
            · exact Nat.lt_succ_self 1
        rw [if_pos rfl, List.map_cons, List.map_nil, List.map_cons, List.map_nil,
          List.sum_singleton, List.length_nil]
        omega

/-- Nothing that was put out is taken back. -/
theorem segmentsOut_prefix_step (c : TCPConnection) (a : Action) :
    c.segmentsOut <+: (c.step a).segmentsOut := by
  have henter : c.segmentsOut <+: (c.enter a).segmentsOut :=
    enter_induction (P := fun d => c.segmentsOut <+: d.segmentsOut) a List.prefix_rfl
      (fun _ => List.prefix_rfl) List.prefix_rfl (fun _ => List.prefix_rfl)
      (fun _ => List.prefix_rfl) List.prefix_rfl
  apply step_induction (P := fun d => c.segmentsOut <+: d.segmentsOut) a
  · exact fun _ => henter
  · exact fun _ => henter
  · exact fun _ _ _ _ _ => henter
  · exact fun _ _ _ _ hd => hd
  · exact fun _ _ hd => hd
  · exact fun _ hd => hd
  · intro d hd
    rw [sendData_segmentsOut]
    exact hd.trans (List.prefix_append _ _)
  · exact fun _ hd => hd
  · exact fun _ hd => hd.trans (List.prefix_append _ _)

theorem segmentsOut_segmentReceived (c : TCPConnection) (seg : TCPSegment) :
    (c.segmentReceived seg).segmentsOut =
      c.segmentsOut ++ pushes c (c.segmentReceived seg) := by
  obtain ⟨new, hnew⟩ := c.segmentsOut_prefix_step (.segmentReceived seg)
  have hafter : (c.segmentReceived seg).segmentsOut = c.segmentsOut ++ new := hnew.symm
  rw [pushes_eq hafter]
  exact hafter

end TCPConnection

/-! ## The exchange -/

/-- Two endpoints, and the segments of each that are on their way to the other. -/
structure Exchange where
  net : Network
  inFlight : Side → List TCPSegment

namespace Exchange

/-- Endpoint `x` gets a segment, and the others on their way to it remain. What it
provokes is on its way back. -/
def deliver (e : Exchange) (x : Side) (seg : TCPSegment) (rest : List TCPSegment) : Exchange where
  net := e.net.step (x, .segmentReceived seg)
  inFlight := fun y =>
    if y = x then
      e.inFlight x ++ pushes (e.net x).conn ((e.net x).conn.segmentReceived seg)
    else rest

/-- Some segment arrives, in any order. -/
inductive Delivers (e : Exchange) : Exchange → Prop
  | deliver (x : Side) (front : List TCPSegment) (seg : TCPSegment) (back : List TCPSegment)
      (h : e.inFlight x.other = front ++ seg :: back) :
      Delivers e (e.deliver x seg (front ++ back))

/-- What is on its way from `x`, or waits there to be put out. -/
def load (e : Exchange) (x : Side) : ℕ :=
  ((e.inFlight x).map (e.net x.other).conn.weight).sum +
    3 * (e.net x).conn.sender.segmentsOut.length

/-- The work that is left, and below it what is on its way. -/
def measure (e : Exchange) : ℕ ×ₗ ℕ :=
  toLex ((e.net .a).conn.left + (e.net .b).conn.left, e.load .a + e.load .b)

/-- What is on its way was put out, and the two connections know what they do in
every reachable state. -/
structure Reachable (cfg : Side → TCPConfig) (e : Exchange) : Prop where
  talks : Network.Talks cfg e.net
  bounded : Network.Bounded cfg e.net
  inFlight : ∀ x, ∀ seg ∈ e.inFlight x, seg ∈ (e.net x).conn.segmentsOut

section

variable {cfg : Side → TCPConfig} {e : Exchange} {x : Side} {front back : List TCPSegment}
  {seg : TCPSegment}

theorem sum_sides (f : Side → ℕ) (x : Side) : f .a + f .b = f x + f x.other := by
  cases x with
  | a => rfl
  | b => exact Nat.add_comm _ _

@[simp] theorem deliver_net_self (e : Exchange) (x : Side) (seg : TCPSegment)
    (rest : List TCPSegment) :
    (e.deliver x seg rest).net x = (e.net x).step (.segmentReceived seg) :=
  Network.step_self _ _ _

@[simp] theorem deliver_net_other (e : Exchange) (x : Side) (seg : TCPSegment)
    (rest : List TCPSegment) : (e.deliver x seg rest).net x.other = e.net x.other :=
  Network.step_other _ _ _

@[simp] theorem deliver_inFlight_self (e : Exchange) (x : Side) (seg : TCPSegment)
    (rest : List TCPSegment) : (e.deliver x seg rest).inFlight x =
      e.inFlight x ++ pushes (e.net x).conn ((e.net x).conn.segmentReceived seg) :=
  if_pos rfl

@[simp] theorem deliver_inFlight_other (e : Exchange) (x : Side) (seg : TCPSegment)
    (rest : List TCPSegment) : (e.deliver x seg rest).inFlight x.other = rest :=
  if_neg x.other_ne

theorem Reachable.deliver (h : Reachable cfg e)
    (hsplit : e.inFlight x.other = front ++ seg :: back) :
    Reachable cfg (e.deliver x seg (front ++ back)) := by
  have hseg : seg ∈ (e.net x.other).conn.segmentsOut := by
    apply h.inFlight x.other seg
    rw [hsplit]
    exact List.mem_append_right _ List.mem_cons_self
  have hbounded : Network.Bounded cfg (e.net.step (x, .segmentReceived seg)) := by
    intro y
    have hy := h.bounded y
    rcases x.eq_or_eq_other y with rfl | rfl
    · rw [Network.step_self]
      exact hy
    · rw [Network.step_other]
      exact hy
  refine ⟨h.talks.step hseg hbounded, hbounded, ?_⟩
  intro y s hs
  rcases x.eq_or_eq_other y with rfl | rfl
  · rw [deliver_inFlight_self] at hs
    rw [deliver_net_self]
    change s ∈ ((e.net y).conn.segmentReceived seg).segmentsOut
    rw [segmentsOut_segmentReceived]
    rcases List.mem_append.mp hs with hs | hs
    · exact List.mem_append_left _ (h.inFlight y s hs)
    · exact List.mem_append_right _ hs
  · rw [deliver_inFlight_other] at hs
    rw [deliver_net_other]
    apply h.inFlight x.other s
    rw [hsplit]
    rcases List.mem_append.mp hs with hs | hs
    · exact List.mem_append_left _ hs
    · exact List.mem_append_right _ (List.mem_cons_of_mem seg hs)

/-- Where nothing gets done the load decreases. -/
theorem Reachable.load_lt (h : Reachable cfg e)
    (hsplit : e.inFlight x.other = front ++ seg :: back)
    (hacked : FinAcked ((e.net x).conn.segmentReceived seg).sender →
      FinAcked (e.net x).conn.sender)
    (hprovokes : (e.net x).conn.Provokes seg) :
    (e.deliver x seg (front ++ back)).load x + (e.deliver x seg (front ++ back)).load x.other <
      e.load x + e.load x.other := by
  have hended : (e.net x).conn.inboundStream.inputEnded = true →
      ((e.net x).conn.segmentReceived seg).inboundStream.inputEnded = true :=
    fun hx => inputEnded_step hx (.segmentReceived seg)
  have hpeer : (e.net x).conn.phase = .finWait2 →
      (e.net x.other).conn.inboundStream.inputEnded = true := by
    intro hphase
    obtain ⟨hfin, hopen⟩ := of_phase_finWait2 hphase
    rcases (h.talks.closing x).finAcked hfin with hother | hself
    · exact hother
    · rw [hopen] at hself
      exact absurd hself Bool.false_ne_true
  have hlt := hprovokes.weight_lt (h.talks.queue x).2 (e.net x.other).conn hpeer
  have hle : ((front ++ back).map ((e.net x).conn.segmentReceived seg).weight).sum ≤
      ((front ++ back).map (e.net x).conn.weight).sum :=
    List.sum_le_sum fun s _ => weight_le hacked hended s
  have hself : (e.deliver x seg (front ++ back)).load x =
      ((e.inFlight x).map (e.net x.other).conn.weight).sum +
        ((pushes (e.net x).conn ((e.net x).conn.segmentReceived seg)).map
          (e.net x.other).conn.weight).sum +
        3 * ((e.net x).conn.segmentReceived seg).sender.segmentsOut.length := by
    rw [load, deliver_inFlight_self, deliver_net_self, deliver_net_other, List.map_append,
      List.sum_append]
    rfl
  have hother : (e.deliver x seg (front ++ back)).load x.other =
      ((front ++ back).map ((e.net x).conn.segmentReceived seg).weight).sum +
        3 * (e.net x.other).conn.sender.segmentsOut.length := by
    rw [load, deliver_inFlight_other, Side.other_other, deliver_net_self, deliver_net_other]
    rfl
  have hbefore : e.load x.other = ((front ++ back).map (e.net x).conn.weight).sum +
      (e.net x).conn.weight seg + 3 * (e.net x.other).conn.sender.segmentsOut.length := by
    rw [load, hsplit, Side.other_other]
    simp only [List.map_append, List.sum_append, List.map_cons, List.sum_cons]
    omega
  rw [hself, hother, hbefore, load]
  omega

/-- Every delivery lowers the measure. -/
theorem Reachable.measure_lt (h : Reachable cfg e)
    (hsplit : e.inFlight x.other = front ++ seg :: back) :
    (e.deliver x seg (front ++ back)).measure < e.measure := by
  have hafter := (h.deliver hsplit).talks.safe.outbound x
  rw [deliver_net_self] at hafter
  rw [measure, measure, Prod.Lex.toLex_lt_toLex,
    sum_sides (fun y => ((e.deliver x seg (front ++ back)).net y).conn.left) x,
    sum_sides (fun y => (e.net y).conn.left) x, sum_sides (e.deliver x seg (front ++ back)).load x,
    sum_sides e.load x, deliver_net_self, deliver_net_other]
  rcases (h.talks.safe.outbound x).left_segmentReceived (h.talks.outstanding x) seg hafter with
    hlt | ⟨heq, hacked, hprovokes⟩
  · exact Or.inl (Nat.add_lt_add_right hlt _)
  · exact Or.inr ⟨congrArg (· + _) heq, h.load_lt hsplit hacked hprovokes⟩

end

end Exchange

namespace Network

/-- From any state that two connections have reached, with any of the segments they
have emitted on their way, any number of times each, no order of delivery goes on
forever. -/
theorem no_infinite_exchange (cfg : Side → TCPConfig) (events : List (Side × Action))
    (hpermitted : Transition.Along step Permitted (start cfg) events)
    (hbounded : Bounded cfg (run cfg events)) (inFlight : Side → List TCPSegment)
    (hflight : ∀ x, ∀ seg ∈ inFlight x, seg ∈ (run cfg events x).conn.segmentsOut) :
    ¬ ∃ f : ℕ → Exchange, f 0 = ⟨run cfg events, inFlight⟩ ∧
      ∀ i, Exchange.Delivers (f i) (f (i + 1)) := by
  apply Transition.not_exists_infinite (Exchange.Reachable cfg) Exchange.measure
  · rintro e e' h ⟨x, front, seg, back, hsplit⟩
    exact h.deliver hsplit
  · rintro e e' h ⟨x, front, seg, back, hsplit⟩
    exact h.measure_lt hsplit
  · exact ⟨talks_run cfg events hpermitted hbounded, hbounded, hflight⟩

/-- The SYN of `b` and the one of `a` are on their way twice. -/
theorem no_infinite_exchange_twice :
    ¬ ∃ f : ℕ → Exchange, f 0 = ⟨run zeroBehindFin (bothEnd.take 2),
        fun x => (run zeroBehindFin (bothEnd.take 2) x).conn.segmentsOut ++
          (run zeroBehindFin (bothEnd.take 2) x).conn.segmentsOut⟩ ∧
      ∀ i, Exchange.Delivers (f i) (f (i + 1)) := by
  apply no_infinite_exchange
  · decide
  · intro x
    cases x
    · decide
    · decide
  · intro x seg hseg
    exact (List.mem_append.mp hseg).elim id id

end Network

end NetworkLabs
