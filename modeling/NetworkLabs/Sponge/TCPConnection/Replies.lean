import NetworkLabs.Library.Transition
import NetworkLabs.Sponge.TCPConnection.Phase
import NetworkLabs.Sponge.TCPConnection.Steps
import NetworkLabs.Sponge.TCPSender.Sends

/-!
# Replies to segments

An answer puts into `segments_out` what the sender had queued, what `ack_received`
has queued, the empty segment, and what `fill_window` has queued. All but the
empty segment occupy sequence numbers, so a segment that occupies some is
acknowledged if anything is put out, and one that occupies none is answered well
if the empty segment is not.

Four of the eight phases reply to all segments as they should. In the others a
segment with data or FIN may find nothing to travel with its acknowledgment, and
in FIN-WAIT-2 every segment is answered by an empty one.
-/

namespace NetworkLabs

namespace TCPConnection

open TCPSender

/-- The segments that a call has put into `segments_out`. -/
def pushes (c d : TCPConnection) : List TCPSegment := d.segmentsOut.drop c.segmentsOut.length

theorem pushes_eq {c d : TCPConnection} {new : List TCPSegment}
    (h : d.segmentsOut = c.segmentsOut ++ new) : pushes c d = new := by
  rw [pushes, h, List.drop_left]

@[simp] theorem stamp_length (r : TCPReceiver) (seg : TCPSegment) :
    (stamp r seg).lengthInSequenceSpace = seg.lengthInSequenceSpace := by
  rw [stamp]
  cases r.ackno <;> rfl

/-- All else is left as the sender made it. -/
theorem stamp_fields (r : TCPReceiver) (seg : TCPSegment) :
    (stamp r seg).payload = seg.payload ∧ (stamp r seg).header.syn = seg.header.syn ∧
      (stamp r seg).header.fin = seg.header.fin ∧
      (stamp r seg).header.seqno = seg.header.seqno := by
  rw [stamp]
  cases r.ackno
  · exact ⟨rfl, rfl, rfl, rfl⟩
  · exact ⟨rfl, rfl, rfl, rfl⟩

/-- A stamped segment carries the acknowledgment that the receiver has to
give. -/
theorem stamp_ackno {r : TCPReceiver} (h : r.ackno.isSome = true) (seg : TCPSegment) :
    (stamp r seg).header.ack = true ∧ r.ackno = some (stamp r seg).header.ackno := by
  obtain ⟨ackno, hackno⟩ := Option.isSome_iff_exists.mp h
  rw [stamp, hackno]
  exact ⟨rfl, rfl⟩

@[simp] theorem readAckno_receiver (c : TCPConnection) (seg : TCPSegment) :
    (c.readAckno seg).receiver = c.receiver := by
  obtain ⟨sender, hread⟩ := readAckno_frame c seg
  rw [hread]

@[simp] theorem readAckno_segmentsOut (c : TCPConnection) (seg : TCPSegment) :
    (c.readAckno seg).segmentsOut = c.segmentsOut := by
  obtain ⟨sender, hread⟩ := readAckno_frame c seg
  rw [hread]

/-! ## What an answer puts out -/

/-- The segments of a list occupy sequence numbers. -/
def AllPos (l : List TCPSegment) : Prop := ∀ seg ∈ l, 0 < seg.lengthInSequenceSpace

/-- What the sender queues when the acknowledgment is read. -/
theorem exists_readAckno (c : TCPConnection) (seg : TCPSegment) :
    ∃ new, (c.readAckno seg).sender.segmentsOut = c.sender.segmentsOut ++ new ∧ AllPos new ∧
      (new ≠ [] ↔ c.readsAckno seg = true ∧ c.sender.TakesAckno seg.header.ackno ∧
        (c.sender.noteAck seg.header.ackno seg.header.win).Sends) := by
  rw [readAckno_sender]
  by_cases hreads : c.readsAckno seg = true
  · obtain ⟨new, hnew, hiff⟩ := c.sender.exists_ackReceived seg.header.ackno seg.header.win
    have hout := hnew.out_eq
    rw [noteAck_segmentsOut] at hout
    rw [if_pos hreads, and_iff_right hreads]
    exact ⟨new, hout, hnew.pos, hiff⟩
  · rw [if_neg hreads]
    refine ⟨[], (List.append_nil _).symm, fun _ h => absurd h List.not_mem_nil, ?_⟩
    exact iff_of_false (fun h => h rfl) fun h => hreads h.1

/-- An answer puts out the queue, the empty segment, and what `fill_window`
sends. -/
theorem exists_answer (d : TCPConnection) (empty fill : Bool) :
    ∃ new, (d.answer empty fill).segmentsOut = d.segmentsOut ++
        (d.sender.segmentsOut ++ (if empty then [d.sender.emptySegment] else []) ++ new).map
          (stamp d.receiver) ∧
      AllPos new ∧ (new ≠ [] ↔ fill = true ∧ d.sender.Sends) := by
  have hempty : (if empty then d.sendEmptySegment else d).sender.segmentsOut =
      d.sender.segmentsOut ++ if empty then [d.sender.emptySegment] else [] := by
    cases empty
    · exact (List.append_nil _).symm
    · rfl
  have hsends : (if empty then d.sendEmptySegment else d).sender.Sends ↔ d.sender.Sends := by
    cases empty
    · exact Iff.rfl
    · exact Iff.rfl
  have hreceiver : (if empty then d.sendEmptySegment else d).receiver = d.receiver := by
    cases empty
    · rfl
    · rfl
  have hpushed : (if empty then d.sendEmptySegment else d).segmentsOut = d.segmentsOut := by
    cases empty
    · rfl
    · rfl
  rw [answer]
  cases fill
  · refine ⟨[], ?_, fun _ h => absurd h List.not_mem_nil, by simp⟩
    simp only [Bool.false_eq_true, if_false]
    rw [sendData_segmentsOut, hempty, hreceiver, hpushed, List.append_nil]
  · obtain ⟨new, hnew, hiff⟩ :=
      (if empty then d.sendEmptySegment else d).sender.exists_fillWindow
    refine ⟨new, ?_, hnew.pos, ?_⟩
    · simp only [if_true]
      rw [sendData_segmentsOut]
      change _ ++ List.map (stamp (if empty then d.sendEmptySegment else d).receiver)
        (if empty then d.sendEmptySegment else d).sender.fillWindow.segmentsOut = _
      rw [hnew.out_eq, hempty, hreceiver]
      exact congrArg (· ++ _) hpushed
    · rw [hiff, hsends]
      exact (and_iff_right rfl).symm

/-- The acknowledgment or the answer to it sends something. -/
def Refills (c : TCPConnection) (seg : TCPSegment) (fill : Bool) : Prop :=
  (c.readsAckno seg = true ∧ c.sender.TakesAckno seg.header.ackno ∧
    (c.sender.noteAck seg.header.ackno seg.header.win).Sends) ∨
  (fill = true ∧ (c.readAckno seg).sender.Sends)

/-- What the answer to a segment puts out. -/
theorem exists_reply (c : TCPConnection) (seg : TCPSegment) (empty fill : Bool) :
    ∃ old new, (((c.readAckno seg).receive seg).answer empty fill).segmentsOut =
        c.segmentsOut ++ ((c.sender.segmentsOut ++ old) ++
          (if empty then [(c.readAckno seg).sender.emptySegment] else []) ++ new).map
          (stamp (c.receiver.segmentReceived seg)) ∧
      AllPos old ∧ AllPos new ∧ (old ≠ [] ∨ new ≠ [] ↔ c.Refills seg fill) := by
  obtain ⟨old, hold, holdPos, holdIff⟩ := c.exists_readAckno seg
  obtain ⟨new, hnew, hnewPos, hnewIff⟩ := exists_answer ((c.readAckno seg).receive seg) empty fill
  refine ⟨old, new, ?_, holdPos, hnewPos, or_congr holdIff hnewIff⟩
  have hreceiver : ((c.readAckno seg).receive seg).receiver = c.receiver.segmentReceived seg := by
    rw [receive, readAckno_receiver]
  have hpushed : ((c.readAckno seg).receive seg).segmentsOut = c.segmentsOut :=
    c.readAckno_segmentsOut seg
  rw [hnew, hreceiver, hpushed]
  change _ ++ List.map _ ((c.readAckno seg).sender.segmentsOut ++ _ ++ _) = _
  rw [hold]
  rfl

/-! ## What is queued between two calls -/

/-- Every stored segment occupies sequence numbers. -/
structure StorePos (s : TCPSender) : Prop where
  keysLe : KeysLe s
  pos : ∀ e ∈ s.segmentsCache, 0 < e.2.lengthInSequenceSpace

theorem StorePos.transmits {s t : TCPSender} {new : List TCPSegment} (h : StorePos s)
    (hnew : Transmits s t new) : StorePos t where
  keysLe := hnew.keysLe h.keysLe
  pos := hnew.forall_mem_cache h.keysLe h.pos fun _ he => (hnew.bounds he).2.2

theorem StorePos.noteAck {s : TCPSender} (h : StorePos s) (ackno : WrappingInt32)
    (windowSize : UInt16) : StorePos (s.noteAck ackno windowSize) := by
  have hpopped : StorePos (s.popAcked ackno windowSize) :=
    ⟨h.keysLe.popAcked ackno windowSize, fun e he => h.pos e (mem_of_popAcked he)⟩
  rw [TCPSender.noteAck]
  split_ifs
  · exact h
  · exact hpopped
  · exact ⟨hpopped.keysLe, hpopped.pos⟩

theorem StorePos.ackReceived {s : TCPSender} (h : StorePos s) (ackno : WrappingInt32)
    (windowSize : UInt16) : StorePos (s.ackReceived ackno windowSize) := by
  obtain ⟨new, hnew, -⟩ := s.exists_ackReceived ackno windowSize
  exact (h.noteAck ackno windowSize).transmits hnew

theorem StorePos.fillWindow {s : TCPSender} (h : StorePos s) : StorePos s.fillWindow := by
  obtain ⟨new, hnew⟩ := transmits_fillWindow s
  exact h.transmits hnew

theorem storePos_enter {c : TCPConnection} (h : StorePos c.sender) (a : Action) :
    StorePos (c.enter a).sender := by
  have hsame : ∀ s : TCPSender, s.segmentsCache = c.sender.segmentsCache →
      s.nextSeqnoAbsolute = c.sender.nextSeqnoAbsolute → StorePos s := by
    intro s hcache hnext
    refine ⟨?_, ?_⟩
    · rw [KeysLe, hcache, hnext]
      exact h.keysLe
    · rw [hcache]
      exact h.pos
  apply enter_induction (P := fun d => StorePos d.sender) a h
  · exact fun _ => hsame _ rfl rfl
  · exact hsame _ rfl rfl
  · exact fun _ => h
  · intro ms
    obtain ⟨out, time, timeout, retx, heq, -⟩ := tick_eq c.sender ms
    rw [heq]
    exact hsame _ rfl rfl
  · exact h

theorem storePos_step {c : TCPConnection} (h : StorePos c.sender) (a : Action) :
    StorePos (c.step a).sender := by
  have henter := storePos_enter h a
  apply step_induction (P := fun d => StorePos d.sender) a
  · exact fun _ => henter
  · exact fun _ => StorePos.fillWindow henter
  · exact fun seg _ _ _ _ => StorePos.ackReceived henter seg.header.ackno seg.header.win
  · exact fun seg _ _ d hd => hd
  · exact fun d _ hd => ⟨hd.keysLe, hd.pos⟩
  · exact fun d hd => StorePos.fillWindow hd
  · intro d hd
    rw [sendData_sender]
    exact ⟨hd.keysLe, hd.pos⟩
  · exact fun d hd => ⟨hd.keysLe, hd.pos⟩
  · exact fun d hd => ⟨hd.keysLe, hd.pos⟩

theorem allPos_nil : AllPos [] := fun _ h => absurd h List.not_mem_nil

theorem AllPos.append {l m : List TCPSegment} (hl : AllPos l) (hm : AllPos m) :
    AllPos (l ++ m) := by
  intro seg hseg
  rcases List.mem_append.mp hseg with h | h
  · exact hl seg h
  · exact hm seg h

/-- What is left in the queue of the sender occupies sequence numbers. -/
theorem allPos_queue_step {c : TCPConnection} (hstore : StorePos c.sender)
    (h : AllPos c.sender.segmentsOut) (a : Action) :
    AllPos (c.step a).sender.segmentsOut := by
  have hsent : ∀ d : TCPConnection, AllPos d.sendData.sender.segmentsOut := by
    intro d
    rw [sendData_sender]
    exact allPos_nil
  cases a with
  | connect => exact hsent _
  | write data =>
      change AllPos (c.write data).1.sender.segmentsOut
      rw [write]
      split_ifs
      · exact h
      · exact hsent _
  | endInputStream => exact hsent _
  | read len => exact h
  | tick ms =>
      change AllPos (c.tick ms).sender.segmentsOut
      obtain ⟨out, time, timeout, retx, heq, hout⟩ := tick_eq c.sender ms
      rw [tick]
      simp only
      split_ifs
      · exact h
      · change AllPos (c.sender.tick ms).segmentsOut
        rw [heq]
        refine h.append fun seg hseg => ?_
        obtain ⟨k, hk⟩ := hout seg hseg
        exact hstore.pos (k, seg) hk
      · exact hsent _
  | segmentReceived seg =>
      change AllPos (c.segmentReceived seg).sender.segmentsOut
      rw [segmentReceived]
      simp only
      split_ifs
      · exact h
      · exact h
      · rcases dispatch_cases { c with timeSinceLastSegmentReceived := 0 } seg with
          ⟨-, heq⟩ | heq | ⟨empty, fill, -, heq⟩
        · rw [heq]
          exact h
        · obtain ⟨new, hnew, hpos, -⟩ :=
            exists_readAckno { c with timeSinceLastSegmentReceived := 0 } seg
          rw [heq]
          change AllPos (readAckno _ seg).sender.segmentsOut
          rw [hnew]
          exact AllPos.append h hpos
        · rw [heq]
          exact hsent _

theorem allPos_queue_run (cfg : TCPConfig) (actions : List Action) :
    StorePos (run cfg actions).sender ∧ AllPos (run cfg actions).sender.segmentsOut :=
  Transition.foldl_invariant
    (fun c : TCPConnection => StorePos c.sender ∧ AllPos c.sender.segmentsOut)
    (fun _ a h => ⟨storePos_step h.1 a, allPos_queue_step h.1 h.2 a⟩) (new cfg) actions
    ⟨⟨fun e he => absurd he (SortedMap.not_mem_empty e),
      fun e he => absurd he (SortedMap.not_mem_empty e)⟩, allPos_nil⟩

/-! ## The reply to a segment -/

/-- A segment that occupies sequence numbers is acknowledged at once, and one that
does not is not answered by another such. -/
def RepliesTo (c : TCPConnection) (seg : TCPSegment) : Prop :=
  let d := c.segmentReceived seg
  (0 < seg.lengthInSequenceSpace → ∃ p ∈ pushes c d,
    p.header.ack = true ∧ d.receiver.ackno = some p.header.ackno) ∧
  (seg.lengthInSequenceSpace = 0 → AllPos (pushes c d))

/-- In CLOSED only a SYN opens the connection. In SYN-REVD nothing is sent, and in
TIME-WAIT nothing but for a FIN. In FIN-WAIT-1 without FIN, and in every other
state, the acknowledgment travels only with what the sender had queued or sends
now. In FIN-WAIT-2 every segment is answered. -/
def RepliesWell (c : TCPConnection) (seg : TCPSegment) : Prop :=
  match c.phase with
  | .closed => seg.lengthInSequenceSpace = 0 ∨ seg.header.syn = true
  | .synSent => True
  | .synRevd => seg.lengthInSequenceSpace = 0
  | .established => True
  | .finWait1 =>
      seg.lengthInSequenceSpace = 0 ∨ seg.header.fin = true ∨
        (seg.header.ack = true ∧ c.sender.segmentsOut ≠ [])
  | .finWait2 => 0 < seg.lengthInSequenceSpace
  | .timeWait => seg.lengthInSequenceSpace = 0 ∨ seg.header.fin = true
  | .other =>
      seg.lengthInSequenceSpace = 0 ∨ c.sender.segmentsOut ≠ [] ∨ c.Refills seg true

/-- Nothing is put out. -/
theorem repliesTo_iff_of_nil {c : TCPConnection} {seg : TCPSegment}
    (h : pushes c (c.segmentReceived seg) = []) :
    c.RepliesTo seg ↔ seg.lengthInSequenceSpace = 0 := by
  rw [RepliesTo, h]
  constructor
  · rintro ⟨hack, -⟩
    by_contra hne
    obtain ⟨p, hp, -⟩ := hack (Nat.pos_of_ne_zero hne)
    exact absurd hp List.not_mem_nil
  · intro h0
    exact ⟨fun hpos => absurd h0 hpos.ne', fun _ => allPos_nil⟩

/-- An empty segment is put out. -/
theorem repliesTo_iff_of_empty {c : TCPConnection} {seg : TCPSegment}
    {l m : List TCPSegment} {s : TCPSender} {r : TCPReceiver}
    (h : pushes c (c.segmentReceived seg) = (l ++ [s.emptySegment] ++ m).map (stamp r))
    (hr : (c.segmentReceived seg).receiver = r) (hackno : r.ackno.isSome = true) :
    c.RepliesTo seg ↔ 0 < seg.lengthInSequenceSpace := by
  have hmem : stamp r s.emptySegment ∈ pushes c (c.segmentReceived seg) := by
    rw [h]
    exact List.mem_map_of_mem (by simp)
  rw [RepliesTo, hr]
  constructor
  · rintro ⟨-, hempty⟩
    by_contra hne
    have hpos := hempty (Nat.eq_zero_of_not_pos hne) _ hmem
    rw [stamp_length] at hpos
    exact absurd hpos (lt_irrefl 0)
  · intro hpos
    exact ⟨fun _ => ⟨_, hmem, stamp_ackno hackno _⟩, fun h0 => absurd h0 hpos.ne'⟩

/-- Only segments that occupy sequence numbers are put out. -/
theorem repliesTo_iff_of_allPos {c : TCPConnection} {seg : TCPSegment} {l : List TCPSegment}
    {r : TCPReceiver} (h : pushes c (c.segmentReceived seg) = l.map (stamp r)) (hpos : AllPos l)
    (hr : (c.segmentReceived seg).receiver = r) (hackno : r.ackno.isSome = true) :
    c.RepliesTo seg ↔ seg.lengthInSequenceSpace = 0 ∨ l ≠ [] := by
  have hall : AllPos (pushes c (c.segmentReceived seg)) := by
    rw [h]
    intro p hp
    obtain ⟨q, hq, rfl⟩ := List.mem_map.mp hp
    rw [stamp_length]
    exact hpos q hq
  cases l with
  | nil =>
      rw [repliesTo_iff_of_nil h]
      simp
  | cons q l =>
      refine iff_of_true ⟨fun _ => ⟨stamp r q, ?_, ?_⟩, fun _ => hall⟩
        (Or.inr (List.cons_ne_nil q l))
      · rw [h]
        exact List.mem_cons_self
      · rw [hr]
        exact stamp_ackno hackno q

/-- A segment has just arrived. -/
def noteArrival (c : TCPConnection) : TCPConnection := { c with timeSinceLastSegmentReceived := 0 }

/-- The segment is handled by the reply to it; the time does not matter. -/
theorem segmentReceived_eq {c : TCPConnection} {seg : TCPSegment} (hactive : c.active = true)
    (hrst : seg.header.rst = false) :
    c.segmentReceived seg =
      makeReply c.noteArrival ((c.noteArrival.readAckno seg).receive seg) (c.reply seg) := by
  have hdispatch : c.segmentReceived seg = c.noteArrival.dispatch seg := by
    rw [segmentReceived, if_neg (by simp [hactive])]
    exact if_neg (by simp [hrst])
  rw [hdispatch]
  exact dispatch_eq c.noteArrival seg

section

variable {c : TCPConnection} {seg : TCPSegment}

theorem repliesTo_iff_of_dropped (hactive : c.active = true) (hrst : seg.header.rst = false)
    (hreply : c.reply seg = .dropped) : c.RepliesTo seg ↔ seg.lengthInSequenceSpace = 0 := by
  apply repliesTo_iff_of_nil
  rw [segmentReceived_eq hactive hrst, hreply]
  exact pushes_eq (List.append_nil _).symm

theorem repliesTo_iff_of_taken (hactive : c.active = true) (hrst : seg.header.rst = false)
    (hreply : c.reply seg = .taken) : c.RepliesTo seg ↔ seg.lengthInSequenceSpace = 0 := by
  apply repliesTo_iff_of_nil
  rw [segmentReceived_eq hactive hrst, hreply]
  apply pushes_eq
  rw [List.append_nil]
  exact readAckno_segmentsOut _ seg

theorem receiver_of_answered (hactive : c.active = true) (hrst : seg.header.rst = false)
    {empty fill : Bool} (hreply : c.reply seg = .answered empty fill) :
    (c.segmentReceived seg).receiver = c.receiver.segmentReceived seg := by
  rw [segmentReceived_eq hactive hrst, hreply, makeReply]
  obtain ⟨sender, hanswer⟩ := answer_frame _ empty fill
  rw [hanswer, sendData_receiver]
  exact congrArg (fun r => r.segmentReceived seg) (readAckno_receiver _ seg)

/-- What the answer to a segment puts out, in terms of the connection before. -/
theorem segmentsOut_of_answered (hactive : c.active = true) (hrst : seg.header.rst = false)
    {empty fill : Bool} (hreply : c.reply seg = .answered empty fill) :
    ∃ old new, (c.segmentReceived seg).segmentsOut =
        c.segmentsOut ++ ((c.sender.segmentsOut ++ old) ++
          (if empty then [(c.readAckno seg).sender.emptySegment] else []) ++ new).map
          (stamp (c.receiver.segmentReceived seg)) ∧
      AllPos old ∧ AllPos new ∧ (old ≠ [] ∨ new ≠ [] ↔ c.Refills seg fill) := by
  have hsender : (c.noteArrival.readAckno seg).sender = (c.readAckno seg).sender := by
    rw [readAckno_sender, readAckno_sender]
    rfl
  have hrefills : c.noteArrival.Refills seg fill ↔ c.Refills seg fill := by
    rw [Refills, Refills, hsender]
    exact Iff.rfl
  obtain ⟨old, new, hout, hold, hnew, hiff⟩ := c.noteArrival.exists_reply seg empty fill
  refine ⟨old, new, ?_, hold, hnew, hiff.trans hrefills⟩
  rw [segmentReceived_eq hactive hrst, hreply, ← hsender]
  exact hout

theorem repliesTo_iff_of_answered_empty (hactive : c.active = true)
    (hrst : seg.header.rst = false) {fill : Bool} (hreply : c.reply seg = .answered true fill)
    (hackno : (c.segmentReceived seg).receiver.ackno.isSome = true) :
    c.RepliesTo seg ↔ 0 < seg.lengthInSequenceSpace := by
  have hreceiver := receiver_of_answered hactive hrst hreply
  obtain ⟨old, new, hout, -⟩ := segmentsOut_of_answered hactive hrst hreply
  rw [hreceiver] at hackno
  rw [if_pos rfl] at hout
  exact repliesTo_iff_of_empty (pushes_eq hout) hreceiver hackno

theorem repliesTo_iff_of_answered (hactive : c.active = true) (hrst : seg.header.rst = false)
    (hqueue : AllPos c.sender.segmentsOut) {fill : Bool}
    (hreply : c.reply seg = .answered false fill)
    (hackno : (c.segmentReceived seg).receiver.ackno.isSome = true) :
    c.RepliesTo seg ↔ seg.lengthInSequenceSpace = 0 ∨ c.sender.segmentsOut ≠ [] ∨
      c.Refills seg fill := by
  have hreceiver := receiver_of_answered hactive hrst hreply
  obtain ⟨old, new, hout, hold, hnew, hiff⟩ := segmentsOut_of_answered hactive hrst hreply
  rw [hreceiver] at hackno
  rw [if_neg Bool.false_ne_true, List.append_nil] at hout
  have hpos : AllPos (c.sender.segmentsOut ++ old ++ new) := (hqueue.append hold).append hnew
  rw [repliesTo_iff_of_allPos (pushes_eq hout) hpos hreceiver hackno, ← hiff, Ne,
    List.append_eq_nil_iff, List.append_eq_nil_iff, not_and_or, not_and_or, or_assoc]

end

/-- What the tests for FIN-WAIT-1 have found. -/
theorem of_phase_finWait1 {c : TCPConnection} (h : c.phase = .finWait1) :
    c.sender.nextSeqnoAbsolute = c.sender.stream.bytesWritten + 2 ∧
      c.sender.stream.eof = true := by
  rw [phase] at h
  split_ifs at h with h1 h2 h3 h4 h5
  exact ⟨h5.1, h5.2.2.1⟩

/-- A sender whose FIN is sent sends nothing when an acknowledgment is read. -/
theorem not_refills_finWait1 {c : TCPConnection} {seg : TCPSegment} (h : c.phase = .finWait1) :
    ¬ c.Refills seg false := by
  obtain ⟨hnext, heof⟩ := of_phase_finWait1 h
  rintro (⟨-, -, hsends⟩ | ⟨hfalse, -⟩)
  · refine not_sends_of_finSent _ ?_ ?_ hsends
    · rw [noteAck_stream, heof]
    · rw [noteAck_nextSeqnoAbsolute, noteAck_stream, hnext]
  · exact Bool.false_ne_true hfalse

/-- In CLOSED the SYN is still to be sent. -/
theorem refills_closed {c : TCPConnection} (seg : TCPSegment) (h : c.phase = .closed) :
    c.Refills seg true := by
  have hreads : ¬ c.readsAckno seg = true := by
    rw [readsAckno_eq, h]
    exact Bool.false_ne_true
  have hnext : c.sender.nextSeqnoAbsolute = 0 := by
    rw [phase] at h
    split_ifs at h with h1
    exact h1
  refine Or.inr ⟨rfl, ?_⟩
  rw [readAckno_sender, if_neg hreads]
  exact Or.inl hnext

/-- Without a SYN there is nothing to acknowledge in SYN-SENT. -/
theorem syn_of_phase_synSent {c : TCPConnection} {seg : TCPSegment} (hactive : c.active = true)
    (hrst : seg.header.rst = false) (hphase : c.phase = .synSent)
    (hackno : (c.segmentReceived seg).receiver.ackno.isSome = true) : seg.header.syn = true := by
  have hnone : c.receiver.ackno.isSome = false := by
    rw [phase] at hphase
    split_ifs at hphase with h1 h2
    exact h2.2
  by_contra hsyn
  have hreply : c.reply seg = .dropped := by
    rw [reply, hphase]
    exact if_neg hsyn
  rw [segmentReceived_eq hactive hrst, hreply] at hackno
  exact Bool.false_ne_true (hnone.symm.trans hackno)

theorem length_pos_of_syn {seg : TCPSegment} (h : seg.header.syn = true) :
    0 < seg.lengthInSequenceSpace := by
  rw [TCPSegment.lengthInSequenceSpace, h, if_pos rfl]
  omega

theorem length_pos_of_fin {seg : TCPSegment} (h : seg.header.fin = true) :
    0 < seg.lengthInSequenceSpace := by
  rw [TCPSegment.lengthInSequenceSpace, h, if_pos rfl]
  omega

/-- The phase and the flags decide which of the replies it is. -/
theorem repliesTo_iff_of_queue {c : TCPConnection} {seg : TCPSegment}
    (hqueue : AllPos c.sender.segmentsOut) (hactive : c.active = true)
    (hrst : seg.header.rst = false)
    (hackno : (c.segmentReceived seg).receiver.ackno.isSome = true) :
    c.RepliesTo seg ↔ c.RepliesWell seg := by
  have hdropped := repliesTo_iff_of_dropped (c := c) hactive hrst
  have hempty := fun fill (hreply : c.reply seg = .answered true fill) =>
    repliesTo_iff_of_answered_empty hactive hrst hreply hackno
  have hanswered := fun fill (hreply : c.reply seg = .answered false fill) =>
    repliesTo_iff_of_answered hactive hrst hqueue hreply hackno
  rw [RepliesWell]
  cases hphase : c.phase with
  | closed =>
      by_cases hsyn : seg.header.syn = true
      · have hreply : c.reply seg = .answered false true := by
          rw [reply, hphase]
          exact if_pos hsyn
        rw [hanswered true hreply]
        exact iff_of_true (Or.inr (Or.inr (refills_closed seg hphase))) (Or.inr hsyn)
      · have hreply : c.reply seg = .dropped := by
          rw [reply, hphase]
          exact if_neg hsyn
        rw [hdropped hreply]
        exact (or_iff_left hsyn).symm
  | synSent =>
      have hsyn := syn_of_phase_synSent hactive hrst hphase hackno
      have hreply : c.reply seg = .answered true false := by
        rw [reply, hphase]
        exact if_pos hsyn
      rw [hempty false hreply]
      exact iff_true_intro (length_pos_of_syn hsyn)
  | synRevd =>
      apply repliesTo_iff_of_taken hactive hrst
      rw [reply, hphase]
  | established =>
      by_cases hlength : 0 < seg.lengthInSequenceSpace
      · have hreply : c.reply seg = .answered true true := by
          rw [reply, hphase, decide_eq_true hlength]
        rw [hempty true hreply]
        exact iff_true_intro hlength
      · have hreply : c.reply seg = .answered false true := by
          rw [reply, hphase, decide_eq_false hlength]
        rw [hanswered true hreply]
        exact iff_true_intro (Or.inl (Nat.eq_zero_of_not_pos hlength))
  | finWait1 =>
      by_cases hfin : seg.header.fin = true
      · have hreply : c.reply seg = .answered true false := by
          rw [reply, hphase]
          exact if_pos hfin
        rw [hempty false hreply]
        exact iff_of_true (length_pos_of_fin hfin) (Or.inr (Or.inl hfin))
      · rw [or_iff_right hfin]
        by_cases hack : seg.header.ack = true
        · have hreply : c.reply seg = .answered false false := by
            rw [reply, hphase]
            exact (if_neg hfin).trans (if_pos hack)
          rw [hanswered false hreply, or_iff_left (not_refills_finWait1 hphase),
            and_iff_right hack]
        · have hreply : c.reply seg = .dropped := by
            rw [reply, hphase]
            exact (if_neg hfin).trans (if_neg hack)
          rw [hdropped hreply]
          exact (or_iff_left fun h => hack h.1).symm
  | finWait2 =>
      apply hempty false
      rw [reply, hphase]
  | timeWait =>
      by_cases hfin : seg.header.fin = true
      · have hreply : c.reply seg = .answered true false := by
          rw [reply, hphase]
          exact if_pos hfin
        rw [hempty false hreply]
        exact iff_of_true (length_pos_of_fin hfin) (Or.inr hfin)
      · have hreply : c.reply seg = .dropped := by
          rw [reply, hphase]
          exact if_neg hfin
        rw [hdropped hreply]
        exact (or_iff_left hfin).symm
  | other =>
      apply hanswered true
      rw [reply, hphase]

/-- Every segment without RST that leaves the connection alive is answered as it
should be exactly in these cases. -/
theorem segmentReceived_repliesTo_iff (cfg : TCPConfig) (actions : List Action) (seg : TCPSegment)
    (hrst : seg.header.rst = false)
    (hactive : ((run cfg actions).segmentReceived seg).active = true)
    (hackno : ((run cfg actions).segmentReceived seg).receiver.ackno.isSome = true) :
    (run cfg actions).RepliesTo seg ↔ (run cfg actions).RepliesWell seg := by
  have hbefore : (run cfg actions).active = true := by
    by_contra hdead
    rw [Bool.not_eq_true] at hdead
    rw [segmentReceived, hdead] at hactive
    exact Bool.false_ne_true (hdead.symm.trans hactive)
  exact repliesTo_iff_of_queue (allPos_queue_run cfg actions).2 hbefore hrst hackno

/-- A SYN opens a connection, and is acknowledged with the SYN of the other
side. -/
theorem segmentReceived_repliesTo_syn :
    let cfg : TCPConfig := { recvCapacity := 4, sendCapacity := 4, isn := ⟨100⟩ }
    (run cfg []).RepliesTo { header := { seqno := ⟨7⟩, syn := true } } :=
  (segmentReceived_repliesTo_iff _ [] _ rfl (by decide) (by decide)).mpr (Or.inr rfl)

/-- The data that comes with the acknowledgment of the SYN is not acknowledged. -/
theorem not_repliesTo_synRevd :
    ¬ ∀ (cfg : TCPConfig) (actions : List Action) (seg : TCPSegment),
      seg.header.rst = false → ((run cfg actions).segmentReceived seg).active = true →
      ((run cfg actions).segmentReceived seg).receiver.ackno.isSome = true →
      (run cfg actions).RepliesTo seg := by
  intro h
  let c : TCPConnection := run { recvCapacity := 4, sendCapacity := 4, isn := ⟨100⟩ }
    [.segmentReceived { header := { seqno := ⟨7⟩, syn := true } }]
  let seg : TCPSegment := {
    header := { seqno := ⟨8⟩, ack := true, ackno := ⟨101⟩, win := 4 }
    payload := [1] }
  have hnothing : pushes c (c.segmentReceived seg) = [] := by decide
  have hdata : c.RepliesTo seg := h _ _ seg rfl (by decide) (by decide)
  obtain ⟨p, hp, -⟩ := hdata.1 (by decide)
  rw [hnothing] at hp
  exact absurd hp List.not_mem_nil

end TCPConnection

end NetworkLabs
