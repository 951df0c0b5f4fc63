import NetworkLabs.Sponge.TCPConnection.Replies

/-!
# The numbers of what is put out

Whatever reaches `segments_out` through `_send_data` was transmitted by the
sender at some time, or it is an empty segment at the next number, and it is
stamped on its way out. The reset of a connection that gives up does not pass
through `_send_data`: it carries the number `0` and no acknowledgment.

The positions are counted in the list of all segments that the sender has
transmitted, each where it was transmitted first. A store and a queue hold
segments of this list only, and every segment of it has the number of the
position at which it begins.
-/

namespace NetworkLabs

namespace TCPSender

/-- The segments that were transmitted between `s` and `t`: they are stored behind
the number that was the next one. -/
def transmitted (s t : TCPSender) : List TCPSegment :=
  (t.segmentsCache.entries.filter fun e => s.nextSeqnoAbsolute < e.1).map Prod.snd

/-- From `s` to `t` the segments in `new` were transmitted and stored, and others
may have left the store. -/
structure Extends (s t : TCPSender) (new : List TCPSegment) : Prop where
  isn_eq : t.isn = s.isn
  next_eq : t.nextSeqnoAbsolute = s.nextSeqnoAbsolute + total new
  pos : ∀ seg ∈ new, 0 < seg.lengthInSequenceSpace
  seqno_eq : ∀ e ∈ ends s.nextSeqnoAbsolute new,
    e.2.header.seqno = wrap (e.1 - e.2.lengthInSequenceSpace) s.isn
  entries_eq : KeysLe s → ∃ kept, (∀ e ∈ kept, e ∈ s.segmentsCache.entries) ∧
    t.segmentsCache.entries = kept ++ ends s.nextSeqnoAbsolute new

/-- The segments in `log` are all that the sender has transmitted, in this order;
every stored one stands in the list where its key says. -/
structure Fits (log : List TCPSegment) (s : TCPSender) : Prop where
  next_eq : s.nextSeqnoAbsolute = total log
  pos : ∀ seg ∈ log, 0 < seg.lengthInSequenceSpace
  cached : ∀ e ∈ s.segmentsCache, e ∈ ends 0 log
  seqno_eq : ∀ e ∈ ends 0 log, e.2.header.seqno = wrap (e.1 - e.2.lengthInSequenceSpace) s.isn

section

variable {s t u : TCPSender} {new new' log : List TCPSegment}

theorem Extends.refl (s : TCPSender) : Extends s s [] where
  isn_eq := rfl
  next_eq := rfl
  pos := fun _ h => absurd h List.not_mem_nil
  seqno_eq := fun _ h => absurd h List.not_mem_nil
  entries_eq := fun _ => ⟨_, fun _ h => h, (List.append_nil _).symm⟩

/-- The queue, the stream and the timer do not matter. -/
theorem Extends.of_eq (h : Extends s t new) (hisn : u.isn = t.isn)
    (hnext : u.nextSeqnoAbsolute = t.nextSeqnoAbsolute)
    (hcache : u.segmentsCache = t.segmentsCache) : Extends s u new where
  isn_eq := hisn.trans h.isn_eq
  next_eq := hnext.trans h.next_eq
  pos := h.pos
  seqno_eq := h.seqno_eq
  entries_eq := by
    rw [hcache]
    exact h.entries_eq

theorem Extends.bounds (h : Extends s t new) {e : ℕ × TCPSegment}
    (he : e ∈ ends s.nextSeqnoAbsolute new) :
    s.nextSeqnoAbsolute < e.1 ∧ e.1 ≤ t.nextSeqnoAbsolute := by
  have hbounds := Tiling.bounds_of_mem_ends TCPSegment.lengthInSequenceSpace
    s.nextSeqnoAbsolute new e he
  have hpos := h.pos _ (Tiling.mem_of_mem_ends _ _ _ e he)
  rw [h.next_eq]
  exact ⟨by omega, hbounds.2⟩

theorem Extends.keysLe (h : Extends s t new) (hkeys : KeysLe s) : KeysLe t := by
  obtain ⟨kept, hkept, hentries⟩ := h.entries_eq hkeys
  intro e he
  rw [SortedMap.mem_def, hentries] at he
  rcases List.mem_append.mp he with he | he
  · have hle := hkeys e (hkept e he)
    rw [h.next_eq]
    exact le_trans hle (Nat.le_add_right _ _)
  · exact (h.bounds he).2

/-- More is transmitted. -/
theorem Extends.transmits (h : Extends s t new) (h' : Transmits t u new') :
    Extends s u (new ++ new') where
  isn_eq := h'.isn_eq.trans h.isn_eq
  next_eq := by rw [h'.next_eq, h.next_eq, total_append, Nat.add_assoc]
  pos := by
    intro seg hseg
    rcases List.mem_append.mp hseg with hseg | hseg
    · exact h.pos seg hseg
    · exact h'.pos seg hseg
  seqno_eq := by
    intro e he
    rw [ends, Tiling.ends_append, List.mem_append] at he
    rcases he with he | he
    · exact h.seqno_eq e he
    · have hnumber := h'.seqno_eq e
      rw [h.isn_eq, h.next_eq] at hnumber
      exact hnumber he
  entries_eq := by
    intro hkeys
    obtain ⟨kept, hkept, hentries⟩ := h.entries_eq hkeys
    refine ⟨kept, hkept, ?_⟩
    rw [h'.entries_eq (h.keysLe hkeys), hentries, h.next_eq, ends, ends, ends,
      Tiling.ends_append, List.append_assoc]

/-- What was transmitted can be read off the store. -/
theorem Extends.transmitted_eq (h : Extends s t new) (hkeys : KeysLe s) :
    transmitted s t = new := by
  obtain ⟨kept, hkept, hentries⟩ := h.entries_eq hkeys
  have hold : kept.filter (fun e => decide (s.nextSeqnoAbsolute < e.1)) = [] := by
    rw [List.filter_eq_nil_iff]
    intro e he
    simpa using hkeys e (hkept e he)
  have hnew : (ends s.nextSeqnoAbsolute new).filter
      (fun e => decide (s.nextSeqnoAbsolute < e.1)) = ends s.nextSeqnoAbsolute new := by
    rw [List.filter_eq_self]
    intro e he
    exact decide_eq_true (h.bounds he).1
  rw [transmitted, hentries, List.filter_append, hold, hnew, List.nil_append]
  exact Tiling.map_snd_ends _ _ _

/-- What `ack_received` does to the numbers. -/
theorem extends_noteAck (s : TCPSender) (ackno : WrappingInt32) (windowSize : UInt16) :
    Extends s (s.noteAck ackno windowSize) [] where
  isn_eq := noteAck_isn s ackno windowSize
  next_eq := noteAck_nextSeqnoAbsolute s ackno windowSize
  pos := fun _ h => absurd h List.not_mem_nil
  seqno_eq := fun _ h => absurd h List.not_mem_nil
  entries_eq := by
    intro _
    refine ⟨_, fun e he => ?_, (List.append_nil _).symm⟩
    rw [noteAck] at he
    split_ifs at he
    · exact he
    · exact List.mem_of_mem_filter he
    · exact List.mem_of_mem_filter he

theorem Fits.keysLe (h : Fits log s) : KeysLe s := by
  intro e he
  have hbounds := Tiling.bounds_of_mem_ends TCPSegment.lengthInSequenceSpace 0 log e
    (h.cached e he)
  rw [h.next_eq]
  exact le_trans hbounds.2 (Nat.zero_add _).le

theorem Fits.extends (h : Fits log s) (h' : Extends s t new) : Fits (log ++ new) t where
  next_eq := by rw [h'.next_eq, h.next_eq, total_append]
  pos := by
    intro seg hseg
    rcases List.mem_append.mp hseg with hseg | hseg
    · exact h.pos seg hseg
    · exact h'.pos seg hseg
  cached := by
    obtain ⟨kept, hkept, hentries⟩ := h'.entries_eq h.keysLe
    intro e he
    rw [SortedMap.mem_def, hentries] at he
    rw [ends, Tiling.ends_append, List.mem_append, Nat.zero_add]
    rcases List.mem_append.mp he with he | he
    · exact Or.inl (h.cached e (hkept e he))
    · rw [h.next_eq] at he
      exact Or.inr he
  seqno_eq := by
    intro e he
    rw [ends, Tiling.ends_append, List.mem_append, Nat.zero_add] at he
    rw [h'.isn_eq]
    rcases he with he | he
    · exact h.seqno_eq e he
    · have hnumber := h'.seqno_eq e
      rw [h.next_eq] at hnumber
      exact hnumber he

/-- What the store holds was transmitted. -/
theorem Fits.mem_log (h : Fits log s) {k : ℕ} {seg : TCPSegment}
    (hseg : (k, seg) ∈ s.segmentsCache) : seg ∈ log :=
  Tiling.mem_of_mem_ends _ _ _ _ (h.cached _ hseg)

end

/-- The tick is one retransmission too many. -/
def GivesUp (s : TCPSender) (ms : ℕ) : Prop :=
  TCPConfig.MAX_RETX_ATTEMPTS < s.consecutiveRetransmissions ∨
    (s.consecutiveRetransmissions = TCPConfig.MAX_RETX_ATTEMPTS ∧
      s.segmentsCache.entries ≠ [] ∧ s.peerWindowsSize ≠ 0 ∧
      s.initialRetransmissionTimeout.toNat ≤ sizeT (s.time + ms))

theorem givesUp_iff (s : TCPSender) (ms : ℕ) :
    TCPConfig.MAX_RETX_ATTEMPTS < (s.tick ms).consecutiveRetransmissions ↔ s.GivesUp ms := by
  have hmax : TCPConfig.MAX_RETX_ATTEMPTS = 8 := rfl
  rw [GivesUp, consecutiveRetransmissions, consecutiveRetransmissions, hmax, tick]
  cases hentries : s.segmentsCache.entries with
  | nil => simp
  | cons oldest rest =>
      simp only
      by_cases hexpired : s.initialRetransmissionTimeout.toNat ≤ sizeT (s.time + ms) ∧
          s.retxTimes.toNat ≤ TCPConfig.MAX_RETX_ATTEMPTS
      · rw [if_pos hexpired]
        obtain ⟨htime, hle⟩ := hexpired
        by_cases hpeer : s.peerWindowsSize ≠ 0
        · simp only [if_pos hpeer]
          have hadd : (s.retxTimes + 1).toNat = s.retxTimes.toNat + 1 := by
            rw [UInt8.toNat_add]
            have hone : (1 : UInt8).toNat = 1 := rfl
            rw [hone]
            exact Nat.mod_eq_of_lt (by omega)
          rw [hadd]
          constructor
          · intro hlt
            exact Or.inr ⟨by omega, List.cons_ne_nil _ _, hpeer, htime⟩
          · rintro (hlt | ⟨heq, -⟩)
            · omega
            · omega
        · simp only [if_neg hpeer]
          constructor
          · exact Or.inl
          · rintro (hlt | ⟨-, -, hopen, -⟩)
            · exact hlt
            · exact absurd hopen hpeer
      · rw [if_neg hexpired]
        constructor
        · exact Or.inl
        · rintro (hlt | ⟨heq, -, -, htime⟩)
          · exact hlt
          · exact absurd ⟨htime, by rw [heq, hmax]⟩ hexpired

end TCPSender

namespace TCPConnection

open TCPSender

/-- A connection, and the segments that its sender has transmitted so far. -/
structure Traced where
  conn : TCPConnection
  log : List TCPSegment

namespace Traced

def start (cfg : TCPConfig) : Traced := ⟨new cfg, []⟩

def step (t : Traced) (a : Action) : Traced where
  conn := t.conn.step a
  log := t.log ++ transmitted t.conn.sender (t.conn.step a).sender

/-- The number of a segment that has just been put out, in front of those in
`behind`. One that occupies sequence numbers is a transmitted one, at the position
at which it was transmitted; another one is at the number that was the next one
when those behind it were still to come. The acknowledgment is the one that the
receiver has to give. -/
structure Addressed (t : Traced) (behind : List TCPSegment) (seg : TCPSegment) : Prop where
  occupied : 0 < seg.lengthInSequenceSpace → ∃ e ∈ ends 0 t.log,
    e.2.payload = seg.payload ∧ e.2.header.syn = seg.header.syn ∧
      e.2.header.fin = seg.header.fin ∧
      seg.header.seqno = wrap (e.1 - e.2.lengthInSequenceSpace) t.conn.sender.isn
  empty : seg.lengthInSequenceSpace = 0 →
    seg.header.seqno = wrap (t.conn.sender.nextSeqnoAbsolute - total behind) t.conn.sender.isn
  acks : ∀ ackno, t.conn.receiver.ackno = some ackno →
    seg.header.ack = true ∧ seg.header.ackno = ackno

/-- The segments of a list that was put out by the last call. -/
def AllAddressed (t : Traced) : List TCPSegment → Prop
  | [] => True
  | seg :: behind => t.Addressed behind seg ∧ t.AllAddressed behind

/-- The last call put out segments with the right numbers only. -/
def StepAddressed (t : Traced) (a : Action) : Prop :=
  (t.step a).AllAddressed (pushes t.conn (t.conn.step a))

/-- What the sender has transmitted fits what it holds. -/
structure Consistent (t : Traced) : Prop where
  fits : Fits t.log t.conn.sender
  queue : ∀ seg ∈ t.conn.sender.segmentsOut, seg ∈ t.log

end Traced

theorem total_map_stamp (r : TCPReceiver) (l : List TCPSegment) :
    total (l.map (stamp r)) = total l := by
  induction l with
  | nil => rfl
  | cons seg l ih =>
      have hlength := stamp_length r seg
      rw [total] at ih
      rw [List.map_cons, total, total, Tiling.total_cons, Tiling.total_cons, hlength, ih]

section

variable {t : Traced} {l m : List TCPSegment} {seg : TCPSegment}

/-- A segment that is stamped on its way out has the right acknowledgment. -/
theorem acks_stamp (r : TCPReceiver) (seg : TCPSegment) (ackno : WrappingInt32)
    (h : r.ackno = some ackno) :
    (stamp r seg).header.ack = true ∧ (stamp r seg).header.ackno = ackno := by
  rw [stamp, h]
  exact ⟨rfl, rfl⟩

theorem addressed_stamp_of_mem (h : Fits t.log t.conn.sender) (hseg : seg ∈ t.log)
    (behind : List TCPSegment) : t.Addressed behind (stamp t.conn.receiver seg) where
  occupied := by
    intro _
    obtain ⟨k, hk⟩ := Tiling.exists_mem_ends TCPSegment.lengthInSequenceSpace 0 t.log seg hseg
    obtain ⟨hpayload, hsyn, hfin, hseqno⟩ := stamp_fields t.conn.receiver seg
    rw [hpayload, hsyn, hfin, hseqno]
    exact ⟨(k, seg), hk, rfl, rfl, rfl, h.seqno_eq _ hk⟩
  empty := by
    intro h0
    rw [stamp_length] at h0
    exact absurd h0 (h.pos seg hseg).ne'
  acks := acks_stamp t.conn.receiver seg

theorem allAddressed_append (h : Fits t.log t.conn.sender) (hl : ∀ seg ∈ l, seg ∈ t.log)
    (hm : t.AllAddressed (m.map (stamp t.conn.receiver))) :
    t.AllAddressed ((l ++ m).map (stamp t.conn.receiver)) := by
  induction l with
  | nil => exact hm
  | cons seg l ih =>
      refine ⟨addressed_stamp_of_mem h (hl seg List.mem_cons_self) _, ih ?_⟩
      exact fun seg' hseg' => hl seg' (List.mem_cons_of_mem seg hseg')

/-- What the sender had queued, an empty segment or none, and what was transmitted
behind it. -/
theorem allAddressed_answer (h : Fits t.log t.conn.sender) {s : TCPSender} (empty : Bool)
    (hl : ∀ seg ∈ l, seg ∈ t.log) (hm : ∀ seg ∈ m, seg ∈ t.log)
    (hnext : t.conn.sender.nextSeqnoAbsolute = s.nextSeqnoAbsolute + total m)
    (hisn : t.conn.sender.isn = s.isn) :
    t.AllAddressed
      ((l ++ (if empty then [s.emptySegment] else []) ++ m).map (stamp t.conn.receiver)) := by
  have hbehind : t.AllAddressed (m.map (stamp t.conn.receiver)) := by
    have happend := allAddressed_append (m := []) h hm trivial
    rwa [List.append_nil] at happend
  rw [List.append_assoc]
  apply allAddressed_append h hl
  cases empty
  · exact hbehind
  · refine ⟨{ occupied := ?_, empty := ?_, acks := acks_stamp t.conn.receiver _ }, hbehind⟩
    · intro hpos
      rw [stamp_length] at hpos
      exact absurd hpos (lt_irrefl 0)
    · intro _
      rw [(stamp_fields t.conn.receiver s.emptySegment).2.2.2]
      change s.nextSeqno = wrap (_ - total (m.map (stamp t.conn.receiver))) _
      rw [total_map_stamp, hnext, Nat.add_sub_cancel, hisn, nextSeqno]

end

/-! ## One action -/

section

variable {c d : TCPConnection} {log old : List TCPSegment}

/-- What the sender transmits when an acknowledgment is read. -/
theorem exists_readAckno_extends (c : TCPConnection) (seg : TCPSegment) :
    ∃ old, Extends c.sender (c.readAckno seg).sender old ∧
      (c.readAckno seg).sender.segmentsOut = c.sender.segmentsOut ++ old := by
  rw [readAckno_sender]
  split_ifs
  · obtain ⟨old, hold, -⟩ := c.sender.exists_ackReceived seg.header.ackno seg.header.win
    refine ⟨old, (extends_noteAck c.sender _ _).transmits hold, ?_⟩
    rw [hold.out_eq, noteAck_segmentsOut]
  · exact ⟨[], Extends.refl _, (List.append_nil _).symm⟩

/-- An answer of `d` puts out the queue, an empty segment or none, and what is
transmitted behind it. -/
theorem exists_answer_extends (hext : Extends c.sender d.sender old)
    (hout : d.segmentsOut = c.segmentsOut) (empty fill : Bool) :
    ∃ new, Extends c.sender (d.answer empty fill).sender (old ++ new) ∧
      (d.answer empty fill).sender.segmentsOut = [] ∧
      (d.answer empty fill).receiver = d.receiver ∧
      (d.answer empty fill).sender.nextSeqnoAbsolute = d.sender.nextSeqnoAbsolute + total new ∧
      (d.answer empty fill).sender.isn = d.sender.isn ∧
      pushes c (d.answer empty fill) = (d.sender.segmentsOut ++
        (if empty then [d.sender.emptySegment] else []) ++ new).map (stamp d.receiver) := by
  obtain ⟨e, he⟩ : ∃ e, e = if empty then d.sendEmptySegment else d := ⟨_, rfl⟩
  have hfirst : Extends c.sender e.sender old := by
    rw [he]
    cases empty
    · exact hext
    · exact hext.of_eq rfl rfl rfl
  have hempty : e.sender.segmentsOut =
      d.sender.segmentsOut ++ if empty then [d.sender.emptySegment] else [] := by
    rw [he]
    cases empty
    · exact (List.append_nil _).symm
    · rfl
  have hsame : e.receiver = d.receiver ∧ e.segmentsOut = c.segmentsOut ∧
      e.sender.nextSeqnoAbsolute = d.sender.nextSeqnoAbsolute ∧ e.sender.isn = d.sender.isn := by
    rw [he]
    cases empty
    · exact ⟨rfl, hout, rfl, rfl⟩
    · exact ⟨rfl, hout, rfl, rfl⟩
  obtain ⟨hreceiver, hpushed, hnext, hisn⟩ := hsame
  rw [answer, ← he]
  cases fill
  · rw [if_neg Bool.false_ne_true, sendData_sender, sendData_receiver]
    refine ⟨[], ?_, rfl, hreceiver, hnext, hisn, ?_⟩
    · rw [List.append_nil]
      exact hfirst.of_eq rfl rfl rfl
    · apply pushes_eq
      rw [sendData_segmentsOut, hpushed, hempty, hreceiver, List.append_nil]
  · obtain ⟨new, hnew⟩ := transmits_fillWindow e.sender
    rw [if_pos rfl, sendData_sender, sendData_receiver]
    refine ⟨new, (hfirst.transmits hnew).of_eq rfl rfl rfl, rfl, hreceiver, ?_,
      hnew.isn_eq.trans hisn, ?_⟩
    · exact hnew.next_eq.trans (by rw [hnext])
    · apply pushes_eq
      rw [sendData_segmentsOut]
      change e.segmentsOut ++ e.sender.fillWindow.segmentsOut.map (stamp e.receiver) = _
      rw [hnew.out_eq, hpushed, hempty, hreceiver]

/-- An answer, after the sender has transmitted the segments in `old`. -/
theorem exists_answer_addressed (h : Fits log c.sender) (hext : Extends c.sender d.sender old)
    (hqueue : ∀ seg ∈ d.sender.segmentsOut, seg ∈ log ++ old)
    (hout : d.segmentsOut = c.segmentsOut) (empty fill : Bool) :
    ∃ new, Extends c.sender (d.answer empty fill).sender new ∧
      (d.answer empty fill).sender.segmentsOut = [] ∧
      Traced.AllAddressed ⟨d.answer empty fill, log ++ new⟩ (pushes c (d.answer empty fill)) := by
  obtain ⟨new, hlast, hnone, hreceiver, hnext, hisn, hpush⟩ :=
    exists_answer_extends hext hout empty fill
  refine ⟨old ++ new, hlast, hnone, ?_⟩
  rw [hpush, ← hreceiver]
  apply allAddressed_answer (t := ⟨d.answer empty fill, log ++ (old ++ new)⟩) (h.extends hlast)
    empty _ _ hnext hisn
  · intro seg hseg
    rw [← List.append_assoc]
    exact List.mem_append_left _ (hqueue seg hseg)
  · exact fun seg hseg => List.mem_append_right _ (List.mem_append_right _ hseg)

end

/-- The reset of a tick that gives up has the right numbers only by chance: the
next number is `0`, and the receiver has nothing to acknowledge. -/
def ResetFits (c : TCPConnection) : Action → Prop
  | .tick ms => c.active = true → c.sender.GivesUp ms →
      c.sender.nextSeqno = ⟨0⟩ ∧ c.receiver.ackno = none
  | .connect => True
  | .write _ => True
  | .endInputStream => True
  | .read _ => True
  | .segmentReceived _ => True

section

variable {c : TCPConnection} {log : List TCPSegment}

theorem addressed_rstSegment_iff (t : Traced) :
    t.AllAddressed [rstSegment] ↔
      t.conn.sender.nextSeqno = ⟨0⟩ ∧ t.conn.receiver.ackno = none := by
  constructor
  · rintro ⟨h, -⟩
    refine ⟨(h.empty rfl).symm, ?_⟩
    cases hackno : t.conn.receiver.ackno with
    | none => rfl
    | some ackno => exact absurd (h.acks ackno hackno).1 Bool.false_ne_true
  · rintro ⟨hseqno, hnone⟩
    refine ⟨{ occupied := nofun, empty := fun _ => hseqno.symm, acks := ?_ }, trivial⟩
    intro ackno hackno
    rw [hnone] at hackno
    exact absurd hackno (Option.some_ne_none ackno).symm

/-- The sender has transmitted some segments; what it has in its queue was
transmitted, and what was put out has the right numbers. -/
def GoodStep (log : List TCPSegment) (c d : TCPConnection) : Prop :=
  ∃ new, Extends c.sender d.sender new ∧ (∀ seg ∈ d.sender.segmentsOut, seg ∈ log ++ new) ∧
    Traced.AllAddressed ⟨d, log ++ new⟩ (pushes c d)

theorem goodStep_of_quiet {d : TCPConnection} {new : List TCPSegment}
    (hext : Extends c.sender d.sender new) (hqueue : ∀ seg ∈ d.sender.segmentsOut, seg ∈ log ++ new)
    (hout : d.segmentsOut = c.segmentsOut) : GoodStep log c d := by
  refine ⟨new, hext, hqueue, ?_⟩
  have hpush : pushes c d = [] := pushes_eq (by rw [hout, List.append_nil])
  rw [hpush]
  trivial

theorem goodStep_answer {d : TCPConnection} {old : List TCPSegment} (h : Fits log c.sender)
    (hext : Extends c.sender d.sender old) (hqueue : ∀ seg ∈ d.sender.segmentsOut, seg ∈ log ++ old)
    (hout : d.segmentsOut = c.segmentsOut) (empty fill : Bool) :
    GoodStep log c (d.answer empty fill) := by
  obtain ⟨new, hlast, hnone, haddressed⟩ :=
    exists_answer_addressed h hext hqueue hout empty fill
  refine ⟨new, hlast, ?_, haddressed⟩
  rw [hnone]
  exact fun _ hseg => absurd hseg List.not_mem_nil

theorem goodStep_dispatch (h : Fits log c.sender)
    (hqueue : ∀ seg ∈ c.sender.segmentsOut, seg ∈ log) (seg : TCPSegment) :
    GoodStep log c (c.dispatch seg) := by
  obtain ⟨old, hext, hout⟩ := exists_readAckno_extends c seg
  have hold : ∀ seg' ∈ (c.readAckno seg).sender.segmentsOut, seg' ∈ log ++ old := by
    rw [hout]
    intro seg' hseg'
    rcases List.mem_append.mp hseg' with hseg' | hseg'
    · exact List.mem_append_left _ (hqueue seg' hseg')
    · exact List.mem_append_right _ hseg'
  rcases dispatch_cases c seg with ⟨-, heq⟩ | heq | ⟨empty, fill, -, heq⟩
  · rw [heq]
    exact goodStep_of_quiet (Extends.refl _)
      (fun seg' hseg' => List.mem_append_left _ (hqueue seg' hseg')) rfl
  · rw [heq]
    exact goodStep_of_quiet hext hold (readAckno_segmentsOut c seg)
  · rw [heq]
    exact goodStep_answer (d := (c.readAckno seg).receive seg) h hext hold
      (readAckno_segmentsOut c seg) empty fill

/-- The sender after a tick. -/
theorem extends_tick (h : Fits log c.sender)
    (hqueue : ∀ seg ∈ c.sender.segmentsOut, seg ∈ log) (ms : ℕ) :
    Extends c.sender (c.sender.tick ms) [] ∧
      ∀ seg ∈ (c.sender.tick ms).segmentsOut, seg ∈ log ++ [] := by
  obtain ⟨out, time, timeout, retx, heq, hout⟩ := tick_eq c.sender ms
  rw [heq, List.append_nil]
  refine ⟨(Extends.refl c.sender).of_eq rfl rfl rfl, ?_⟩
  intro seg hseg
  rcases List.mem_append.mp hseg with hseg | hseg
  · exact hqueue seg hseg
  · obtain ⟨k, hk⟩ := hout seg hseg
    exact h.mem_log hk

theorem goodStep_tick (h : Fits log c.sender)
    (hqueue : ∀ seg ∈ c.sender.segmentsOut, seg ∈ log) (ms : ℕ) (hover : c.active = true)
    (hfew : ¬ TCPConfig.MAX_RETX_ATTEMPTS < (c.sender.tick ms).consecutiveRetransmissions) :
    GoodStep log c (c.step (.tick ms)) := by
  obtain ⟨hext, htick⟩ := extends_tick h hqueue ms
  have hstep : c.step (.tick ms) = answer { c with
      timeSinceLastSegmentReceived := sizeT (c.timeSinceLastSegmentReceived + ms)
      sender := c.sender.tick ms } false false := by
    rw [step, tick, if_neg (by simp [hover])]
    exact if_neg hfew
  rw [hstep]
  exact goodStep_answer (d := { c with
    timeSinceLastSegmentReceived := sizeT (c.timeSinceLastSegmentReceived + ms)
    sender := c.sender.tick ms }) h hext htick rfl false false

/-- A tick that gives up: the segments in the queue stay there, and the reset is
put out instead. -/
theorem tick_of_gives_up (h : Fits log c.sender)
    (hqueue : ∀ seg ∈ c.sender.segmentsOut, seg ∈ log) (ms : ℕ) (hover : c.active = true)
    (hmany : TCPConfig.MAX_RETX_ATTEMPTS < (c.sender.tick ms).consecutiveRetransmissions) :
    Extends c.sender (c.step (.tick ms)).sender [] ∧
      (∀ seg ∈ (c.step (.tick ms)).sender.segmentsOut, seg ∈ log ++ []) ∧
      (Traced.AllAddressed ⟨c.step (.tick ms), log ++ []⟩ (pushes c (c.step (.tick ms))) ↔
        c.sender.nextSeqno = ⟨0⟩ ∧ c.receiver.ackno = none) := by
  obtain ⟨hext, htick⟩ := extends_tick h hqueue ms
  have hstep : c.step (.tick ms) = resetConnection { c with
      timeSinceLastSegmentReceived := sizeT (c.timeSinceLastSegmentReceived + ms)
      sender := c.sender.tick ms } := by
    rw [step, tick, if_neg (by simp [hover])]
    exact if_pos hmany
  have hpush : pushes c (c.step (.tick ms)) = [rstSegment] := by
    rw [hstep]
    exact pushes_eq rfl
  have hnext : (c.step (.tick ms)).sender.nextSeqno = c.sender.nextSeqno := by
    rw [hstep]
    change (c.sender.tick ms).nextSeqno = c.sender.nextSeqno
    rw [nextSeqno, hext.next_eq, hext.isn_eq, nextSeqno]
    rfl
  have hackno : (c.step (.tick ms)).receiver.ackno = c.receiver.ackno := by
    rw [hstep]
    rfl
  refine ⟨?_, ?_, ?_⟩
  · rw [hstep]
    exact hext.of_eq rfl rfl rfl
  · rw [hstep]
    exact htick
  · rw [hpush, addressed_rstSegment_iff, hnext, hackno]

/-- Every action makes a good step, but for a reset with the wrong numbers. -/
theorem exists_step (h : Fits log c.sender) (hqueue : ∀ seg ∈ c.sender.segmentsOut, seg ∈ log)
    (a : Action) :
    ∃ new, Extends c.sender (c.step a).sender new ∧
      (∀ seg ∈ (c.step a).sender.segmentsOut, seg ∈ log ++ new) ∧
      (Traced.AllAddressed ⟨c.step a, log ++ new⟩ (pushes c (c.step a)) ↔ c.ResetFits a) := by
  have hold : ∀ seg ∈ c.sender.segmentsOut, seg ∈ log ++ [] :=
    fun seg hseg => List.mem_append_left _ (hqueue seg hseg)
  have hgood : c.ResetFits a → GoodStep log c (c.step a) →
      ∃ new, Extends c.sender (c.step a).sender new ∧
        (∀ seg ∈ (c.step a).sender.segmentsOut, seg ∈ log ++ new) ∧
        (Traced.AllAddressed ⟨c.step a, log ++ new⟩ (pushes c (c.step a)) ↔ c.ResetFits a) := by
    rintro hfits ⟨new, hext, hnew, haddressed⟩
    exact ⟨new, hext, hnew, iff_of_true haddressed hfits⟩
  cases a with
  | connect => exact hgood trivial (goodStep_answer h (Extends.refl _) hold rfl false true)
  | write data =>
      apply hgood trivial
      change GoodStep log c (c.write data).1
      rw [write]
      split_ifs
      · exact goodStep_of_quiet (Extends.refl _) hold rfl
      · exact goodStep_answer (d := { c with sender := { c.sender with
          stream := (c.sender.stream.write data).1 } }) h
          ((Extends.refl _).of_eq rfl rfl rfl) hold rfl false true
  | endInputStream =>
      exact hgood trivial (goodStep_answer (d := { c with sender := { c.sender with
        stream := c.sender.stream.endInput } }) h ((Extends.refl _).of_eq rfl rfl rfl) hold rfl
        false true)
  | read len => exact hgood trivial (goodStep_of_quiet (Extends.refl _) hold rfl)
  | tick ms =>
      have hgives := givesUp_iff c.sender ms
      by_cases hover : c.active = true
      · by_cases hmany : TCPConfig.MAX_RETX_ATTEMPTS <
            (c.sender.tick ms).consecutiveRetransmissions
        · obtain ⟨hext, hnew, hiff⟩ := tick_of_gives_up h hqueue ms hover hmany
          refine ⟨[], hext, hnew, hiff.trans ?_⟩
          exact ⟨fun hfits _ _ => hfits, fun hfits => hfits hover (hgives.mp hmany)⟩
        · apply hgood
          · exact fun _ hgive => absurd (hgives.mpr hgive) hmany
          · exact goodStep_tick h hqueue ms hover hmany
      · have hstep : c.step (.tick ms) = c := by
          rw [step, tick, if_pos (by simpa using hover)]
        apply hgood
        · exact fun hactive => absurd hactive hover
        · rw [hstep]
          exact goodStep_of_quiet (Extends.refl _) hold rfl
  | segmentReceived seg =>
      apply hgood trivial
      change GoodStep log c (c.segmentReceived seg)
      rw [segmentReceived]
      simp only
      split_ifs
      · exact goodStep_of_quiet (Extends.refl _) hold rfl
      · exact goodStep_of_quiet ((Extends.refl _).of_eq rfl rfl rfl) hold rfl
      · exact goodStep_dispatch (c := { c with timeSinceLastSegmentReceived := 0 }) h hqueue seg

/-- The segments that a step has transmitted keep the log in order. -/
theorem Traced.step_spec {t : Traced} (h : t.Consistent) (a : Action) :
    (t.step a).Consistent ∧ (t.StepAddressed a ↔ t.conn.ResetFits a) := by
  obtain ⟨new, hext, hqueue, hiff⟩ := exists_step h.fits h.queue a
  have hlog : t.step a = ⟨t.conn.step a, t.log ++ new⟩ := by
    rw [Traced.step, hext.transmitted_eq h.fits.keysLe]
  rw [StepAddressed, hlog]
  exact ⟨⟨h.fits.extends hext, hqueue⟩, hiff⟩

end

theorem Traced.consistent_start (cfg : TCPConfig) : (Traced.start cfg).Consistent where
  fits := {
    next_eq := rfl
    pos := fun _ h => absurd h List.not_mem_nil
    cached := fun e he => absurd he (SortedMap.not_mem_empty e)
    seqno_eq := fun _ h => absurd h List.not_mem_nil }
  queue := fun _ h => absurd h List.not_mem_nil

/-- Every segment that a run puts out has the right numbers exactly if no reset of
a tick that gives up has the wrong ones. -/
theorem run_addressed_iff (cfg : TCPConfig) (actions : List Action) :
    Transition.Along Traced.step (fun t a => t.StepAddressed a) (Traced.start cfg) actions ↔
      Transition.Along step (fun c a => c.ResetFits a) (new cfg) actions := by
  rw [Transition.along_congr_of_invariant Traced.Consistent
    (fun t a h => (Traced.step_spec h a).1) (fun t a h => (Traced.step_spec h a).2)
    (Traced.start cfg) actions (Traced.consistent_start cfg)]
  exact Transition.along_map Traced.conn (fun _ _ => rfl) (Traced.start cfg) actions

/-- A SYN that was sent again eight times. -/
def unanswered : List Action :=
  [.connect, .tick 1000, .tick 2000, .tick 4000, .tick 8000, .tick 16000, .tick 32000,
    .tick 64000, .tick 128000]

/-- The reset that follows has the number `0` and not `101`. -/
theorem not_addressed_reset :
    ¬ ∀ (cfg : TCPConfig) (actions : List Action),
      Transition.Along Traced.step (fun t a => t.StepAddressed a) (Traced.start cfg) actions := by
  intro h
  have hrun := h { recvCapacity := 4, sendCapacity := 4, isn := ⟨100⟩ }
    (unanswered ++ [.tick 256000])
  rw [Transition.along_concat] at hrun
  obtain ⟨t, ht⟩ : ∃ t, t = unanswered.foldl Traced.step
    (Traced.start { recvCapacity := 4, sendCapacity := 4, isn := ⟨100⟩ }) := ⟨_, rfl⟩
  have hpush : pushes t.conn (t.conn.step (.tick 256000)) = [rstSegment] := by
    rw [ht]
    decide
  have hlast := hrun.2
  rw [← ht, Traced.StepAddressed, hpush, addressed_rstSegment_iff, ht] at hlast
  exact absurd hlast.1 (by decide)

end TCPConnection

end NetworkLabs
