import NetworkLabs.Sponge.ByteStream.Sealed
import NetworkLabs.Sponge.TCPConnection.Closing

/-!
# A connection whose outgoing stream has ended

What a connection sends behind its FIN is decided by its outgoing stream: as long
as no write gets anything accepted after `end_input_stream`, the stream stays at
its end, every payload byte stands in front of the FIN, and there is one FIN
only. A write for which there is still room opens the stream again.

Numbers on the wire are compared by their place behind the initial one.
-/

namespace NetworkLabs

/-- The place of a number, counted from the initial one. -/
def WrappingInt32.place (isn n : WrappingInt32) : ℕ := (n.rawValue - isn.rawValue).toNat

theorem place_wrap (isn : WrappingInt32) (p : ℕ) : isn.place (wrap p isn) = p % 2 ^ 32 := by
  rw [WrappingInt32.place, wrap, UInt32.add_sub_cancel, UInt32.toNat_ofNat']

namespace TCPSegment

/-- The number of the byte `i` of the payload; the FIN has the number behind the
last byte. -/
def byteNumber (seg : TCPSegment) (i : ℕ) : WrappingInt32 :=
  ⟨seg.header.seqno.rawValue + (if seg.header.syn then 1 else 0) + UInt32.ofNat i⟩

def finNumber (seg : TCPSegment) : WrappingInt32 := seg.byteNumber seg.payload.length

theorem CutAt.byteNumber_eq {S : List UInt8} {isn : WrappingInt32} {index : ℕ} {seg : TCPSegment}
    (h : CutAt S isn index seg) (i : ℕ) : seg.byteNumber i = wrap (index + 1 + i) isn := by
  have hsyn := h.syn_index
  have hone : UInt32.ofNat 1 = 1 := rfl
  rw [byteNumber, h.seqno_eq, wrap, wrap, UInt32.ofNat_add]
  congr 1
  split_ifs with hflag
  · have hzero : UInt32.ofNat 0 = 0 := rfl
    rw [hsyn hflag, Nat.zero_add, hzero, hone]
    grind
  · grind

end TCPSegment

namespace TCPSender

/-- No segment of the sender is a reset. -/
structure Unreset (s : TCPSender) : Prop where
  queued : ∀ seg ∈ s.segmentsOut, seg.header.rst = false
  stored : ∀ e ∈ s.segmentsCache, e.2.header.rst = false

section

variable {s : TCPSender}

theorem Unreset.transmit (h : Unreset s) {seg : TCPSegment} (hseg : seg.header.rst = false) :
    Unreset (s.transmit seg) where
  queued := by
    intro seg' hseg'
    rcases List.mem_append.mp hseg' with hold | hnew
    · exact h.queued seg' hold
    · rw [List.mem_singleton.mp hnew]
      exact hseg
  stored := by
    intro e he
    rcases (mem_transmit_segmentsCache s seg e).mp he with rfl | ⟨hold, -⟩
    · exact hseg
    · exact h.stored e hold

theorem Unreset.fillWindow (h : Unreset s) : Unreset s.fillWindow := by
  apply fillWindow_induction (P := Unreset)
  · exact fun t ht _ => ht.transmit rfl
  · intro t remsz ht _ _ _
    have hread : Unreset (t.afterRead remsz) := ⟨ht.queued, ht.stored⟩
    exact hread.transmit rfl
  · exact fun t remsz ht _ => ⟨ht.queued, ht.stored⟩
  · intro t ht _ _ _
    have hfin : Unreset (t.transmit t.finSegment) := ht.transmit rfl
    exact ⟨hfin.queued, hfin.stored⟩
  · exact h

theorem Unreset.ackReceived (h : Unreset s) (ackno : WrappingInt32) (windowSize : UInt16) :
    Unreset (s.ackReceived ackno windowSize) := by
  have hpop : Unreset (s.popAcked ackno windowSize) :=
    ⟨h.queued, fun e he => h.stored e (mem_of_popAcked he)⟩
  rcases ackReceived_cases s ackno windowSize with ⟨-, heq⟩ | ⟨-, -, heq⟩ | ⟨-, -, heq⟩
  · rw [heq]
    exact h
  · rw [heq]
    exact hpop
  · rw [heq]
    apply Unreset.fillWindow
    exact ⟨hpop.queued, hpop.stored⟩

theorem Unreset.tick (h : Unreset s) (ms : ℕ) : Unreset (s.tick ms) := by
  obtain ⟨out, time, timeout, retx, heq, hout⟩ := tick_eq s ms
  rw [heq]
  refine ⟨?_, h.stored⟩
  intro seg hseg
  rcases List.mem_append.mp hseg with hold | hnew
  · exact h.queued seg hold
  · obtain ⟨k, hk⟩ := hout seg hnew
    exact h.stored _ hk

end

/-- The stream of `t` was written as far as that of `s`, and is at its end if that
one was. -/
structure StreamStays (s t : TCPSender) : Prop where
  bytesWritten_eq : t.stream.bytesWritten = s.stream.bytesWritten
  eof_stays : s.stream.eof = true → t.stream.eof = true

section

variable {s t u : TCPSender}

theorem StreamStays.of_eq (h : t.stream = s.stream) : StreamStays s t where
  bytesWritten_eq := by rw [h]
  eof_stays := by
    rw [h]
    exact id

theorem StreamStays.trans (h : StreamStays s t) (h' : StreamStays t u) : StreamStays s u where
  bytesWritten_eq := h'.bytesWritten_eq.trans h.bytesWritten_eq
  eof_stays := fun heof => h'.eof_stays (h.eof_stays heof)

/-- What `fill_window` reads at the end of the stream is nothing. -/
theorem streamStays_fillWindow (s : TCPSender) : StreamStays s s.fillWindow where
  bytesWritten_eq := (stream_fillWindow s).1
  eof_stays := by
    have hread (t : TCPSender) (n : ℕ) (ht : t.stream.eof = true) :
        (t.afterRead n).stream.eof = true := by
      simp only [ByteStream.eof, ByteStream.bufferEmpty, Bool.and_eq_true, beq_iff_eq] at ht ⊢
      exact ⟨ht.1, t.stream.bufferSize_popOutput _ ht.2⟩
    intro h
    apply fillWindow_induction (P := fun t => t.stream.eof = true)
    · exact fun t ht _ => ht
    · exact fun t remsz ht _ _ _ => hread t remsz ht
    · exact fun t remsz ht _ => hread t remsz ht
    · exact fun t ht _ _ _ => ht
    · exact h

theorem streamStays_ackReceived (s : TCPSender) (ackno : WrappingInt32) (windowSize : UInt16) :
    StreamStays s (s.ackReceived ackno windowSize) := by
  rcases ackReceived_cases s ackno windowSize with ⟨-, heq⟩ | ⟨-, -, heq⟩ | ⟨-, -, heq⟩
  · rw [heq]
    exact StreamStays.of_eq rfl
  · rw [heq]
    exact StreamStays.of_eq rfl
  · rw [heq]
    have hrestart : StreamStays s
        ((s.popAcked ackno windowSize).restart (s.nBytes ackno) windowSize) := StreamStays.of_eq rfl
    exact hrestart.trans (streamStays_fillWindow _)

end

end TCPSender

namespace TCPConnection

open TCPSegment TCPSender

/-- The resets in the queue are bare, and none comes from the sender. -/
structure Resets (c : TCPConnection) : Prop where
  unreset : Unreset c.sender
  bare : ∀ seg ∈ c.segmentsOut, seg.header.rst = true → seg = rstSegment

section

variable {c : TCPConnection}

theorem Resets.of_sender (h : Resets c) {s : TCPSender} (hs : Unreset s) :
    Resets { c with sender := s } := ⟨hs, h.bare⟩

theorem stamp_rst (r : TCPReceiver) (seg : TCPSegment) :
    (stamp r seg).header.rst = seg.header.rst := by
  rw [stamp]
  cases r.ackno with
  | none => rfl
  | some ackno => rfl

theorem Resets.sendData (h : Resets c) : Resets c.sendData where
  unreset := by
    rw [sendData_sender]
    exact ⟨fun _ hseg => absurd hseg List.not_mem_nil, h.unreset.stored⟩
  bare := by
    intro seg hseg hrst
    rw [sendData_segmentsOut] at hseg
    rcases List.mem_append.mp hseg with hold | hnew
    · exact h.bare seg hold hrst
    · obtain ⟨seg', hseg', rfl⟩ := List.mem_map.mp hnew
      rw [stamp_rst, h.unreset.queued seg' hseg'] at hrst
      exact absurd hrst Bool.false_ne_true

theorem Resets.enter (h : Resets c) (a : Action) : Resets (c.enter a) := by
  apply enter_induction (P := Resets) a h
  · exact fun _ => h.of_sender ⟨h.unreset.queued, h.unreset.stored⟩
  · exact h.of_sender ⟨h.unreset.queued, h.unreset.stored⟩
  · exact fun _ => ⟨h.unreset, h.bare⟩
  · exact fun ms => ⟨h.unreset.tick ms, h.bare⟩
  · exact ⟨h.unreset, h.bare⟩

theorem Resets.step (h : Resets c) (a : Action) : Resets (c.step a) := by
  have henter := h.enter a
  apply step_induction (P := Resets) a
  · exact fun _ => henter
  · exact fun _ => henter.of_sender henter.unreset.fillWindow
  · exact fun seg _ _ _ _ => henter.of_sender (henter.unreset.ackReceived _ _)
  · exact fun seg _ _ d hd => ⟨hd.unreset, hd.bare⟩
  · intro d _ hd
    refine hd.of_sender ⟨?_, hd.unreset.stored⟩
    intro seg hseg
    rcases List.mem_append.mp hseg with hold | hnew
    · exact hd.unreset.queued seg hold
    · rw [List.mem_singleton.mp hnew]
      rfl
  · exact fun d hd => hd.of_sender hd.unreset.fillWindow
  · exact fun d hd => hd.sendData
  · exact fun d hd => ⟨⟨hd.unreset.queued, hd.unreset.stored⟩, hd.bare⟩
  · intro d hd
    refine ⟨⟨hd.unreset.queued, hd.unreset.stored⟩, ?_⟩
    intro seg hseg hrst
    rcases List.mem_append.mp hseg with hold | hnew
    · exact hd.bare seg hold hrst
    · exact List.mem_singleton.mp hnew

theorem resets_run (cfg : TCPConfig) (actions : List Action) : Resets (run cfg actions) :=
  Transition.foldl_invariant Resets (fun _ a h => h.step a) (new cfg) actions {
    unreset := {
      queued := fun _ hseg => absurd hseg List.not_mem_nil
      stored := fun e he => absurd he (SortedMap.not_mem_empty e) }
    bare := fun _ hseg => absurd hseg List.not_mem_nil }

/-- Behind what an action does to the stream on its own, the stream stays. -/
theorem streamStays_step (c : TCPConnection) (a : Action) :
    StreamStays (c.enter a).sender (c.step a).sender := by
  have hself : StreamStays (c.enter a).sender (c.enter a).sender := StreamStays.of_eq rfl
  apply step_induction (P := fun d => StreamStays (c.enter a).sender d.sender) a
  · exact fun _ => hself
  · exact fun _ => streamStays_fillWindow _
  · exact fun seg _ _ _ _ => streamStays_ackReceived _ _ _
  · exact fun seg _ _ d hd => hd
  · exact fun d _ hd => hd.trans (StreamStays.of_eq rfl)
  · exact fun d hd => hd.trans (streamStays_fillWindow _)
  · intro d hd
    rw [sendData_sender]
    exact hd.trans (StreamStays.of_eq rfl)
  · exact fun d hd => ⟨hd.bytesWritten_eq, hd.eof_stays⟩
  · exact fun d hd => ⟨hd.bytesWritten_eq, hd.eof_stays⟩

end

/-! ## Writes behind the end -/

/-- A writer has nothing to write, or finds the outgoing stream full. -/
def Roomless (c : TCPConnection) (a : Action) : Prop :=
  ∀ data, a = .write data → data = [] ∨ c.sender.stream.remainingCapacity = 0

/-- What the end of the outgoing stream promises of an action. -/
structure SealedStep (c : TCPConnection) (a : Action) : Prop where
  rejects : ∀ data, a = .write data → (c.write data).2 = 0
  bytesWritten_eq : (c.step a).sender.stream.bytesWritten = c.sender.stream.bytesWritten
  eof_stays : c.sender.stream.eof = true → (c.step a).sender.stream.eof = true

section

variable {S : List UInt8} {ended : Bool} {capacity : ℕ} {isn : WrappingInt32}
  {c : TCPConnection}

theorem stream_write_of_roomless (hcnt : c.sender.stream.writeCnt < 2 ^ 64) {data : List UInt8}
    (hroom : c.sender.stream.remainingCapacity = 0) :
    (c.sender.stream.write data).1 = c.sender.stream ∧ (c.sender.stream.write data).2 = 0 := by
  have hmin : min data.length c.sender.stream.remainingCapacity % 2 ^ 32 = 0 := by
    rw [hroom, Nat.min_zero, Nat.zero_mod]
  exact ⟨c.sender.stream.write_of_no_room hcnt data hmin,
    (c.sender.stream.write_snd_eq_zero_iff data).mpr hmin⟩

theorem sealedStep_of_roomless (hcnt : c.sender.stream.writeCnt < 2 ^ 64) (a : Action)
    (ha : c.Roomless a) : SealedStep c a := by
  have henter : StreamStays c.sender (c.enter a).sender := by
    cases a with
    | connect => exact StreamStays.of_eq rfl
    | write data =>
        rw [enter]
        split_ifs with hnil
        · exact StreamStays.of_eq rfl
        · have hroom := (ha data rfl).resolve_left hnil
          exact StreamStays.of_eq (stream_write_of_roomless hcnt hroom).1
    | endInputStream =>
        refine ⟨rfl, ?_⟩
        intro heof
        simp only [ByteStream.eof, Bool.and_eq_true] at heof
        change (true && c.sender.stream.bufferEmpty) = true
        rw [heof.2, Bool.and_self]
    | read len => exact StreamStays.of_eq rfl
    | tick ms =>
        rw [enter]
        split_ifs
        · exact StreamStays.of_eq rfl
        · obtain ⟨out, time, timeout, retx, heq, -⟩ := tick_eq c.sender ms
          apply StreamStays.of_eq
          change (c.sender.tick ms).stream = _
          rw [heq]
    | segmentReceived seg =>
        rw [enter]
        split_ifs
        · exact StreamStays.of_eq rfl
        · exact StreamStays.of_eq rfl
  have hstep := henter.trans (c.streamStays_step a)
  refine ⟨?_, hstep.bytesWritten_eq, hstep.eof_stays⟩
  intro data hdata
  rw [TCPConnection.write]
  split_ifs with hnil
  · rfl
  · exact (stream_write_of_roomless hcnt ((ha data hdata).resolve_left hnil)).2

theorem Outbound.writeCnt_lt (h : Outbound S ended capacity isn c) :
    c.sender.stream.writeCnt < 2 ^ 64 := by
  obtain ⟨q, first, fin, hsent, -, -⟩ := h.sent
  have hbound := hsent.refines.bound
  rw [hsent.refines.writeCnt_eq]
  omega

theorem Outbound.remainingCapacity_lt (h : Outbound S ended capacity isn c) :
    c.sender.stream.remainingCapacity < 2 ^ 31 := by
  obtain ⟨q, first, fin, hsent, -, -⟩ := h.sent
  have hbound := hsent.refines.bound
  have hroom := q.room_add_size
  rw [hsent.refines.remainingCapacity_eq]
  omega

/-- What an action does on its own, where nobody gets anything into a stream that
has ended. -/
theorem Outbound.exists_enter (h : Outbound S ended capacity isn c) (a : Action)
    (ha : ended = true → c.Roomless a)
    (hbound : (c.enter a).sender.stream.bytesWritten + capacity < 2 ^ 31) :
    ∃ S' ended', Outbound S' ended' capacity isn (c.enter a) ∧
      (ended' = true ↔ ended = true ∨ a = .endInputStream) := by
  cases a with
  | connect => exact ⟨S, ended, h, by simp⟩
  | write data =>
      rw [TCPConnection.enter] at hbound ⊢
      split_ifs at hbound ⊢ with hnil
      · exact ⟨S, ended, h, by simp⟩
      · cases hended : ended with
        | false =>
            rw [hended] at h
            have hlen : ((c.sender.stream.write data).1).bytesWritten =
                (S ++ data.take (c.sender.stream.write data).2).length := by
              obtain ⟨q, first, fin, hsent, hwritten, -⟩ := h.sent
              rw [hsent.refines.bytesWritten_write, BoundedFifo.written_push, hwritten,
                hsent.refines.take_write_snd]
            change ((c.sender.stream.write data).1).bytesWritten + capacity < 2 ^ 31 at hbound
            rw [hlen] at hbound
            exact ⟨_, false, h.write data hbound, by simp⟩
        | true =>
            have hroom := (ha hended data rfl).resolve_left hnil
            have hsame := (@stream_write_of_roomless c h.writeCnt_lt data hroom).1
            rw [hsame]
            exact ⟨S, true, by rwa [hended] at h, by simp⟩
  | endInputStream => exact ⟨S, true, h.endInput, by simp⟩
  | read len => exact ⟨S, ended, { h with }, by simp⟩
  | tick ms =>
      refine ⟨S, ended, ?_, by simp⟩
      rw [TCPConnection.enter]
      split_ifs
      · exact h
      · exact { h.tick ms with }
  | segmentReceived seg =>
      refine ⟨S, ended, ?_, by simp⟩
      rw [TCPConnection.enter]
      split_ifs
      · exact h
      · exact { h with }

theorem Outbound.exists_step (h : Outbound S ended capacity isn c) (a : Action)
    (ha : ended = true → c.Roomless a)
    (hbound : (c.step a).sender.stream.bytesWritten + capacity < 2 ^ 31) :
    ∃ S' ended', Outbound S' ended' capacity isn (c.step a) ∧
      (ended' = true ↔ ended = true ∨ a = .endInputStream) := by
  rw [(c.streamStays_step a).bytesWritten_eq] at hbound
  obtain ⟨S', ended', hentered, hended⟩ := h.exists_enter a ha hbound
  refine ⟨S', ended', ?_, hended⟩
  apply step_induction (P := Outbound S' ended' capacity isn) a
  · exact fun _ => hentered
  · exact fun _ => hentered.fillWindow
  · exact fun seg _ _ _ _ => hentered.ackReceived seg
  · exact fun seg _ _ d hd => hd.receive seg
  · exact fun d hnext hd => hd.sendEmptySegment hnext
  · exact fun d hd => hd.fillWindow
  · exact fun d hd => hd.sendData
  · exact fun d hd => hd.abort
  · exact fun d hd => hd.resetConnection

end

/-- Nobody gets anything into the outgoing stream after `end_input_stream`. -/
def RoomlessRun (cfg : TCPConfig) (actions : List Action) : Prop :=
  ∀ k (h : k < actions.length), .endInputStream ∈ actions.take k →
    Roomless (run cfg (actions.take k)) actions[k]

/-- What the end of the outgoing stream promises of a run: nothing is accepted any
more, every payload byte ever sent stands in front of every FIN, and every FIN is
the same one. -/
structure SealedRun (cfg : TCPConfig) (actions : List Action) : Prop where
  steps : ∀ k (h : k < actions.length), .endInputStream ∈ actions.take k →
    SealedStep (run cfg (actions.take k)) actions[k]
  payload_before_fin : ∀ fin ∈ (run cfg actions).segmentsOut, fin.header.fin = true →
    ∀ seg ∈ (run cfg actions).segmentsOut, ∀ i < seg.payload.length,
      cfg.isn.place (seg.byteNumber i) < cfg.isn.place fin.finNumber
  fin_unique : ∀ fin ∈ (run cfg actions).segmentsOut, fin.header.fin = true →
    ∀ fin' ∈ (run cfg actions).segmentsOut, fin'.header.fin = true →
      fin'.finNumber = fin.finNumber

section

variable {cfg : TCPConfig} {actions : List Action}

/-- The run lemma behind `Outbound.exists_step`. -/
theorem outbound_take
    (hbound : ∀ k, (run cfg (actions.take k)).sender.stream.bytesWritten + cfg.sendCapacity
      < 2 ^ 31) (k : ℕ) (hk : k ≤ actions.length)
    (hroom : ∀ j (h : j < actions.length), j < k → .endInputStream ∈ actions.take j →
      Roomless (run cfg (actions.take j)) actions[j]) :
    ∃ S ended, Outbound S ended cfg.sendCapacity cfg.isn (run cfg (actions.take k)) ∧
      (ended = true ↔ .endInputStream ∈ actions.take k) := by
  induction k with
  | zero =>
      have hcap : 0 + cfg.sendCapacity < 2 ^ 31 := hbound 0
      exact ⟨[], false, Outbound.start cfg (by omega), by simp⟩
  | succ k ih =>
      obtain ⟨S, ended, h, hended⟩ := ih (by omega) fun j hj hlt => hroom j hj (by omega)
      have hnext := hbound (k + 1)
      rw [run_take_succ cfg actions hk] at hnext ⊢
      obtain ⟨S', ended', h', hended'⟩ := h.exists_step actions[k]
        (fun hend => hroom k hk (Nat.lt_succ_self k) (hended.mp hend)) hnext
      refine ⟨S', ended', h', ?_⟩
      rw [hended', hended, List.take_succ_eq_append_getElem hk, List.mem_append,
        List.mem_singleton, eq_comm (b := actions[k])]

theorem outbound_run
    (hbound : ∀ k, (run cfg (actions.take k)).sender.stream.bytesWritten + cfg.sendCapacity
      < 2 ^ 31) (hroom : RoomlessRun cfg actions) :
    ∃ S ended, Outbound S ended cfg.sendCapacity cfg.isn (run cfg actions) := by
  obtain ⟨S, ended, h, -⟩ := outbound_take hbound actions.length le_rfl
    fun j hj _ => hroom j hj
  rw [List.take_length] at h
  exact ⟨S, ended, h⟩

/-- What is not a bare reset is cut from the outgoing stream. -/
theorem cutAt_of_mem {S : List UInt8} {ended : Bool}
    (h : Outbound S ended cfg.sendCapacity cfg.isn (run cfg actions)) {seg : TCPSegment}
    (hseg : seg ∈ (run cfg actions).segmentsOut) :
    seg = rstSegment ∨ ∃ index, CutAt S cfg.isn index seg := by
  rcases h.emitted seg (List.mem_append_left _ hseg) with hrst | ⟨hcut, -⟩
  · exact Or.inl ((resets_run cfg actions).bare seg hseg hrst)
  · exact Or.inr hcut

/-- The FIN stands behind the whole stream. -/
theorem finNumber_eq {S : List UInt8} {ended : Bool}
    (h : Outbound S ended cfg.sendCapacity cfg.isn (run cfg actions)) {fin : TCPSegment}
    (hmem : fin ∈ (run cfg actions).segmentsOut) (hfin : fin.header.fin = true) :
    fin.finNumber = wrap (S.length + 1) cfg.isn := by
  rcases cutAt_of_mem h hmem with rfl | ⟨index, hcut⟩
  · exact absurd hfin Bool.false_ne_true
  · have hend := hcut.fin_end hfin
    rw [finNumber, hcut.byteNumber_eq, ← hend]
    congr 1
    omega

/-- A byte of a payload stands inside the stream. -/
theorem place_byteNumber_lt {S : List UInt8} {ended : Bool}
    (h : Outbound S ended cfg.sendCapacity cfg.isn (run cfg actions)) (hS : S.length < 2 ^ 31)
    {seg : TCPSegment} (hmem : seg ∈ (run cfg actions).segmentsOut) (i : ℕ)
    (hi : i < seg.payload.length) : cfg.isn.place (seg.byteNumber i) < S.length + 1 := by
  rcases cutAt_of_mem h hmem with rfl | ⟨index, hcut⟩
  · exact absurd hi (Nat.not_lt_zero i)
  · have hlen := hcut.slice.add_length_le (List.ne_nil_of_length_pos (by omega))
    rw [hcut.byteNumber_eq, place_wrap, Nat.mod_eq_of_lt (by omega)]
    omega

/-- The promise of a run is kept exactly if nobody gets anything in after the
end. -/
theorem sealedRun_iff
    (hbound : ∀ k, (run cfg (actions.take k)).sender.stream.bytesWritten + cfg.sendCapacity
      < 2 ^ 31) : SealedRun cfg actions ↔ RoomlessRun cfg actions := by
  constructor
  · intro h k
    induction k using Nat.strong_induction_on with
    | _ k ih =>
        intro hk hend data hdata
        obtain ⟨S, ended, hout, -⟩ := outbound_take hbound k hk.le fun j hj hlt => ih j hlt hj
        by_contra hnot
        obtain ⟨hnil, hroom⟩ := not_or.mp hnot
        have hzero := (h.steps k hk hend).rejects data hdata
        rw [TCPConnection.write, if_neg hnil] at hzero
        have hmin := (ByteStream.write_snd_eq_zero_iff _ data).mp hzero
        have hlt := hout.remainingCapacity_lt
        have hpos := List.length_pos_iff.mpr hnil
        omega
  · intro hroom
    obtain ⟨S, ended, h⟩ := outbound_run hbound hroom
    have hS : S.length < 2 ^ 31 := by
      have hlast := hbound actions.length
      rw [List.take_length, h.bytesWritten_eq] at hlast
      omega
    refine ⟨?_, ?_, ?_⟩
    · intro k hk hend
      obtain ⟨S', ended', h', -⟩ := outbound_take hbound k hk.le fun j hj _ => hroom j hj
      exact sealedStep_of_roomless h'.writeCnt_lt _ (hroom k hk hend)
    · intro fin hmem hfin seg hseg i hi
      rw [finNumber_eq h hmem hfin, place_wrap, Nat.mod_eq_of_lt (by omega)]
      exact place_byteNumber_lt h hS hseg i hi
    · intro fin hmem hfin fin' hmem' hfin'
      rw [finNumber_eq h hmem hfin, finNumber_eq h hmem' hfin']

end

/-- The end of the input seals a stream, and with it what a connection sends,
exactly if after it every writer has nothing to write or finds the stream full. -/
theorem endInput_seals_iff (capacity : ℕ) (before after : List ByteStream.Call) (cfg : TCPConfig)
    (actions : List Action) :
    let s := (before.foldl ByteStream.step (ByteStream.new capacity)).endInput
    (ByteStream.SealedAlong s after ↔
      Transition.Along ByteStream.step ByteStream.NoRoom s after) ∧
    ((∀ k, (run cfg (actions.take k)).sender.stream.bytesWritten + cfg.sendCapacity < 2 ^ 31) →
      (SealedRun cfg actions ↔ RoomlessRun cfg actions)) := by
  intro s
  refine ⟨?_, fun hbound => sealedRun_iff hbound⟩
  have hcnt : s.writeCnt < 2 ^ 64 :=
    ByteStream.writeCnt_foldl_lt (ByteStream.new capacity) (Nat.two_pow_pos 64) before
  exact ByteStream.sealedAlong_iff s hcnt after

/-- A stream is ended when it is full, and a write behind that is refused. -/
theorem endInput_seals_iff_full :
    let cfg : TCPConfig := { recvCapacity := 4, sendCapacity := 4, isn := ⟨7⟩ }
    SealedRun cfg [.write [1, 2, 3, 4], .endInputStream, .write [5], .connect] := by
  intro cfg
  refine ((endInput_seals_iff 4 [] [] cfg [.write [1, 2, 3, 4], .endInputStream, .write [5],
    .connect]).2 fun k => ?_).mpr fun k hk hend => ?_
  · match k with
    | 0 => decide +kernel
    | 1 => decide +kernel
    | 2 => decide +kernel
    | 3 => decide +kernel
    | k + 4 =>
        rw [List.take_of_length_le (by simp)]
        decide +kernel
  · match k, hk with
    | 0, _ => exact absurd hend (by simp)
    | 1, _ => exact absurd hend (by simp)
    | 2, _ => exact fun data _ => Or.inr (by decide +kernel)
    | 3, _ => exact fun data hdata => absurd hdata (by simp)

/-- A byte written after the FIN was sent is accepted and sent, with a second FIN
behind it. -/
theorem not_sealed_after_fin :
    (¬ ∀ (capacity : ℕ) (before after : List ByteStream.Call),
      ByteStream.SealedAlong
        (before.foldl ByteStream.step (ByteStream.new capacity)).endInput after) ∧
    ¬ ∀ (cfg : TCPConfig) (actions : List Action), SealedRun cfg actions := by
  constructor
  · intro h
    exact absurd ((h 1 [] [.write [5]]).bytesWritten_eq 1) (by decide)
  · intro h
    have hrun := h { recvCapacity := 4, sendCapacity := 4, isn := ⟨7⟩ }
      [.connect,
        .segmentReceived
          { header := { seqno := ⟨7⟩, ackno := ⟨8⟩, ack := true, syn := true, win := 4 } },
        .endInputStream, .write [5]]
    have hfin := hrun.fin_unique
      { header := { seqno := ⟨8⟩, ackno := ⟨8⟩, ack := true, fin := true, win := 4 } }
      (by decide +kernel) rfl
      { header := { seqno := ⟨9⟩, ackno := ⟨8⟩, ack := true, fin := true, win := 4 },
        payload := [5] }
      (by decide +kernel) rfl
    exact absurd hfin (by decide)

end TCPConnection

end NetworkLabs
