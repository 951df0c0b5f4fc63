import NetworkLabs.Library.ListSlice
import NetworkLabs.Library.Transition
import NetworkLabs.Sponge.TCPSender.Steps

/-!
# How a sender cuts its stream

`Segmented isn l bytes fin` builds the lists of segments that a sender may
transmit for the first time: a lone SYN, then payloads one behind the other,
and the FIN at the end, on the last payload or on a segment of its own. Here
`bytes` are the payloads together.

A sender has transmitted such a list for the bytes it took from its stream, and
every stored segment is one of the list under the position behind it. Every
call extends the list at its end or leaves it as it is. What there is to know of a
tiling is then a matter of the list alone.
-/

namespace NetworkLabs

namespace TCPSender

/-- The lists of first transmissions, with the bytes they carry and whether the
FIN is among them. -/
inductive Segmented (isn : WrappingInt32) : List TCPSegment → List UInt8 → Bool → Prop where
  | nil : Segmented isn [] [] false
  | syn : Segmented isn [{ header := { seqno := isn, syn := true } }] [] false
  | data (l : List TCPSegment) (bytes payload : List UInt8) (fin : Bool)
      (hl : Segmented isn l bytes false) (hne : l ≠ []) (hpayload : payload ≠ [])
      (hmax : payload.length ≤ TCPConfig.MAX_PAYLOAD_SIZE) :
      Segmented isn
        (l ++ [{ header := { seqno := wrap (bytes.length + 1) isn, fin := fin },
                 payload := payload }])
        (bytes ++ payload) fin
  | fin (l : List TCPSegment) (bytes : List UInt8) (hl : Segmented isn l bytes false)
      (hne : l ≠ []) :
      Segmented isn
        (l ++ [{ header := { seqno := wrap (bytes.length + 1) isn, fin := true } }]) bytes true

namespace Segmented

variable {isn : WrappingInt32} {l : List TCPSegment} {bytes : List UInt8} {fin : Bool}

/-- The SYN, the bytes and the FIN make up the occupied numbers. -/
theorem total_eq (h : Segmented isn l bytes fin) :
    total l = (if l = [] then 0 else 1) + bytes.length + (if fin then 1 else 0) := by
  induction h with
  | nil => rfl
  | syn => rfl
  | data l bytes payload fin hl hne hpayload hmax ih =>
      simp only [total, Tiling.total_append, Tiling.total_cons, Tiling.total_nil,
        TCPSegment.lengthInSequenceSpace] at ih ⊢
      simp only [hne, List.append_eq_nil_iff, false_and, if_false, Bool.false_eq_true,
        List.length_append] at ih ⊢
      omega
  | fin l bytes hl hne ih =>
      simp only [total, Tiling.total_append, Tiling.total_cons, Tiling.total_nil,
        TCPSegment.lengthInSequenceSpace] at ih ⊢
      simp only [hne, List.append_eq_nil_iff, false_and, if_false, Bool.false_eq_true,
        if_true, List.length_nil] at ih ⊢
      omega

theorem eq_nil (h : Segmented isn [] bytes fin) : bytes = [] ∧ fin = false := by
  have htotal := h.total_eq
  simp only [if_true, total, Tiling.total_nil] at htotal
  constructor
  · exact List.eq_nil_of_length_eq_zero (by omega)
  · by_contra hfin
    rw [Bool.not_eq_false] at hfin
    rw [if_pos hfin] at htotal
    omega

/-- What is true of each of the three kinds of segments is true of all. -/
theorem forall_mem (P : TCPSegment → Prop) (h : Segmented isn l bytes fin)
    (hsyn : P { header := { seqno := isn, syn := true } })
    (hdata : ∀ seqno payload fin, payload ≠ [] → payload.length ≤ TCPConfig.MAX_PAYLOAD_SIZE →
      P { header := { seqno := seqno, fin := fin }, payload := payload })
    (hfin : ∀ seqno, P { header := { seqno := seqno, fin := true } }) : ∀ seg ∈ l, P seg := by
  induction h with
  | nil => exact fun _ hseg => absurd hseg List.not_mem_nil
  | syn =>
      intro seg hseg
      rw [List.mem_singleton.mp hseg]
      exact hsyn
  | data l bytes payload fin hl hne hpayload hmax ih =>
      intro seg hseg
      rcases List.mem_append.mp hseg with hseg | hseg
      · exact ih seg hseg
      · rw [List.mem_singleton.mp hseg]
        exact hdata _ payload fin hpayload hmax
  | fin l bytes hl hne ih =>
      intro seg hseg
      rcases List.mem_append.mp hseg with hseg | hseg
      · exact ih seg hseg
      · rw [List.mem_singleton.mp hseg]
        exact hfin _

theorem length_pos (h : Segmented isn l bytes fin) :
    ∀ seg ∈ l, 0 < seg.lengthInSequenceSpace := by
  apply h.forall_mem
  · exact Nat.one_pos
  · intro seqno payload fin hpayload hmax
    have hpos := List.length_pos_iff.mpr hpayload
    simp only [TCPSegment.lengthInSequenceSpace]
    omega
  · exact fun _ => Nat.one_pos

theorem length_payload_le (h : Segmented isn l bytes fin) :
    ∀ seg ∈ l, seg.payload.length ≤ TCPConfig.MAX_PAYLOAD_SIZE := by
  apply h.forall_mem
  · exact Nat.zero_le _
  · exact fun _ _ _ _ hmax => hmax
  · exact fun _ => Nat.zero_le _

theorem seqno_concat (hl : Segmented isn l bytes false) (hne : l ≠ []) {seg : TCPSegment}
    (hseg : seg.header.seqno = wrap (bytes.length + 1) isn)
    (hold : ∀ e ∈ ends 0 l, e.2.header.seqno = wrap (e.1 - e.2.lengthInSequenceSpace) isn) :
    ∀ e ∈ ends 0 (l ++ [seg]),
      e.2.header.seqno = wrap (e.1 - e.2.lengthInSequenceSpace) isn := by
  have htotal := hl.total_eq
  rw [if_neg hne, if_neg Bool.false_ne_true] at htotal
  intro e he
  rcases (Tiling.mem_ends_concat _ _ _ _ e).mp he with he | rfl
  · exact hold e he
  · simp only [Nat.add_sub_cancel]
    rw [hseg]
    congr 1
    change bytes.length + 1 = 0 + total l
    omega

/-- Every segment starts at the number behind the one before it. -/
theorem seqno_eq (h : Segmented isn l bytes fin) :
    ∀ e ∈ ends 0 l, e.2.header.seqno = wrap (e.1 - e.2.lengthInSequenceSpace) isn := by
  induction h with
  | nil => exact fun e he => absurd he List.not_mem_nil
  | syn =>
      intro e he
      rw [List.mem_singleton.mp he]
      exact (wrap_zero isn).symm
  | data l bytes payload fin hl hne hpayload hmax ih => exact hl.seqno_concat hne rfl ih
  | fin l bytes hl hne ih => exact hl.seqno_concat hne rfl ih

theorem syn_concat {first seg : TCPSegment} (hseg : seg.header.syn = false)
    (h : ∃ rest, l = first :: rest ∧ ∀ seg ∈ rest, seg.header.syn = false) :
    ∃ rest, l ++ [seg] = first :: rest ∧ ∀ seg ∈ rest, seg.header.syn = false := by
  obtain ⟨rest, rfl, hsyn⟩ := h
  refine ⟨rest ++ [seg], List.cons_append, ?_⟩
  intro seg' hseg'
  rcases List.mem_append.mp hseg' with hold | hnew
  · exact hsyn seg' hold
  · rw [List.mem_singleton.mp hnew]
    exact hseg

/-- The SYN stands alone in front, and no later segment carries one. -/
theorem syn_first (h : Segmented isn l bytes fin) : l = [] ∨
    ∃ rest, l = { header := { seqno := isn, syn := true } } :: rest ∧
      ∀ seg ∈ rest, seg.header.syn = false := by
  induction h with
  | nil => exact Or.inl rfl
  | syn => exact Or.inr ⟨[], rfl, fun _ h => absurd h List.not_mem_nil⟩
  | data l bytes payload fin hl hne hpayload hmax ih =>
      exact Or.inr (syn_concat rfl (ih.resolve_left hne))
  | fin l bytes hl hne ih => exact Or.inr (syn_concat rfl (ih.resolve_left hne))

theorem flatMap_payload (h : Segmented isn l bytes fin) :
    l.flatMap TCPSegment.payload = bytes := by
  induction h with
  | nil => rfl
  | syn => rfl
  | data l bytes payload fin hl hne hpayload hmax ih => simp [ih]
  | fin l bytes hl hne ih => simp [ih]

theorem not_fin (h : Segmented isn l bytes fin) (hfin : fin = false) :
    ∀ seg ∈ l, seg.header.fin = false := by
  induction h with
  | nil => simp
  | syn => simp
  | data l bytes payload fin hl hne hpayload hmax ih =>
      intro seg hseg
      rcases List.mem_append.mp hseg with hseg | hseg
      · exact ih rfl seg hseg
      · rw [List.mem_singleton.mp hseg]
        exact hfin
  | fin l bytes hl hne ih => exact absurd hfin (by decide)

/-- The FIN stands on the last segment only. -/
theorem fin_last (h : Segmented isn l bytes fin) (hfin : fin = true) :
    ∃ front seg, l = front ++ [seg] ∧ seg.header.fin = true ∧
      ∀ x ∈ front, x.header.fin = false := by
  cases h with
  | nil => exact absurd hfin (by decide)
  | syn => exact absurd hfin (by decide)
  | data l bytes payload fin hl hne hpayload hmax => exact ⟨l, _, rfl, hfin, hl.not_fin rfl⟩
  | fin l bytes hl hne => exact ⟨l, _, rfl, rfl, hl.not_fin rfl⟩

end Segmented

/-- A segment that starts behind others, less than a turn away, is none of
them. -/
theorem not_mem_of_seqno_eq {isn : WrappingInt32} {l : List TCPSegment} {seg : TCPSegment}
    (hpos : ∀ x ∈ l, 0 < x.lengthInSequenceSpace)
    (hseqno : ∀ e ∈ ends 0 l, e.2.header.seqno = wrap (e.1 - e.2.lengthInSequenceSpace) isn)
    (hlt : total l < 2 ^ 32) (hseg : seg.header.seqno = wrap (total l) isn) : seg ∉ l := by
  intro hmem
  obtain ⟨k, hk⟩ := Tiling.exists_mem_ends TCPSegment.lengthInSequenceSpace 0 l seg hmem
  have hbounds : 0 + seg.lengthInSequenceSpace ≤ k ∧ k ≤ 0 + total l :=
    Tiling.bounds_of_mem_ends TCPSegment.lengthInSequenceSpace 0 l _ hk
  have hlen := hpos seg hmem
  have hold : seg.header.seqno = wrap (k - seg.lengthInSequenceSpace) isn := hseqno _ hk
  have heq := eq_of_wrap_eq _ _ isn (hold.symm.trans hseg) (by omega) (by omega)
  omega

theorem Segmented.nodup {isn : WrappingInt32} {l : List TCPSegment} {bytes : List UInt8}
    {fin : Bool} (h : Segmented isn l bytes fin) (hlt : total l < 2 ^ 32) : l.Nodup := by
  have hsnoc : ∀ (l : List TCPSegment) (bytes : List UInt8) (seg : TCPSegment),
      Segmented isn l bytes false → l ≠ [] → l.Nodup → total l < 2 ^ 32 →
      seg.header.seqno = wrap (bytes.length + 1) isn → (l ++ [seg]).Nodup := by
    intro l bytes seg hl hne hnodup hlt hseg
    have htotal := hl.total_eq
    rw [if_neg hne, if_neg Bool.false_ne_true] at htotal
    have hnot := not_mem_of_seqno_eq hl.length_pos hl.seqno_eq hlt
      (by rw [hseg, htotal]; congr 1; omega)
    rw [← List.concat_eq_append]
    exact hnodup.concat hnot
  induction h with
  | nil => exact List.nodup_nil
  | syn => exact List.nodup_singleton _
  | data l bytes payload fin hl hne hpayload hmax ih =>
      rw [total_append] at hlt
      exact hsnoc l bytes _ hl hne (ih (by omega)) (by omega) rfl
  | fin l bytes hl hne ih =>
      rw [total_append] at hlt
      exact hsnoc l bytes _ hl hne (ih (by omega)) (by omega) rfl

/-- The sender has transmitted the segments of `first`, which carry what was
taken from the queue behind its stream. -/
structure Sent (isn : WrappingInt32) (s : TCPSender) (q : BoundedFifo UInt8)
    (first : List TCPSegment) (fin : Bool) : Prop where
  isn_eq : s.isn = isn
  refines : s.stream.Refines q
  segmented : Segmented isn first (q.written.take q.readCount) fin
  next_eq : s.nextSeqnoAbsolute = total first
  ended : fin = true → s.stream.isEnd = true ∧ q.readCount = q.written.length
  cached : ∀ e ∈ s.segmentsCache, e ∈ ends 0 first

theorem sent_new (capacity : ℕ) (retxTimeout : UInt16) (isn : WrappingInt32)
    (h : capacity < 2 ^ 31) :
    Sent isn (new capacity retxTimeout isn) (BoundedFifo.empty capacity) [] false where
  isn_eq := rfl
  refines := ByteStream.new_refines capacity h
  segmented := Segmented.nil
  next_eq := rfl
  ended := fun hfin => absurd hfin (by decide)
  cached := by simp [new]

namespace Sent

variable {isn : WrappingInt32} {s : TCPSender} {q : BoundedFifo UInt8}
  {first : List TCPSegment} {fin : Bool}

/-- The position of the next number, from the bytes taken and the two flags. -/
theorem next_eq_readCount (h : Sent isn s q first fin) :
    s.nextSeqnoAbsolute = (if first = [] then 0 else 1) + q.readCount +
      (if fin then 1 else 0) := by
  rw [h.next_eq, h.segmented.total_eq, List.length_take, min_eq_left q.readCount_le]

theorem first_ne_nil (h : Sent isn s q first fin) (hnext : 0 < s.nextSeqnoAbsolute) :
    first ≠ [] := by
  intro hnil
  rw [h.next_eq, hnil] at hnext
  exact absurd hnext (lt_irrefl 0)

theorem next_le (h : Sent isn s q first fin) : s.nextSeqnoAbsolute ≤ q.written.length + 2 := by
  have hnext := h.next_eq_readCount
  have hread := q.readCount_le
  split_ifs at hnext
  all_goals omega

/-- Two numbers behind the bytes that were written the FIN is sent. -/
theorem fin_of_next (h : Sent isn s q first fin)
    (hnext : s.nextSeqnoAbsolute = s.stream.bytesWritten + 2) : fin = true := by
  have hcount := h.next_eq_readCount
  have hread := q.readCount_le
  rw [h.refines.bytesWritten_eq] at hnext
  cases fin with
  | true => rfl
  | false =>
      rw [if_neg Bool.false_ne_true] at hcount
      split_ifs at hcount
      · omega
      · omega

/-- The number of the next byte, from the bytes taken so far; no FIN was sent
yet. -/
theorem nextSeqno_eq (h : Sent isn s q first false) (hnext : 0 < s.nextSeqnoAbsolute) :
    s.nextSeqno = wrap ((q.written.take q.readCount).length + 1) isn := by
  have hcount := h.next_eq_readCount
  rw [if_neg (h.first_ne_nil hnext), if_neg Bool.false_ne_true] at hcount
  rw [nextSeqno, h.isn_eq, List.length_take, min_eq_left q.readCount_le]
  congr 1
  omega

/-- The FIN is due exactly when the stream is at its end and no FIN was
sent. -/
theorem finDue_iff (h : Sent isn s q first fin) (hnext : 0 < s.nextSeqnoAbsolute) :
    s.finDue = true ↔
      s.stream.isEnd = true ∧ q.readCount = q.written.length ∧ fin = false := by
  have hcount := h.next_eq_readCount
  rw [if_neg (h.first_ne_nil hnext)] at hcount
  rw [finDue, Bool.and_eq_true, decide_eq_true_eq, h.refines.eof_iff,
    h.refines.bytesWritten_eq, and_assoc]
  cases fin with
  | false =>
      rw [if_neg Bool.false_ne_true] at hcount
      have hread := q.readCount_le
      constructor
      · rintro ⟨hend, hall, -⟩
        exact ⟨hend, hall, rfl⟩
      · rintro ⟨hend, hall, -⟩
        exact ⟨hend, hall, by omega⟩
  | true =>
      rw [if_pos rfl] at hcount
      constructor
      · rintro ⟨-, hall, hlt⟩
        omega
      · rintro ⟨-, -, hfalse⟩
        exact absurd hfalse (by decide)

/-- One more segment behind the others. -/
theorem transmit {q' : BoundedFifo UInt8} {fin' : Bool} (seg : TCPSegment)
    (hisn : s.isn = isn) (hnext : s.nextSeqnoAbsolute = total first)
    (hcached : ∀ e ∈ s.segmentsCache, e ∈ ends 0 first) (hrefines : s.stream.Refines q')
    (hsegmented : Segmented isn (first ++ [seg]) (q'.written.take q'.readCount) fin')
    (hended : fin' = true → s.stream.isEnd = true ∧ q'.readCount = q'.written.length) :
    Sent isn (s.transmit seg) q' (first ++ [seg]) fin' where
  isn_eq := hisn
  refines := hrefines
  segmented := hsegmented
  next_eq := by
    rw [transmit_nextSeqnoAbsolute, hnext]
    simp [total]
  ended := hended
  cached := by
    intro e he
    rw [Tiling.mem_ends_concat, Nat.zero_add]
    rcases (mem_transmit_segmentsCache s seg e).mp he with rfl | ⟨he, -⟩
    · rw [hnext]
      exact Or.inr rfl
    · exact Or.inl (hcached e he)

theorem transmitSyn (h : Sent isn s q first fin) (h0 : s.nextSeqnoAbsolute = 0) :
    Sent isn (s.transmit s.synSegment) q (first ++ [s.synSegment]) false := by
  have hnil : first = [] := by
    have hcount := h.next_eq_readCount
    by_contra hne
    rw [if_neg hne] at hcount
    omega
  subst hnil
  have hbytes := h.segmented.eq_nil.1
  apply transmit s.synSegment h.isn_eq h.next_eq h.cached h.refines
  · rw [hbytes, synSegment, h.isn_eq]
    exact Segmented.syn
  · exact fun hfin => absurd hfin (by decide)

theorem readStream_eq (h : Sent isn s q first fin) (n : ℕ) :
    s.readStream n = q.content.take (min TCPConfig.MAX_PAYLOAD_SIZE n) :=
  h.refines.peekOutput_eq _

/-- A read moves bytes from the queue to those that were taken. -/
theorem take_readCount (h : Sent isn s q first fin) (n : ℕ) :
    (q.pop (min TCPConfig.MAX_PAYLOAD_SIZE n)).written.take
        (q.pop (min TCPConfig.MAX_PAYLOAD_SIZE n)).readCount =
      q.written.take q.readCount ++ s.readStream n := by
  rw [h.readStream_eq, BoundedFifo.take_readCount_pop]

theorem afterRead (h : Sent isn s q first fin) (n : ℕ) (hnil : s.readStream n = []) :
    Sent isn (s.afterRead n) (q.pop (min TCPConfig.MAX_PAYLOAD_SIZE n)) first fin where
  isn_eq := h.isn_eq
  refines := h.refines.popOutput _
  segmented := by
    rw [h.take_readCount, hnil, List.append_nil]
    exact h.segmented
  next_eq := h.next_eq
  ended := by
    intro hfin
    obtain ⟨hend, hall⟩ := h.ended hfin
    have hsize := q.size_add_readCount
    refine ⟨hend, ?_⟩
    rw [BoundedFifo.readCount_pop, BoundedFifo.written_pop]
    omega
  cached := h.cached

/-- A round of the loop: what was read is transmitted behind what was
transmitted before. -/
theorem transmitData (h : Sent isn s q first fin) (remsz : ℕ) (hnext : 0 < s.nextSeqnoAbsolute)
    (hnil : s.readStream remsz ≠ []) : ∃ fin',
    Sent isn ((s.afterRead remsz).transmit
        ((s.afterRead remsz).dataSegment (s.readStream remsz) remsz))
      (q.pop (min TCPConfig.MAX_PAYLOAD_SIZE remsz))
      (first ++ [(s.afterRead remsz).dataSegment (s.readStream remsz) remsz]) fin' := by
  have hne := h.first_ne_nil hnext
  have hsize := q.size_add_readCount
  have hmore : q.readCount < q.written.length := by
    by_contra hall
    apply hnil
    have hcontent : q.content = [] := List.drop_eq_nil_of_le (not_lt.mp hall)
    rw [h.readStream_eq, hcontent, List.take_nil]
  have hfin : fin = false := by
    by_contra hfin
    have hall := (h.ended (Bool.eq_true_of_not_eq_false hfin)).2
    omega
  subst hfin
  have hmax : (s.readStream remsz).length ≤ TCPConfig.MAX_PAYLOAD_SIZE :=
    le_trans (s.length_readStream_le remsz) (min_le_left _ _)
  have hseqno : (s.afterRead remsz).nextSeqno =
      wrap ((q.written.take q.readCount).length + 1) isn :=
    h.nextSeqno_eq hnext
  have hrefines : (s.afterRead remsz).stream.Refines
      (q.pop (min TCPConfig.MAX_PAYLOAD_SIZE remsz)) := h.refines.popOutput _
  refine ⟨(s.afterRead remsz).finDue && decide (1 ≤ remsz - (s.readStream remsz).length), ?_⟩
  apply transmit (s := s.afterRead remsz) _ h.isn_eq h.next_eq h.cached hrefines
  · rw [h.take_readCount, dataSegment, hseqno]
    exact Segmented.data first _ _ _ h.segmented hne hnil hmax
  · intro hdue
    rw [Bool.and_eq_true, finDue, Bool.and_eq_true, hrefines.eof_iff] at hdue
    exact hdue.1.1

/-- The third phase transmits the FIN behind everything else. -/
theorem transmitFin (h : Sent isn s q first fin) (hnext : 0 < s.nextSeqnoAbsolute)
    (hdue : s.finDue = true) : Sent isn s.afterFin q (first ++ [s.finSegment]) true := by
  obtain ⟨hend, hall, rfl⟩ := (h.finDue_iff hnext).mp hdue
  have hfin : Sent isn (s.transmit s.finSegment) q (first ++ [s.finSegment]) true := by
    apply transmit s.finSegment h.isn_eq h.next_eq h.cached h.refines
    · rw [finSegment, h.nextSeqno_eq hnext]
      exact Segmented.fin first _ h.segmented (h.first_ne_nil hnext)
    · exact fun _ => ⟨hend, hall⟩
  exact { hfin with }

/-- `fill_window` transmits further segments, for the first time, and takes
nothing from the stream but what they carry. -/
theorem fillWindow (h : Sent isn s q first fin) : ∃ q' new fin',
    Sent isn s.fillWindow q' (first ++ new) fin' ∧ q'.written = q.written ∧
      q'.capacity = q.capacity ∧ s.fillWindow.segmentsOut = s.segmentsOut ++ new ∧
      s.fillWindow.stream.isEnd = s.stream.isEnd := by
  apply fillWindow_induction (P := fun t => ∃ q' new fin', Sent isn t q' (first ++ new) fin' ∧
    q'.written = q.written ∧ q'.capacity = q.capacity ∧
    t.segmentsOut = s.segmentsOut ++ new ∧ t.stream.isEnd = s.stream.isEnd)
  · rintro t ⟨q', new, fin', ht, hwritten, hcap, hout, hend⟩ h0
    refine ⟨q', new ++ [t.synSegment], false, ?_, hwritten, hcap, ?_, hend⟩
    · rw [← List.append_assoc]
      exact ht.transmitSyn h0
    · rw [transmit_segmentsOut, hout, List.append_assoc]
  · rintro t remsz ⟨q', new, fin', ht, hwritten, hcap, hout, hend⟩ hnext - hnil
    obtain ⟨fin'', hdata⟩ := ht.transmitData remsz hnext hnil
    refine ⟨q'.pop (min TCPConfig.MAX_PAYLOAD_SIZE remsz),
      new ++ [(t.afterRead remsz).dataSegment (t.readStream remsz) remsz], fin'', ?_,
      hwritten, hcap, ?_, hend⟩
    · rw [← List.append_assoc]
      exact hdata
    · rw [transmit_segmentsOut, ← List.append_assoc, ← hout]
      rfl
  · rintro t remsz ⟨q', new, fin', ht, hwritten, hcap, hout, hend⟩ hnil
    exact ⟨_, new, fin', ht.afterRead remsz hnil, hwritten, hcap, hout, hend⟩
  · rintro t ⟨q', new, fin', ht, hwritten, hcap, hout, hend⟩ hnext hdue -
    refine ⟨q', new ++ [t.finSegment], true, ?_, hwritten, hcap, ?_, hend⟩
    · rw [← List.append_assoc]
      exact ht.transmitFin hnext hdue
    · change t.segmentsOut ++ [t.finSegment] = _
      rw [hout, List.append_assoc]
  · exact ⟨q, [], fin, by rwa [List.append_nil], rfl, rfl, by rw [List.append_nil], rfl⟩

/-- Bytes that the stream accepts while it is open. -/
theorem write (h : Sent isn s q first fin) (data : List UInt8)
    (hopen : s.stream.isEnd = false)
    (hbound : (q.push data).written.length + q.capacity < 2 ^ 31) :
    Sent isn { s with stream := (s.stream.write data).1 } (q.push data) first fin where
  isn_eq := h.isn_eq
  refines := h.refines.write data hbound
  segmented := by
    rw [BoundedFifo.written_push, BoundedFifo.readCount_push,
      List.take_append_of_le_length q.readCount_le]
    exact h.segmented
  next_eq := h.next_eq
  ended := by
    intro hfin
    exact absurd (h.ended hfin).1 (by rw [hopen]; decide)
  cached := h.cached

theorem endInput (h : Sent isn s q first fin) :
    Sent isn { s with stream := s.stream.endInput } q first fin where
  isn_eq := h.isn_eq
  refines := h.refines.endInput
  segmented := h.segmented
  next_eq := h.next_eq
  ended := fun hfin => ⟨rfl, (h.ended hfin).2⟩
  cached := h.cached

/-- An acknowledgment, whatever it says, only removes stored segments, and may
call `fill_window`. -/
theorem ackReceived (h : Sent isn s q first fin) (ackno : WrappingInt32) (windowSize : UInt16) :
    ∃ q' new fin', Sent isn (s.ackReceived ackno windowSize) q' (first ++ new) fin' ∧
      q'.written = q.written ∧ q'.capacity = q.capacity ∧
      (s.ackReceived ackno windowSize).segmentsOut = s.segmentsOut ++ new ∧
      (s.ackReceived ackno windowSize).stream.isEnd = s.stream.isEnd := by
  have hpop : Sent isn (s.popAcked ackno windowSize) q first fin :=
    { h with cached := fun e he => h.cached e (mem_of_popAcked he) }
  rcases ackReceived_cases s ackno windowSize with
    ⟨-, heq⟩ | ⟨-, -, heq⟩ | ⟨-, -, heq⟩
  · rw [heq]
    exact ⟨q, [], fin, by rwa [List.append_nil], rfl, rfl, by rw [List.append_nil], rfl⟩
  · rw [heq]
    exact ⟨q, [], fin, by rwa [List.append_nil], rfl, rfl, (List.append_nil _).symm, rfl⟩
  · rw [heq]
    have hrestart : Sent isn ((s.popAcked ackno windowSize).restart (s.nBytes ackno) windowSize)
        q first fin := { hpop with }
    exact hrestart.fillWindow

theorem tick (h : Sent isn s q first fin) (ms : ℕ) : Sent isn (s.tick ms) q first fin := by
  obtain ⟨out, time, timeout, retx, heq, -⟩ := tick_eq s ms
  rw [heq]
  exact { h with }

/-- What is stored was transmitted. -/
theorem mem_first (h : Sent isn s q first fin) {k : ℕ} {seg : TCPSegment}
    (hk : (k, seg) ∈ s.segmentsCache) : seg ∈ first :=
  Tiling.mem_of_mem_ends _ _ _ _ (h.cached _ hk)

end Sent

end TCPSender

end NetworkLabs
