import NetworkLabs.AddressTranslation.Flows

/-!
# When a flow is finished

A flow is complete when each side has sent a FIN and has acknowledged that of
the other side. The statistics of a mapping do not tell as much. They say of
each side whether its last packet has carried the flag FIN and no other, which
sequence number this packet had, and what the last packet with the flag ACK and
no other has acknowledged. The two numbers are compared as they lie in memory.
-/

namespace NetworkLabs

/-- The flag is set, whatever other flags are. -/
def Packet.has (p : Packet) (flag : UInt8) : Bool := p.tcp.flags &&& flag != 0

/-- The acknowledgment reaches the number in the order of sequence numbers, which
looks half of the numbers ahead. -/
def Covers (ack seqEnd : UInt32) : Prop := ack - seqEnd < 0x80000000

instance : DecidableRel Covers := fun ack seqEnd =>
  inferInstanceAs (Decidable (ack - seqEnd < 0x80000000))

/-- A packet of one side acknowledges a FIN of the other. -/
def AcksFin (ours theirs : List Packet) : Prop :=
  ∃ p ∈ ours, p.has TCP_ACK = true ∧
    ∃ q ∈ theirs, q.has TCP_FIN = true ∧ Covers (ntohl p.tcp.ack) q.tcpSeqEnd

instance : DecidableRel AcksFin := fun ours theirs =>
  inferInstanceAs (Decidable (∃ p ∈ ours, _ ∧ ∃ q ∈ theirs, _))

/-! ## What the statistics say -/

/-- The last packet has carried the flag FIN and no other. -/
def endsInFin (l : List Packet) : Bool := l.getLast?.any fun p => p.tcp.flags == TCP_FIN

/-- The sequence number of the last packet, as it lies in memory. -/
def lastSeq (l : List Packet) : UInt32 := (l.getLast?.map fun p => p.tcp.seq).getD 0

/-- What the last packet with the flag ACK and no other has acknowledged, as it
lies in memory. -/
def lastAck (l : List Packet) : UInt32 :=
  ((l.filter fun p => p.tcp.flags == TCP_ACK).getLast?.map fun p => p.tcp.ack).getD 0

theorem endsInFin_concat (l : List Packet) (p : Packet) :
    endsInFin (l ++ [p]) = (p.tcp.flags == TCP_FIN) := by
  rw [endsInFin, List.getLast?_concat, Option.any_some]

theorem lastSeq_concat (l : List Packet) (p : Packet) : lastSeq (l ++ [p]) = p.tcp.seq := by
  rw [lastSeq, List.getLast?_concat, Option.map_some, Option.getD_some]

theorem lastAck_concat (l : List Packet) (p : Packet) :
    lastAck (l ++ [p]) = if p.tcp.flags = TCP_ACK then p.tcp.ack else lastAck l := by
  rw [lastAck, List.filter_append]
  by_cases hack : p.tcp.flags = TCP_ACK
  · rw [if_pos hack, List.filter_cons_of_pos (by simpa using hack), List.filter_nil,
      List.getLast?_concat, Option.map_some, Option.getD_some]
  · rw [if_neg hack, List.filter_cons_of_neg (by simpa using hack), List.filter_nil,
      List.append_nil]
    rfl

/-- The statistics after these packets. -/
def connOf (outbound inbound : List Packet) : NatConnection where
  internalFin := endsInFin outbound
  externalFin := endsInFin inbound
  internalSeqEnd := lastSeq outbound
  externalSeqEnd := lastSeq inbound
  internalAck := lastAck outbound
  externalAck := lastAck inbound

/-! ## Where the statistics can be trusted -/

/-- The last packet with the flag ACK and no other acknowledges the last packet of the other
side. -/
def AcksLast (ours theirs : List Packet) : Prop :=
  ∃ p ∈ (ours.filter fun p => p.tcp.flags == TCP_ACK).getLast?, ∃ q ∈ theirs.getLast?,
    Covers (ntohl p.tcp.ack) q.tcpSeqEnd

instance : DecidableRel AcksLast := fun ours theirs =>
  inferInstanceAs (Decidable (∃ p ∈ (ours.filter _).getLast?, ∃ q ∈ theirs.getLast?, _))

/-- What the statistics keep of the FIN of one side and of the acknowledgments of the other is
what is to know. The FIN came alone and at the end, it is acknowledged by the last ACK alone if by
any packet, and the two numbers lie in memory in the order of sequence numbers. -/
structure Recorded (ours theirs : List Packet) : Prop where
  fin_last : endsInFin theirs = true
  ack_last : AcksFin ours theirs → AcksLast ours theirs
  compares : lastSeq theirs ≤ lastAck ours ↔ AcksLast ours theirs

instance : DecidableRel Recorded := fun ours theirs =>
  decidable_of_iff (endsInFin theirs = true ∧ (AcksFin ours theirs → AcksLast ours theirs) ∧
      (lastSeq theirs ≤ lastAck ours ↔ AcksLast ours theirs))
    ⟨fun h => ⟨h.1, h.2.1, h.2.2⟩, fun h => ⟨h.fin_last, h.ack_last, h.compares⟩⟩

theorem has_fin_of_endsInFin {l : List Packet} (h : endsInFin l = true) :
    ∃ q ∈ l.getLast?, q.has TCP_FIN = true := by
  obtain ⟨q, hq, hflags⟩ := (Option.any_eq_true _ _).mp h
  refine ⟨q, hq, ?_⟩
  rw [Packet.has, eq_of_beq hflags]
  decide

theorem Recorded.acksFin_iff {ours theirs : List Packet} (h : Recorded ours theirs) :
    AcksFin ours theirs ↔ lastSeq theirs ≤ lastAck ours := by
  rw [h.compares]
  refine ⟨h.ack_last, ?_⟩
  rintro ⟨p, hp, q, hq, hcovers⟩
  obtain ⟨q', hq', hfin⟩ := has_fin_of_endsInFin h.fin_last
  obtain rfl := Option.mem_unique hq hq'
  have hours : p ∈ ours ∧ p.tcp.flags = TCP_ACK := by
    simpa using List.mem_of_getLast? hp
  refine ⟨p, hours.1, ?_, q, List.mem_of_getLast? hq, hfin, hcovers⟩
  rw [Packet.has, hours.2]
  decide

namespace Flow

/-- Each side has sent a FIN and has acknowledged that of the other. -/
def Complete (f : Flow) : Prop :=
  ((∃ p ∈ f.outbound, p.has TCP_FIN = true) ∧ ∃ p ∈ f.inbound, p.has TCP_FIN = true) ∧
    AcksFin f.outbound f.inbound ∧ AcksFin f.inbound f.outbound

instance : DecidablePred Complete := fun f =>
  inferInstanceAs (Decidable (((∃ p ∈ f.outbound, _) ∧ ∃ p ∈ f.inbound, _) ∧ _ ∧ _))

/-- One side has sent no FIN yet, or what is kept of both directions is what is to know. -/
def Told (f : Flow) : Prop :=
  (∀ p ∈ f.outbound, p.has TCP_FIN = false) ∨ (∀ p ∈ f.inbound, p.has TCP_FIN = false) ∨
    (Recorded f.outbound f.inbound ∧ Recorded f.inbound f.outbound)

instance : DecidablePred Told := fun f =>
  inferInstanceAs (Decidable ((∀ p ∈ f.outbound, _) ∨ (∀ p ∈ f.inbound, _) ∨
    (Recorded f.outbound f.inbound ∧ Recorded f.inbound f.outbound)))

/-- The statistics of the mapping are those of its packets. -/
def Remembered (f : Flow) : Prop := f.mapping.conn = connOf f.outbound f.inbound

theorem remembered_new {m : NatMapping} (h : m.conn = {}) : (Flow.new m).Remembered := h

theorem Remembered.noteOutbound {f : Flow} (h : f.Remembered) (p : Packet) (now : ℤ) :
    (f.noteOutbound p now).Remembered := by
  change (f.mapping.noteOutbound p.tcp now).conn = connOf (f.outbound ++ [p]) f.inbound
  rw [NatMapping.noteOutbound, connOf, endsInFin_concat, lastSeq_concat, lastAck_concat, h]
  rfl

theorem Remembered.noteInbound {f : Flow} (h : f.Remembered) (p : Packet) (now : ℤ) :
    (f.noteInbound p now).Remembered := by
  change (f.mapping.noteInbound p.tcp now).conn = connOf f.outbound (f.inbound ++ [p])
  rw [NatMapping.noteInbound, connOf, endsInFin_concat, lastSeq_concat, lastAck_concat, h]
  rfl

theorem Remembered.isFlowFinished_iff {f : Flow} (h : f.Remembered) :
    NatTable.isFlowFinished f.mapping.conn = true ↔
      (endsInFin f.outbound && endsInFin f.inbound) = true ∧
        lastSeq f.inbound ≤ lastAck f.outbound ∧ lastSeq f.outbound ≤ lastAck f.inbound := by
  rw [h, NatTable.isFlowFinished, Bool.and_eq_true, Bool.and_eq_true, decide_eq_true_iff,
    decide_eq_true_iff, and_assoc]
  exact Iff.rfl

theorem not_endsInFin {l : List Packet} (h : ∀ p ∈ l, p.has TCP_FIN = false) :
    endsInFin l ≠ true := by
  intro hends
  obtain ⟨q, hq, hfin⟩ := has_fin_of_endsInFin hends
  exact absurd (hfin.symm.trans (h q (List.mem_of_getLast? hq))) (by decide)

theorem Remembered.finished_iff_complete {f : Flow} (h : f.Remembered) (htold : f.Told) :
    NatTable.isFlowFinished f.mapping.conn = true ↔ f.Complete := by
  rw [h.isFlowFinished_iff, Bool.and_eq_true]
  rcases htold with hnone | hnone | ⟨hout, hin⟩
  · refine iff_of_false (fun hfinished => not_endsInFin hnone hfinished.1.1) ?_
    rintro ⟨⟨⟨p, hp, hfin⟩, -⟩, -⟩
    exact absurd (hfin.symm.trans (hnone p hp)) (by decide)
  · refine iff_of_false (fun hfinished => not_endsInFin hnone hfinished.1.2) ?_
    rintro ⟨⟨-, p, hp, hfin⟩, -⟩
    exact absurd (hfin.symm.trans (hnone p hp)) (by decide)
  · obtain ⟨p, hp, hfin⟩ := has_fin_of_endsInFin hin.fin_last
    obtain ⟨q, hq, hfin'⟩ := has_fin_of_endsInFin hout.fin_last
    have hsent : (∃ p ∈ f.outbound, p.has TCP_FIN = true) ∧ ∃ p ∈ f.inbound, p.has TCP_FIN = true :=
      ⟨⟨p, List.mem_of_getLast? hp, hfin⟩, q, List.mem_of_getLast? hq, hfin'⟩
    rw [Complete, and_iff_right hsent, hout.acksFin_iff, hin.acksFin_iff,
      and_iff_right ⟨hin.fin_last, hout.fin_last⟩]

end Flow

namespace Ledger

variable (externalIface : IfaceInfo) (rules : List DnatRule) (events : List NatTable.Event)

theorem remembered_run (i : UInt8) :
    ∀ f ∈ (run externalIface rules events).flows i, f.Remembered :=
  forall_flows_run (fun _ h => Flow.remembered_new h) (fun _ p now h => h.noteOutbound p now)
    (fun _ p now h => h.noteInbound p now) externalIface rules events i

/-- A mapping that is not too old is removed by a sweep if its flow is finished. -/
theorem not_mem_natTimeout_iff {i : UInt8} {f : Flow}
    (hf : f ∈ (run externalIface rules events).flows i) {now : ℤ}
    (hyoung : now - f.mapping.updateTime ≤ TCP_ESTABLISHED_TIMEOUT) :
    f.mapping ∉ (((NatTable.natInit externalIface rules).run events).natTimeout
        now).natMappingList i ↔ NatTable.isFlowFinished f.mapping.conn = true := by
  have hmem : f.mapping ∈ ((NatTable.natInit externalIface rules).run events).natMappingList i := by
    rw [← nat_run, ← tells_run externalIface rules events i]
    exact List.mem_map_of_mem hf
  rw [NatTable.natMappingList_natTimeout, List.mem_filter, and_iff_right hmem,
    Bool.not_eq_true', Bool.not_eq_false, NatTable.isExpired, Bool.or_eq_true,
    decide_eq_true_iff, or_iff_left (not_lt.mpr hyoung)]

/-- In every run, a sweep removes the mapping of a flow exactly if the flow is complete, where one
side has sent no FIN or the statistics keep the FINs and their acknowledgments. -/
theorem removed_iff_complete (i : UInt8) (f : Flow)
    (hf : f ∈ (run externalIface rules events).flows i) (now : ℤ)
    (hyoung : now - f.mapping.updateTime ≤ TCP_ESTABLISHED_TIMEOUT) (htold : f.Told) :
    f.mapping ∉ (((NatTable.natInit externalIface rules).run events).natTimeout
        now).natMappingList i ↔ f.Complete := by
  rw [not_mem_natTimeout_iff externalIface rules events hf hyoung]
  exact (remembered_run externalIface rules events i f hf).finished_iff_complete htold

/-- A packet with its numbers. -/
def numbered (p : Packet) (seq ack : UInt32) : Packet :=
  { p with tcp := { p.tcp with seq := htonl seq, ack := htonl ack } }

/-- Each side closes with a FIN alone, acknowledges that of the other with an ACK alone, and
the first FIN comes once more at the end. -/
def plainClose : List NatTable.Event :=
  let remote : UInt32 := 0x9fe2277b
  let host : UInt32 := 0x0a150001
  let external : UInt32 := 0x9fe2272b
  [.packet (numbered (Packet.bare host 4000 remote 80 TCP_SYN) 0 0) .dirOut 0,
    .packet (numbered (Packet.bare remote 80 external 12345 (TCP_SYN ||| TCP_ACK)) 0 1) .dirIn 0,
    .packet (numbered (Packet.bare host 4000 remote 80 TCP_ACK) 1 1) .dirOut 1,
    .packet (numbered (Packet.bare host 4000 remote 80 TCP_FIN) 1 0) .dirOut 2,
    .packet (numbered (Packet.bare remote 80 external 12345 TCP_ACK) 1 2) .dirIn 2,
    .packet (numbered (Packet.bare remote 80 external 12345 TCP_FIN) 1 0) .dirIn 2,
    .packet (numbered (Packet.bare host 4000 remote 80 TCP_ACK) 2 2) .dirOut 3,
    .packet (numbered (Packet.bare host 4000 remote 80 TCP_FIN) 1 0) .dirOut 3]

/-- The mapping is removed after that. -/
theorem removed_iff_complete_plainClose :
    let i := NatTable.hashI 0x9fe2277b
    ∃ f ∈ (run ⟨0x9fe2272b⟩ [] plainClose).flows i, f.Complete ∧
      f.mapping ∉ (((NatTable.natInit ⟨0x9fe2272b⟩ []).run plainClose).natTimeout
        5).natMappingList i := by
  intro i
  obtain ⟨f, hfirst⟩ : ∃ f, ((run ⟨0x9fe2272b⟩ [] plainClose).flows i).head? = some f :=
    Option.isSome_iff_exists.mp (by decide +kernel)
  have hf := List.mem_of_mem_head? hfirst
  have hall : ∀ f ∈ (run ⟨0x9fe2272b⟩ [] plainClose).flows i,
      5 - f.mapping.updateTime ≤ TCP_ESTABLISHED_TIMEOUT ∧ f.Told ∧ f.Complete := by
    decide +kernel
  obtain ⟨hyoung, htold, hcomplete⟩ := hall f hf
  exact ⟨f, hf, hcomplete,
    (removed_iff_complete ⟨0x9fe2272b⟩ [] plainClose i f hf 5 hyoung htold).mpr hcomplete⟩

/-- Both sides close a connection as usual, each with a FIN that carries an
acknowledgment too, and the mapping stays. -/
theorem not_removed_finAck :
    let remote : UInt32 := 0x9fe2277b
    let host : UInt32 := 0x0a150001
    let external : UInt32 := 0x9fe2272b
    let events : List NatTable.Event := [
      .packet (numbered (Packet.bare host 4000 remote 80 TCP_SYN) 0 0) .dirOut 0,
      .packet (numbered (Packet.bare remote 80 external 12345 (TCP_SYN ||| TCP_ACK)) 0 1) .dirIn 0,
      .packet (numbered (Packet.bare host 4000 remote 80 TCP_ACK) 1 1) .dirOut 1,
      .packet (numbered (Packet.bare host 4000 remote 80 (TCP_FIN ||| TCP_ACK)) 1 1) .dirOut 2,
      .packet (numbered (Packet.bare remote 80 external 12345 (TCP_FIN ||| TCP_ACK)) 1 2) .dirIn 2,
      .packet (numbered (Packet.bare host 4000 remote 80 TCP_ACK) 2 2) .dirOut 3]
    ¬ ∀ f ∈ (run ⟨external⟩ [] events).flows (NatTable.hashI remote),
      5 - f.mapping.updateTime ≤ TCP_ESTABLISHED_TIMEOUT →
      (f.mapping ∉ (((NatTable.natInit ⟨external⟩ []).run events).natTimeout
        5).natMappingList (NatTable.hashI remote) ↔ f.Complete) := by
  decide +kernel

end Ledger

end NetworkLabs
