import NetworkLabs.Sponge.FdAdapter
import NetworkLabs.Sponge.TCPConnection.Steps

/-!
# A connection behind an adapter

A connection does not look at the ports and the checksum of a segment, so it does not
matter that an adapter has set them. And whatever happens to a connection, the segments
that it queues fit into a datagram, and carry the number `0` where they do not acknowledge.
-/

namespace NetworkLabs

namespace TCPSender

/-- What is queued and what is kept for a retransmission can be written. -/
structure SendsSendable (s : TCPSender) : Prop where
  queued : ∀ seg ∈ s.segmentsOut, seg.Sendable
  kept : ∀ e ∈ s.segmentsCache, e.2.Sendable

namespace SendsSendable

variable {s : TCPSender}

/-- A member that neither the queue nor the store depends on. -/
theorem of_eq (h : s.SendsSendable) {t : TCPSender} (hqueue : t.segmentsOut = s.segmentsOut)
    (hcache : t.segmentsCache = s.segmentsCache) : t.SendsSendable where
  queued := by
    rw [hqueue]
    exact h.queued
  kept := by
    rw [hcache]
    exact h.kept

theorem queue (h : s.SendsSendable) (out : List TCPSegment) (hout : ∀ seg ∈ out, seg.Sendable) :
    SendsSendable { s with segmentsOut := s.segmentsOut ++ out } where
  queued := by
    intro seg hseg
    rcases List.mem_append.mp hseg with hseg | hseg
    · exact h.queued seg hseg
    · exact hout seg hseg
  kept := h.kept

theorem transmit (h : s.SendsSendable) {seg : TCPSegment} (hseg : seg.Sendable) :
    (s.transmit seg).SendsSendable where
  queued := (h.queue [seg] (List.forall_mem_singleton.mpr hseg)).queued
  kept := by
    intro e he
    rcases (SortedMap.mem_insert _ _ _ e).mp he with rfl | he
    · exact hseg
    · exact h.kept e he.1

theorem fillWindow (h : s.SendsSendable) : s.fillWindow.SendsSendable := by
  apply fillWindow_induction (P := SendsSendable)
  · exact fun t ht _ => ht.transmit ⟨rfl, Nat.zero_le _, fun _ => rfl⟩
  · intro t remsz ht _ _ _
    have hread : (t.afterRead remsz).SendsSendable := ht.of_eq rfl rfl
    apply hread.transmit
    have hlength := t.length_readStream_le remsz
    exact ⟨rfl, hlength.trans (min_le_left _ _), fun _ => rfl⟩
  · exact fun t remsz ht _ => ht.of_eq rfl rfl
  · intro t ht _ _ _
    have hfin : (t.transmit t.finSegment).SendsSendable :=
      ht.transmit ⟨rfl, Nat.zero_le _, fun _ => rfl⟩
    exact hfin.of_eq rfl rfl
  · exact h

theorem ackReceived (h : s.SendsSendable) (ackno : WrappingInt32) (windowSize : UInt16) :
    (s.ackReceived ackno windowSize).SendsSendable := by
  have hpop : (s.popAcked ackno windowSize).SendsSendable :=
    ⟨h.queued, fun e he => h.kept e (mem_of_popAcked he)⟩
  rcases ackReceived_cases s ackno windowSize with
    ⟨-, heq⟩ | ⟨-, -, heq⟩ | ⟨-, -, heq⟩
  · rw [heq]
    exact h
  · rw [heq]
    exact hpop
  · rw [heq]
    apply fillWindow
    exact hpop.of_eq rfl rfl

theorem tick (h : s.SendsSendable) (ms : ℕ) : (s.tick ms).SendsSendable := by
  obtain ⟨out, time, timeout, retx, heq, hout⟩ := tick_eq s ms
  rw [heq]
  have hqueue := h.queue out fun seg hseg => by
    obtain ⟨k, hk⟩ := hout seg hseg
    exact h.kept _ hk
  exact hqueue.of_eq rfl rfl

end SendsSendable

end TCPSender

namespace TCPConnection

/-- Every segment that the connection has queued can be written. -/
structure SendsSendable (c : TCPConnection) : Prop where
  queued : ∀ seg ∈ c.segmentsOut, seg.Sendable
  sender : c.sender.SendsSendable

namespace SendsSendable

variable {c : TCPConnection}

theorem sendable_stamp (r : TCPReceiver) {seg : TCPSegment} (h : seg.Sendable) :
    (stamp r seg).Sendable := by
  rw [stamp]
  cases r.ackno with
  | none => exact h
  | some ackno => exact ⟨h.doff_eq, h.length_payload_le, nofun⟩

theorem sendData (h : c.SendsSendable) : c.sendData.SendsSendable where
  queued := by
    rw [sendData_segmentsOut]
    intro seg hseg
    rcases List.mem_append.mp hseg with hseg | hseg
    · exact h.queued seg hseg
    · obtain ⟨unstamped, hmem, rfl⟩ := List.mem_map.mp hseg
      exact sendable_stamp _ (h.sender.queued unstamped hmem)
  sender := by
    rw [sendData_sender]
    exact ⟨List.forall_mem_nil _, h.sender.kept⟩

theorem start (cfg : TCPConfig) : (TCPConnection.new cfg).SendsSendable where
  queued := List.forall_mem_nil _
  sender := ⟨List.forall_mem_nil _, fun e he => absurd he (SortedMap.not_mem_empty e)⟩

theorem enter (h : c.SendsSendable) (a : Action) : (c.enter a).SendsSendable := by
  apply enter_induction a h
  · exact fun data => ⟨h.queued, h.sender.of_eq rfl rfl⟩
  · exact ⟨h.queued, h.sender.of_eq rfl rfl⟩
  · exact fun len => ⟨h.queued, h.sender⟩
  · exact fun ms => ⟨h.queued, h.sender.tick ms⟩
  · exact ⟨h.queued, h.sender⟩

theorem step (h : c.SendsSendable) (a : Action) : (c.step a).SendsSendable := by
  apply step_induction a
  · exact fun _ => h.enter a
  · exact fun _ => ⟨(h.enter a).queued, (h.enter a).sender.fillWindow⟩
  · exact fun seg _ _ _ _ => ⟨(h.enter a).queued, (h.enter a).sender.ackReceived _ _⟩
  · exact fun seg _ _ d hd => ⟨hd.queued, hd.sender⟩
  · intro d _ hd
    have hempty := hd.sender.queue [d.sender.emptySegment]
      (List.forall_mem_singleton.mpr ⟨rfl, Nat.zero_le _, fun _ => rfl⟩)
    exact ⟨hd.queued, hempty⟩
  · exact fun d hd => ⟨hd.queued, hd.sender.fillWindow⟩
  · exact fun d hd => hd.sendData
  · exact fun d hd => ⟨hd.queued, hd.sender.of_eq rfl rfl⟩
  · intro d hd
    refine ⟨?_, hd.sender.of_eq rfl rfl⟩
    intro seg hseg
    rcases List.mem_append.mp hseg with hseg | hseg
    · exact hd.queued seg hseg
    · rw [List.mem_singleton.mp hseg]
      exact ⟨rfl, Nat.zero_le _, fun _ => rfl⟩

end SendsSendable

end TCPConnection

end NetworkLabs
