import NetworkLabs.Sponge.TCPConnection.Outbound

/-!
# What a connection delivers

The receiver of a connection is fed segments that the peer emitted. As long as
they are cut from the bytes `S` that the peer has accepted so far, the inbound
stream is a prefix of `S`, and it has ended only if the peer has ended its
stream and `S` is complete. The bytes of the peer may grow meanwhile.
-/

namespace NetworkLabs

namespace TCPConnection

open TCPReceiver TCPSegment

/-- The receiver of the connection assembles the bytes `S` that the peer has
accepted, and its reader was handed `consumed`. -/
structure Inbound (S : List UInt8) (peerEnded : Bool) (capacity : ℕ)
    (peerIsn : WrappingInt32) (consumed : List UInt8) (c : TCPConnection) : Prop where
  stores : ∃ q, StreamReassembler.Stores S capacity ⟨c.receiver.reassembler, consumed⟩ q
  tracks : Tracks peerIsn c.receiver
  end_known : c.receiver.reassembler.eofIdx = S.length → peerEnded = true

namespace Inbound

variable {S T : List UInt8} {peerEnded peerEnded' : Bool} {capacity : ℕ}
  {peerIsn : WrappingInt32} {consumed : List UInt8} {c : TCPConnection}

theorem start (cfg : TCPConfig) (peerIsn : WrappingInt32) (h : cfg.recvCapacity < 2 ^ 31) :
    Inbound [] false cfg.recvCapacity peerIsn [] (new cfg) where
  stores := ⟨_, StreamReassembler.stores_start (by simpa using h)⟩
  tracks := tracks_new _ _
  end_known := nofun

theorem mono (h : Inbound S peerEnded capacity peerIsn consumed c) (hST : S <+: T)
    (hbound : T.length + capacity < 2 ^ 31)
    (hopen : peerEnded = true → S = T ∧ peerEnded' = true) :
    Inbound T peerEnded' capacity peerIsn consumed c where
  stores := by
    obtain ⟨q, hq⟩ := h.stores
    exact ⟨q, { hq with
      inv := hq.inv.mono hST (by rwa [hq.capacity_eq]) fun heof => (hopen (h.end_known heof)).1 }⟩
  tracks := h.tracks
  end_known := by
    intro heof
    obtain ⟨q, hq⟩ := h.stores
    rcases hq.inv.eofIdx_eq with hnone | hknown
    · rw [hnone, StreamReassembler.sizeT_neg_one] at heof
      omega
    · exact (hopen (h.end_known hknown)).2

/-- The bytes that were written to the inbound stream, and its end. -/
theorem delivers (h : Inbound S peerEnded capacity peerIsn consumed c) :
    consumed ++ c.inboundStream.peekOutput c.inboundStream.bufferSize <+: S ∧
      (c.inboundStream.inputEnded = true →
        peerEnded = true ∧
          consumed ++ c.inboundStream.peekOutput c.inboundStream.bufferSize = S) := by
  obtain ⟨q, hq⟩ := h.stores
  have hwritten : consumed ++ c.inboundStream.peekOutput c.inboundStream.bufferSize =
      q.written := hq.written_eq
  rw [hwritten]
  refine ⟨hq.inv.assembled.written_prefix, ?_⟩
  intro hended
  obtain ⟨hknown, hall⟩ := hq.inv.isEnd_iff.mp hended
  refine ⟨h.end_known hknown, ?_⟩
  rw [hq.inv.written_eq, hall, List.take_length]

theorem of_receiver (h : Inbound S peerEnded capacity peerIsn consumed c)
    {d : TCPConnection} (hd : d.receiver = c.receiver) :
    Inbound S peerEnded capacity peerIsn consumed d where
  stores := by
    rw [hd]
    exact h.stores
  tracks := by
    rw [hd]
    exact h.tracks
  end_known := by
    rw [hd]
    exact h.end_known

theorem receive (h : Inbound S peerEnded capacity peerIsn consumed c) {seg : TCPSegment}
    (hseg : Emitted S peerIsn peerEnded seg) (hrst : seg.header.rst = false) :
    Inbound S peerEnded capacity peerIsn consumed (c.receive seg) := by
  obtain ⟨q, hq⟩ := h.stores
  rcases hseg with hreset | ⟨⟨index, hcut⟩, hfin⟩
  · rw [hrst] at hreset
    exact absurd hreset (by decide)
  · obtain ⟨q', hq', -⟩ := stores_segmentReceived hq h.tracks hcut
    exact {
      stores := ⟨q', hq'⟩
      tracks := Tracks.segmentReceived hq.inv h.tracks hcut
      end_known := by
        intro heof
        rcases eofIdx_segmentReceived hq.inv h.tracks hcut heof with hold | hflag
        · exact h.end_known hold
        · exact hfin hflag }

theorem read (h : Inbound S peerEnded capacity peerIsn consumed c) (len : ℕ) :
    Inbound S peerEnded capacity peerIsn (consumed ++ (c.read len).2) (c.read len).1 where
  stores := by
    obtain ⟨q, hq⟩ := h.stores
    obtain ⟨q', hq', -⟩ := hq.step (.read len) trivial
    exact ⟨q', hq'⟩
  tracks := h.tracks.read len
  end_known := h.end_known

theorem abort (h : Inbound S peerEnded capacity peerIsn consumed c) :
    Inbound S peerEnded capacity peerIsn consumed c.abort where
  stores := by
    obtain ⟨q, hq⟩ := h.stores
    exact ⟨q, { hq with inv := hq.inv.setError }⟩
  tracks := { h.tracks with }
  end_known := h.end_known

end Inbound

end TCPConnection

end NetworkLabs
