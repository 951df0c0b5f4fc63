import NetworkLabs.Library.Transition
import NetworkLabs.Sponge.TCPSender.Steps

/-!
# The advertised window

An acknowledgment of the position `A` with the window `w` allows the sender to
use the positions up to `A + max w 1`, and a run remembers the largest such
edge. The sender itself keeps a window and a count of bytes in flight. Its own
edge, the oldest position in flight plus the window, never exceeds the largest
advertised one as long as no acknowledgment from behind that position widens
the window: such a one replaces the window, but not the position from which the
window is counted.
-/

namespace NetworkLabs

namespace TCPSender

/-- A call that is no acknowledgment, or an acknowledgment of the position
`A`. -/
inductive WindowEvent where
  | call (a : Action)
  | ack (A : ℕ) (windowSize : UInt16)

/-- A sender together with the largest edge that was advertised to it. -/
structure WindowRun where
  sender : TCPSender
  edge : ℕ

namespace WindowRun

/-- Before any acknowledgment the edge is that of the position `0` and the
window `1`. -/
def start (capacity : ℕ) (retxTimeout : UInt16) (isn : WrappingInt32) : WindowRun :=
  ⟨TCPSender.new capacity retxTimeout isn, 0 + max 1 1⟩

def step (r : WindowRun) : WindowEvent → WindowRun
  | .call a => { r with sender := (Session.step ⟨r.sender, []⟩ a).sender }
  | .ack A windowSize =>
      { sender := r.sender.ackReceived (wrap A r.sender.isn) windowSize
        edge := max r.edge (A + max windowSize.toNat 1) }

end WindowRun

/-- Every acknowledgment is one of a position up to the next one to be sent. -/
def WindowEvent.Acknowledges (r : WindowRun) : WindowEvent → Prop
  | .call (.ackReceived _ _) => False
  | .call _ => True
  | .ack A _ => A ≤ r.sender.nextSeqnoAbsolute

/-- The acknowledgment is refused, or its position is not behind the oldest one
in flight, or the window that it leaves ends below the largest edge so far. -/
def WindowEvent.KeepsEdge (r : WindowRun) : WindowEvent → Prop
  | .call _ => True
  | .ack A windowSize =>
      let distance := (r.sender.nextSeqno.sub (wrap A r.sender.isn)).toInt
      let oldest : ℤ := r.sender.nextSeqnoAbsolute - r.sender.bytesInFlight
      distance < 0 ∨ oldest ≤ A ∨
        max (r.sender.nextSeqnoAbsolute - distance) oldest + max windowSize.toNat 1 ≤ r.edge

/-- What one event pushes to the queue is empty, or a stored segment again, or
a new segment that ends at or in front of the edge. -/
def WithinEdge (r : WindowRun) (e : WindowEvent) : Prop :=
  ∀ seg ∈ (r.step e).sender.segmentsOut.drop r.sender.segmentsOut.length,
    seg.lengthInSequenceSpace = 0 ∨
    (∃ d ∈ r.sender.segmentsCache.entries, d.2 = seg) ∨
    ∃ d ∈ (r.step e).sender.segmentsCache.entries, d.2 = seg ∧ d.1 ≤ (r.step e).edge

/-- The edge of the sender itself lies inside the advertised one. -/
structure Edged (r : WindowRun) : Prop where
  key_le : ∀ e ∈ r.sender.segmentsCache, e.1 ≤ r.sender.nextSeqnoAbsolute
  key_pos : ∀ e ∈ r.sender.segmentsCache, 0 < e.1
  flight_lt : r.sender.bytesInFlight < 2 ^ 31
  flight_zero : r.sender.nextSeqnoAbsolute = 0 → r.sender.bytesInFlight = 0
  edge_pos : 1 ≤ r.edge
  window_le : (r.sender.nextSeqnoAbsolute : ℤ) - r.sender.bytesInFlight + r.sender.window ≤
    r.edge

theorem edged_start (capacity : ℕ) (retxTimeout : UInt16) (isn : WrappingInt32) :
    Edged (WindowRun.start capacity retxTimeout isn) where
  key_le := by simp [WindowRun.start, new]
  key_pos := by simp [WindowRun.start, new]
  flight_lt := by simp [WindowRun.start, new]
  flight_zero := fun _ => rfl
  edge_pos := le_rfl
  window_le := by simp [WindowRun.start, new, window]

section

variable {r : WindowRun} {s : TCPSender} {edge : ℕ} {new : List TCPSegment}

/-- The window does not move while it is filled, and nothing is sent behind
it. -/
theorem fillWindow_le_edge (h : Edged ⟨s, edge⟩) :
    s.fillWindow.window = s.window ∧
      (s.fillWindow.nextSeqnoAbsolute : ℤ) - s.fillWindow.bytesInFlight =
        s.nextSeqnoAbsolute - s.bytesInFlight ∧
      (s.fillWindow.nextSeqnoAbsolute ≤ edge ∨
        s.fillWindow.nextSeqnoAbsolute = s.nextSeqnoAbsolute) := by
  have hwindow := h.window_le
  have hedge := h.edge_pos
  change (s.nextSeqnoAbsolute : ℤ) - s.bytesInFlight + s.window ≤ edge at hwindow
  change 1 ≤ edge at hedge
  apply fillWindow_induction (P := fun t => t.window = s.window ∧
    (t.nextSeqnoAbsolute : ℤ) - t.bytesInFlight = s.nextSeqnoAbsolute - s.bytesInFlight ∧
    (t.nextSeqnoAbsolute ≤ edge ∨ t.nextSeqnoAbsolute = s.nextSeqnoAbsolute))
  · rintro t ⟨hw, hoff, -⟩ h0
    have hone : t.synSegment.lengthInSequenceSpace = 1 := rfl
    rw [transmit_window, transmit_nextSeqnoAbsolute, transmit_bytesInFlight, hone]
    exact ⟨hw, by omega, Or.inl (by omega)⟩
  · rintro t remsz ⟨hw, hoff, -⟩ - hroom -
    have hlen := length_dataSegment_le t (t.afterRead remsz) remsz
    rw [transmit_window, transmit_nextSeqnoAbsolute, transmit_bytesInFlight]
    change t.window = s.window ∧ ((t.nextSeqnoAbsolute + _ : ℕ) : ℤ) -
      (t.bytesInFlight + _ : ℕ) = _ ∧ (t.nextSeqnoAbsolute + _ ≤ edge ∨ _)
    exact ⟨hw, by omega, Or.inl (by omega)⟩
  · exact fun t remsz ht _ => ht
  · rintro t ⟨hw, hoff, -⟩ - - hroom
    change t.window = s.window ∧ ((t.nextSeqnoAbsolute + 1 : ℕ) : ℤ) -
      (t.bytesInFlight + 1 : ℕ) = _ ∧ (t.nextSeqnoAbsolute + 1 ≤ edge ∨ _)
    exact ⟨hw, by omega, Or.inl (by omega)⟩
  · exact ⟨rfl, rfl, Or.inr rfl⟩

theorem Edged.fillWindow (h : Edged ⟨s, edge⟩) : Edged ⟨s.fillWindow, edge⟩ := by
  obtain ⟨new, hnew⟩ := transmits_fillWindow s
  obtain ⟨hwindow, hoff, -⟩ := fillWindow_le_edge h
  have hle := h.window_le
  have hnext := hnew.next_eq
  have hflight := hnew.flight_eq
  refine ⟨?_, ?_, flight_fillWindow_lt s h.flight_lt h.flight_zero, ?_, h.edge_pos, ?_⟩
  · exact hnew.keysLe h.key_le
  · refine hnew.forall_mem_cache h.key_le h.key_pos ?_
    intro e he
    have hends := hnew.bounds he
    omega
  · intro h0
    have hzero := h.flight_zero
    change s.fillWindow.nextSeqnoAbsolute = 0 at h0
    change s.nextSeqnoAbsolute = 0 → s.bytesInFlight = 0 at hzero
    change s.fillWindow.bytesInFlight = 0
    omega
  · change (s.fillWindow.nextSeqnoAbsolute : ℤ) - s.fillWindow.bytesInFlight +
      s.fillWindow.window ≤ edge
    rw [hoff, hwindow]
    exact hle

/-- What `fill_window` pushes is stored anew, inside the edge. -/
theorem Edged.pushed_fillWindow (h : Edged ⟨s, edge⟩) :
    ∀ seg ∈ s.fillWindow.segmentsOut.drop s.segmentsOut.length,
      ∃ d ∈ s.fillWindow.segmentsCache.entries, d.2 = seg ∧ d.1 ≤ edge := by
  obtain ⟨new, hnew⟩ := transmits_fillWindow s
  obtain ⟨-, -, hedge⟩ := fillWindow_le_edge h
  intro seg hseg
  rw [hnew.out_eq, List.drop_left] at hseg
  obtain ⟨k, hk⟩ := Tiling.exists_mem_ends TCPSegment.lengthInSequenceSpace
    s.nextSeqnoAbsolute new seg hseg
  have hbounds := hnew.bounds hk
  refine ⟨(k, seg), (hnew.mem_cache h.key_le _).mpr (Or.inr hk), rfl, ?_⟩
  rcases hedge with hedge | hsame
  · exact le_trans hbounds.2.1 hedge
  · omega

/-- An acknowledgment that keeps the edge and is not refused leaves a window that
ends inside the advertised edge, whether or not it moves the oldest position. -/
theorem Edged.window_le_of_keepsEdge (h : Edged r) (A : ℕ) (windowSize : UInt16)
    (hack : WindowEvent.Acknowledges r (.ack A windowSize))
    (hkeeps : WindowEvent.KeepsEdge r (.ack A windowSize))
    (hn : 0 ≤ r.sender.nBytes (wrap A r.sender.isn)) :
    max ((r.sender.nextSeqnoAbsolute : ℤ) - r.sender.nBytes (wrap A r.sender.isn))
        (r.sender.nextSeqnoAbsolute - r.sender.bytesInFlight) + (max windowSize.toNat 1 : ℕ) ≤
      (max r.edge (A + max windowSize.toNat 1) : ℕ) := by
  have hflight := h.flight_lt
  have hle : A ≤ r.sender.nextSeqnoAbsolute := hack
  rcases hkeeps with hrefused | hnear | hkept
  · exact absurd hn (not_le.mpr hrefused)
  · -- the distance is exact, and the window is counted from the position itself
    have hdistance := nBytes_wrap A hle (by omega)
    rw [hdistance]
    omega
  · change max ((r.sender.nextSeqnoAbsolute : ℤ) - r.sender.nBytes (wrap A r.sender.isn)) _ + _ ≤
      _ at hkept
    omega

/-- The sender behind the loop over the store, when something was popped. -/
theorem Edged.restart (h : Edged r) (A : ℕ) (windowSize : UInt16)
    (hack : WindowEvent.Acknowledges r (.ack A windowSize))
    (hkeeps : WindowEvent.KeepsEdge r (.ack A windowSize))
    (hn : 0 ≤ r.sender.nBytes (wrap A r.sender.isn))
    (hpop : r.sender.acknosPop (wrap A r.sender.isn) ≠ []) :
    Edged ⟨(r.sender.popAcked (wrap A r.sender.isn) windowSize).restart
      (r.sender.nBytes (wrap A r.sender.isn)) windowSize,
      max r.edge (A + max windowSize.toNat 1)⟩ where
  key_le := fun e he => h.key_le e (@mem_of_popAcked _ _ windowSize e he)
  key_pos := fun e he => h.key_pos e (@mem_of_popAcked _ _ windowSize e he)
  flight_lt := by
    have hmax := nBytes_lt r.sender (wrap A r.sender.isn)
    change (r.sender.nBytes (wrap A r.sender.isn)).toNat < 2 ^ 31
    omega
  flight_zero := by
    intro h0
    obtain ⟨e, he, -⟩ := exists_mem_of_acknosPop_ne_nil hpop
    have hkey := h.key_le e he
    have hpos := h.key_pos e he
    change r.sender.nextSeqnoAbsolute = 0 at h0
    omega
  edge_pos := le_trans h.edge_pos (le_max_left _ _)
  window_le := by
    have hle := h.window_le_of_keepsEdge A windowSize hack hkeeps hn
    rw [window_eq]
    change (r.sender.nextSeqnoAbsolute : ℤ) -
      (r.sender.nBytes (wrap A r.sender.isn)).toNat + (max windowSize.toNat 1 : ℕ) ≤
        (max r.edge (A + max windowSize.toNat 1) : ℕ)
    omega

theorem withinEdge_of_segmentsOut_eq {e : WindowEvent}
    (h : (r.step e).sender.segmentsOut = r.sender.segmentsOut) : WithinEdge r e := by
  intro seg hseg
  rw [h, List.drop_length] at hseg
  exact absurd hseg List.not_mem_nil

/-- The acknowledgment of a position inside what was sent, when it keeps the
edge, leaves a sender whose edge lies inside the advertised one. -/
theorem Edged.ackReceived (h : Edged r) (A : ℕ) (windowSize : UInt16)
    (hack : WindowEvent.Acknowledges r (.ack A windowSize))
    (hkeeps : WindowEvent.KeepsEdge r (.ack A windowSize)) :
    Edged (r.step (.ack A windowSize)) ∧ WithinEdge r (.ack A windowSize) := by
  have hgrow : 1 ≤ max r.edge (A + max windowSize.toNat 1) :=
    le_trans h.edge_pos (le_max_left _ _)
  rcases ackReceived_cases r.sender (wrap A r.sender.isn) windowSize with
    ⟨-, heq⟩ | ⟨hn, -, heq⟩ | ⟨hn, hpop, heq⟩
  · have hle := le_trans h.window_le (Nat.cast_le.mpr
      (le_max_left r.edge (A + max windowSize.toNat 1)))
    refine ⟨?_, withinEdge_of_segmentsOut_eq (congrArg segmentsOut heq)⟩
    simp only [WindowRun.step, heq]
    exact { h with edge_pos := hgrow, window_le := hle }
  · have hle := h.window_le_of_keepsEdge A windowSize hack hkeeps hn
    refine ⟨?_, withinEdge_of_segmentsOut_eq ((congrArg segmentsOut heq).trans rfl)⟩
    simp only [WindowRun.step, heq]
    exact {
      key_le := fun e he => h.key_le e (mem_of_popAcked he)
      key_pos := fun e he => h.key_pos e (mem_of_popAcked he)
      flight_lt := h.flight_lt
      flight_zero := h.flight_zero
      edge_pos := hgrow
      window_le := by
        rw [window_eq]
        change (r.sender.nextSeqnoAbsolute : ℤ) - r.sender.bytesInFlight +
          (max windowSize.toNat 1 : ℕ) ≤ (max r.edge (A + max windowSize.toNat 1) : ℕ)
        omega }
  · have hrestart := h.restart A windowSize hack hkeeps hn hpop
    simp only [WithinEdge, WindowRun.step, heq]
    refine ⟨hrestart.fillWindow, ?_⟩
    exact fun seg hseg => Or.inr (Or.inr (hrestart.pushed_fillWindow seg hseg))

theorem Edged.step (h : Edged r) (e : WindowEvent) (hack : e.Acknowledges r)
    (hkeeps : e.KeepsEdge r) : Edged (r.step e) ∧ WithinEdge r e := by
  cases e with
  | ack A windowSize => exact h.ackReceived A windowSize hack hkeeps
  | call a =>
      cases a with
      | write data => exact ⟨{ h with }, withinEdge_of_segmentsOut_eq rfl⟩
      | endInput => exact ⟨{ h with }, withinEdge_of_segmentsOut_eq rfl⟩
      | fillWindow =>
          refine ⟨Edged.fillWindow (s := r.sender) h, ?_⟩
          exact fun seg hseg =>
            Or.inr (Or.inr (Edged.pushed_fillWindow (s := r.sender) h seg hseg))
      | ackReceived ackno windowSize => exact absurd hack id
      | tick ms =>
          obtain ⟨out, time, timeout, retx, heq, hout⟩ := tick_eq r.sender ms
          rw [WithinEdge]
          change Edged ⟨r.sender.tick ms, r.edge⟩ ∧
            ∀ seg ∈ (r.sender.tick ms).segmentsOut.drop _, _ ∨ _ ∨ _
          rw [heq]
          refine ⟨{ h with }, ?_⟩
          intro seg hseg
          rw [List.drop_left] at hseg
          obtain ⟨k, hk⟩ := hout seg hseg
          exact Or.inr (Or.inl ⟨(k, seg), hk, rfl⟩)
      | sendEmptySegment =>
          refine ⟨{ h with }, ?_⟩
          intro seg hseg
          change seg ∈ (r.sender.segmentsOut ++ [r.sender.emptySegment]).drop _ at hseg
          rw [List.drop_left, List.mem_singleton] at hseg
          rw [hseg]
          exact Or.inl rfl

end

/-- In a run whose acknowledgments keep the edge, every new segment ends at or
in front of the largest edge advertised so far. -/
theorem run_within_edge (capacity : ℕ) (retxTimeout : UInt16) (isn : WrappingInt32)
    (events : List WindowEvent)
    (hacks : Transition.Along WindowRun.step (fun r e => e.Acknowledges r)
      (WindowRun.start capacity retxTimeout isn) events)
    (hkeeps : Transition.Along WindowRun.step (fun r e => e.KeepsEdge r)
      (WindowRun.start capacity retxTimeout isn) events) :
    Transition.Along WindowRun.step WithinEdge
      (WindowRun.start capacity retxTimeout isn) events :=
  Transition.Along.of_invariant Edged (fun _ e h hguard => (h.step e hguard.1 hguard.2).1)
    (fun _ e h hguard => (h.step e hguard.1 hguard.2).2) _ events
    (edged_start capacity retxTimeout isn) (hacks.and _ _ hkeeps)

instance : DecidableRel fun (r : WindowRun) (e : WindowEvent) => e.Acknowledges r
  | _, .call (.ackReceived _ _) => isFalse id
  | _, .call (.write _) => isTrue trivial
  | _, .call .endInput => isTrue trivial
  | _, .call .fillWindow => isTrue trivial
  | _, .call (.tick _) => isTrue trivial
  | _, .call .sendEmptySegment => isTrue trivial
  | r, .ack A _ => inferInstanceAs (Decidable (A ≤ r.sender.nextSeqnoAbsolute))

instance : DecidableRel fun (r : WindowRun) (e : WindowEvent) => e.KeepsEdge r
  | _, .call _ => isTrue trivial
  | _, .ack A _ => inferInstanceAs (Decidable (_ < _ ∨ _ ≤ (A : ℤ) ∨ _ ≤ _))

instance : DecidableRel WithinEdge := fun r e =>
  inferInstanceAs (Decidable (∀ seg ∈ (r.step e).sender.segmentsOut.drop _, _ ∨ _ ∨ _))

/-- Two bytes are sent one by one, and then an old acknowledgment with a larger
window is repeated in time. -/
theorem run_within_edge_repeated :
    Transition.Along WindowRun.step WithinEdge (WindowRun.start 4 1000 ⟨0⟩)
      [.call .fillWindow, .ack 1 1, .call (.write [7, 8]), .call .fillWindow, .ack 1 1,
        .ack 2 1, .call (.tick 1000)] :=
  run_within_edge 4 1000 ⟨0⟩ _ (by decide) (by decide)

/-- The acknowledgment of the SYN is delayed; it carries the window `2` and
lets a byte past the edge `3`. -/
theorem not_within_edge_delayed :
    Transition.Along WindowRun.step (fun r e => e.Acknowledges r) (WindowRun.start 4 1000 ⟨0⟩)
      [.call .fillWindow, .ack 1 1, .call (.write [7, 8, 9]), .call .fillWindow, .ack 2 1,
        .ack 1 2, .call .fillWindow] ∧
    ¬ Transition.Along WindowRun.step WithinEdge (WindowRun.start 4 1000 ⟨0⟩)
      [.call .fillWindow, .ack 1 1, .call (.write [7, 8, 9]), .call .fillWindow, .ack 2 1,
        .ack 1 2, .call .fillWindow] := by
  constructor
  · decide
  · decide

end TCPSender

end NetworkLabs
