import NetworkLabs.Library.Transition
import NetworkLabs.Sponge.TCPSender.Steps

/-!
# The retransmission timer

The sender has no timer that is started and stopped. It counts milliseconds while
its store is not empty, and sets the count to 0 when it erases a segment or sends
one again. A `Watch` looks at a session from outside: it is started when the store
fills, restarted by acknowledgments that remove something and by retransmissions,
and counts the retransmissions into an open window. The sender agrees with it,
with its count taken modulo the width of a `size_t`.
-/

namespace NetworkLabs

namespace TCPSender

/-- Data is outstanding. -/
def Waits (s : TCPSender) : Prop := s.segmentsCache.entries ≠ []

instance : DecidablePred Waits := fun s =>
  inferInstanceAs (Decidable (s.segmentsCache.entries ≠ []))

/-- The call is a tick that sends something. -/
def Action.Retransmits (s : Session) : Action → Prop
  | .tick ms => (s.sender.tick ms).segmentsOut ≠ s.sender.segmentsOut
  | _ => False

/-- The call is an acknowledgment that removes a segment. -/
def Action.Removes (s : Session) : Action → Prop
  | .ackReceived ackno windowSize => ∃ e ∈ s.sender.segmentsCache.entries,
      e ∉ (s.sender.ackReceived ackno windowSize).segmentsCache.entries
  | _ => False

/-- The call is the first one to store something. -/
def Action.Starts (s : Session) (a : Action) : Prop :=
  ¬ s.sender.Waits ∧ (s.step a).sender.Waits

/-- The milliseconds that pass while data is outstanding. -/
def Action.waited (s : Session) : Action → ℕ
  | .tick ms => if s.sender.Waits then ms else 0
  | _ => 0

instance : DecidableRel fun (s : Session) (a : Action) => a.Retransmits s
  | s, .tick ms =>
      inferInstanceAs (Decidable ((s.sender.tick ms).segmentsOut ≠ s.sender.segmentsOut))
  | _, .write _ => isFalse id
  | _, .endInput => isFalse id
  | _, .fillWindow => isFalse id
  | _, .ackReceived _ _ => isFalse id
  | _, .sendEmptySegment => isFalse id

instance : DecidableRel fun (s : Session) (a : Action) => a.Removes s
  | s, .ackReceived ackno windowSize =>
      inferInstanceAs (Decidable (∃ e ∈ s.sender.segmentsCache.entries,
        e ∉ (s.sender.ackReceived ackno windowSize).segmentsCache.entries))
  | _, .write _ => isFalse id
  | _, .endInput => isFalse id
  | _, .fillWindow => isFalse id
  | _, .tick _ => isFalse id
  | _, .sendEmptySegment => isFalse id

instance : DecidableRel fun (s : Session) (a : Action) => a.Starts s := fun s a =>
  inferInstanceAs (Decidable (¬ s.sender.Waits ∧ (s.step a).sender.Waits))

/-- A session, the milliseconds for which data was outstanding since the latest
start, removal or retransmission, and the retransmissions into an open window since
the latest removal. -/
structure Watch where
  session : Session
  elapsed : ℕ
  backoffs : ℕ

namespace Watch

def start (capacity : ℕ) (retxTimeout : UInt16) (isn : WrappingInt32) : Watch :=
  ⟨Session.start capacity retxTimeout isn, 0, 0⟩

def step (w : Watch) (a : Action) : Watch where
  session := w.session.step a
  elapsed :=
    if a.Starts w.session ∨ a.Removes w.session ∨ a.Retransmits w.session then 0
    else w.elapsed + a.waited w.session
  backoffs :=
    if a.Removes w.session then 0
    else if a.Retransmits w.session ∧ w.session.sender.peerWindowsSize ≠ 0 then w.backoffs + 1
    else w.backoffs

def run (capacity : ℕ) (retxTimeout : UInt16) (isn : WrappingInt32)
    (actions : List Action) : Watch :=
  actions.foldl step (start capacity retxTimeout isn)

section

variable {w : Watch} {a : Action}

theorem elapsed_of_resets
    (h : a.Starts w.session ∨ a.Removes w.session ∨ a.Retransmits w.session) :
    (w.step a).elapsed = 0 := if_pos h

theorem elapsed_of_not_resets
    (h : ¬ (a.Starts w.session ∨ a.Removes w.session ∨ a.Retransmits w.session)) :
    (w.step a).elapsed = w.elapsed + a.waited w.session := if_neg h

theorem backoffs_of_removes (h : a.Removes w.session) : (w.step a).backoffs = 0 := if_pos h

theorem backoffs_of_retransmits (hremoves : ¬ a.Removes w.session)
    (h : a.Retransmits w.session) : (w.step a).backoffs =
      if w.session.sender.peerWindowsSize ≠ 0 then w.backoffs + 1 else w.backoffs := by
  rw [step]
  simp only [hremoves, h, true_and, if_false]

theorem backoffs_of_not (hremoves : ¬ a.Removes w.session) (h : ¬ a.Retransmits w.session) :
    (w.step a).backoffs = w.backoffs := by
  rw [step]
  simp only [hremoves, h, false_and, if_false]

end

end Watch

/-- The entry is stored, and none starts at a lower number. -/
structure IsLowest (s : TCPSender) (e : ℕ × TCPSegment) : Prop where
  mem : e ∈ s.segmentsCache
  seqno_eq : e.2.header.seqno = wrap (e.1 - e.2.lengthInSequenceSpace) s.isn
  lowest : ∀ f ∈ s.segmentsCache,
    e.1 - e.2.lengthInSequenceSpace ≤ f.1 - f.2.lengthInSequenceSpace

/-- The sender does what the watch says. -/
structure Follows (retxTimeout : UInt16) (w : Watch) : Prop where
  time_eq : w.session.sender.time = w.elapsed % 2 ^ 64
  backoffs_eq : w.session.sender.consecutiveRetransmissions = w.backoffs
  timeout_eq : w.session.sender.initialRetransmissionTimeout.toNat =
    retxTimeout.toNat * 2 ^ w.session.sender.consecutiveRetransmissions
  retransmits_iff : ∀ ms, (Action.tick ms).Retransmits w.session ↔
    w.session.sender.Waits ∧
      w.session.sender.initialRetransmissionTimeout.toNat ≤ (w.elapsed + ms) % 2 ^ 64 ∧
      w.backoffs ≤ TCPConfig.MAX_RETX_ATTEMPTS
  resent : ∀ ms, (Action.tick ms).Retransmits w.session → ∃ e, IsLowest w.session.sender e ∧
    (w.session.sender.tick ms).segmentsOut = w.session.sender.segmentsOut ++ [e.2]
  closed_window : ∀ ms, w.session.sender.peerWindowsSize = 0 →
    (w.session.sender.tick ms).initialRetransmissionTimeout =
        w.session.sender.initialRetransmissionTimeout ∧
      (w.session.sender.tick ms).consecutiveRetransmissions =
        w.session.sender.consecutiveRetransmissions

/-! ## One tick -/

section

variable {s t : TCPSender} {new : List TCPSegment}

/-- The timer has run out, and the segment may be sent once more. -/
def Expires (s : TCPSender) (ms : ℕ) : Prop :=
  s.initialRetransmissionTimeout.toNat ≤ sizeT (s.time + ms) ∧
    s.retxTimes.toNat ≤ TCPConfig.MAX_RETX_ATTEMPTS

/-- The sender after the oldest segment has been sent again. -/
def resend (s : TCPSender) (oldest : TCPSegment) : TCPSender :=
  { s with
    segmentsOut := s.segmentsOut ++ [oldest]
    time := 0
    initialRetransmissionTimeout :=
      if s.peerWindowsSize ≠ 0 then s.initialRetransmissionTimeout * 2
      else s.initialRetransmissionTimeout
    retxTimes := if s.peerWindowsSize ≠ 0 then s.retxTimes + 1 else s.retxTimes }

/-- The three ways through `tick`. -/
theorem tick_cases (s : TCPSender) (ms : ℕ) :
    (¬ s.Waits ∧ s.tick ms = s) ∨
    (s.Waits ∧ ¬ s.Expires ms ∧ s.tick ms = { s with time := sizeT (s.time + ms) }) ∨
    (s.Waits ∧ s.Expires ms ∧ ∃ oldest rest, s.segmentsCache.entries = oldest :: rest ∧
      s.tick ms = s.resend oldest.2) := by
  rw [tick, Waits]
  cases s.segmentsCache.entries with
  | nil => exact Or.inl ⟨not_not.mpr rfl, rfl⟩
  | cons oldest rest =>
      refine Or.inr ?_
      by_cases hexpires : s.Expires ms
      · exact Or.inr ⟨List.cons_ne_nil _ _, hexpires, oldest, rest, rfl, if_pos hexpires⟩
      · exact Or.inl ⟨List.cons_ne_nil _ _, hexpires, if_neg hexpires⟩

theorem tick_retransmits_iff (s : Session) (ms : ℕ) :
    (Action.tick ms).Retransmits s ↔ s.sender.Waits ∧ s.sender.Expires ms := by
  rw [Action.Retransmits]
  rcases tick_cases s.sender ms with ⟨hwaits, heq⟩ | ⟨hwaits, hexpires, heq⟩ |
    ⟨hwaits, hexpires, oldest, rest, -, heq⟩
  · rw [heq]
    exact iff_of_false (not_not.mpr rfl) fun h => hwaits h.1
  · rw [heq]
    exact iff_of_false (not_not.mpr rfl) fun h => hexpires h.2
  · rw [heq]
    refine iff_of_true ?_ ⟨hwaits, hexpires⟩
    exact fun h => List.cons_ne_nil oldest.2 [] (List.append_right_eq_self.mp h)

/-- The timer and the backoff of the two senders agree. -/
structure KeepsTimer (s t : TCPSender) : Prop where
  time_eq : t.time = s.time
  retx_eq : t.retxTimes = s.retxTimes
  default_eq : t.defaultInitialRetransmissionTimeout = s.defaultInitialRetransmissionTimeout
  timeout_eq : t.initialRetransmissionTimeout = s.initialRetransmissionTimeout

theorem Transmits.keepsTimer (h : Transmits s t new) : KeepsTimer s t :=
  ⟨h.time_eq, h.retx_eq, h.default_eq, h.timeout_eq⟩

/-! ## The order of the store -/

/-- The stored segments lie one behind the other, and carry the numbers of where
they start. -/
structure Stacked (s : TCPSender) : Prop where
  keysLe : KeysLe s
  length_le : ∀ e ∈ s.segmentsCache, e.2.lengthInSequenceSpace ≤ e.1
  behind : s.segmentsCache.entries.Pairwise fun e f => e.1 + f.2.lengthInSequenceSpace ≤ f.1
  seqno_eq : ∀ e ∈ s.segmentsCache,
    e.2.header.seqno = wrap (e.1 - e.2.lengthInSequenceSpace) s.isn

theorem Stacked.transmits (h : Stacked s) (ht : Transmits s t new) : Stacked t where
  keysLe := ht.keysLe h.keysLe
  length_le := by
    refine ht.forall_mem_cache h.keysLe h.length_le ?_
    intro e he
    have hbounds := ht.bounds he
    omega
  behind := by
    rw [ht.entries_eq h.keysLe]
    refine List.pairwise_append.mpr ⟨h.behind, Tiling.pairwise_ends _ _ new, ?_⟩
    intro e he f hf
    have hkey := h.keysLe e he
    have hbounds := ht.bounds hf
    omega
  seqno_eq := ht.forall_seqno_eq h.keysLe h.seqno_eq

theorem Stacked.popAcked (h : Stacked s) (ackno : WrappingInt32) (windowSize : UInt16) :
    Stacked (s.popAcked ackno windowSize) where
  keysLe := h.keysLe.popAcked ackno windowSize
  length_le := fun e he => h.length_le e (mem_of_popAcked he)
  behind := h.behind.filter _
  seqno_eq := fun e he => h.seqno_eq e (mem_of_popAcked he)

theorem Stacked.ackReceived (h : Stacked s) (ackno : WrappingInt32) (windowSize : UInt16) :
    Stacked (s.ackReceived ackno windowSize) := by
  have hpop := h.popAcked ackno windowSize
  rcases ackReceived_cases s ackno windowSize with
    ⟨-, heq⟩ | ⟨-, -, heq⟩ | ⟨-, -, heq⟩
  · rw [heq]
    exact h
  · rw [heq]
    exact hpop
  · obtain ⟨new, hnew⟩ := transmits_fillWindow
      ((s.popAcked ackno windowSize).restart (s.nBytes ackno) windowSize)
    have hrestart : Stacked ((s.popAcked ackno windowSize).restart (s.nBytes ackno)
        windowSize) := { hpop with }
    rw [heq]
    exact hrestart.transmits hnew

/-- The first entry starts lowest. -/
theorem Stacked.isLowest (h : Stacked s) {oldest : ℕ × TCPSegment}
    {rest : List (ℕ × TCPSegment)} (hentries : s.segmentsCache.entries = oldest :: rest) :
    IsLowest s oldest := by
  have hmem : oldest ∈ s.segmentsCache := by
    rw [SortedMap.mem_def, hentries]
    exact List.mem_cons_self
  have hbehind := h.behind
  rw [hentries, List.pairwise_cons] at hbehind
  refine ⟨hmem, h.seqno_eq oldest hmem, ?_⟩
  intro f hf
  rw [SortedMap.mem_def, hentries] at hf
  rcases List.mem_cons.mp hf with rfl | hf
  · exact le_rfl
  · have hlow := hbehind.1 f hf
    omega

/-! ## The invariant -/

/-- A sender and what a watch has counted. The sender counts from 0 while nothing is
stored, so it need not clear its count when the store fills. -/
structure Timed (retxTimeout : UInt16) (s : TCPSender) (elapsed backoffs : ℕ) : Prop where
  stacked : Stacked s
  time_eq : s.time = elapsed % 2 ^ 64
  idle : ¬ s.Waits → s.time = 0
  backoffs_eq : s.retxTimes.toNat = backoffs
  backoffs_le : backoffs ≤ TCPConfig.MAX_RETX_ATTEMPTS + 1
  default_eq : s.defaultInitialRetransmissionTimeout = retxTimeout.toUInt32
  timeout_eq : s.initialRetransmissionTimeout.toNat = retxTimeout.toNat * 2 ^ backoffs

theorem timed_new (capacity : ℕ) (retxTimeout : UInt16) (isn : WrappingInt32) :
    Timed retxTimeout (TCPSender.new capacity retxTimeout isn) 0 0 where
  stacked := {
    keysLe := fun _ he => absurd he (SortedMap.not_mem_empty _)
    length_le := fun _ he => absurd he (SortedMap.not_mem_empty _)
    behind := List.Pairwise.nil
    seqno_eq := fun _ he => absurd he (SortedMap.not_mem_empty _) }
  time_eq := rfl
  idle := fun _ => rfl
  backoffs_eq := rfl
  backoffs_le := Nat.zero_le _
  default_eq := rfl
  timeout_eq := by
    change retxTimeout.toUInt32.toNat = retxTimeout.toNat * 2 ^ 0
    rw [pow_zero, Nat.mul_one, UInt16.toNat_toUInt32]

section

variable {retxTimeout : UInt16} {elapsed backoffs : ℕ}

/-- A sender that leaves the timer alone and loses nothing. -/
theorem Timed.keep (h : Timed retxTimeout s elapsed backoffs) (hstacked : Stacked t)
    (hwaits : s.Waits → t.Waits) (hkeeps : KeepsTimer s t) :
    Timed retxTimeout t elapsed backoffs where
  stacked := hstacked
  time_eq := hkeeps.time_eq.trans h.time_eq
  idle := fun hidle => hkeeps.time_eq.trans (h.idle fun hold => hidle (hwaits hold))
  backoffs_eq := (congrArg UInt8.toNat hkeeps.retx_eq).trans h.backoffs_eq
  backoffs_le := h.backoffs_le
  default_eq := hkeeps.default_eq.trans h.default_eq
  timeout_eq := (congrArg UInt32.toNat hkeeps.timeout_eq).trans h.timeout_eq

theorem Timed.count (h : Timed retxTimeout s elapsed backoffs) (hwaits : s.Waits) (ms : ℕ) :
    Timed retxTimeout { s with time := sizeT (s.time + ms) } (elapsed + ms) backoffs where
  stacked := { h.stacked with }
  time_eq := by
    change sizeT (s.time + ms) = _
    rw [sizeT_add_eq_mod, h.time_eq, Nat.mod_add_mod]
  idle := fun hidle => absurd hwaits hidle
  backoffs_eq := h.backoffs_eq
  backoffs_le := h.backoffs_le
  default_eq := h.default_eq
  timeout_eq := h.timeout_eq

/-- A retransmission into an open window doubles the timeout, which cannot overflow
before the attempts are used up. -/
theorem Timed.resend (h : Timed retxTimeout s elapsed backoffs)
    (hle : backoffs ≤ TCPConfig.MAX_RETX_ATTEMPTS) (oldest : TCPSegment) :
    Timed retxTimeout (s.resend oldest) 0
      (if s.peerWindowsSize ≠ 0 then backoffs + 1 else backoffs) where
  stacked := { h.stacked with }
  time_eq := rfl
  idle := fun _ => rfl
  backoffs_eq := by
    have hretx := h.backoffs_eq
    have hmax : TCPConfig.MAX_RETX_ATTEMPTS = 8 := rfl
    change (if s.peerWindowsSize ≠ 0 then s.retxTimes + 1 else s.retxTimes).toNat = _
    split_ifs
    · rw [UInt8.toNat_add, hretx]
      change (backoffs + 1) % 2 ^ 8 = _
      omega
    · exact hretx
  backoffs_le := by
    split_ifs
    · exact Nat.add_le_add_right hle 1
    · exact h.backoffs_le
  default_eq := h.default_eq
  timeout_eq := by
    have hlt := retxTimeout.toNat_lt
    have hpow : 2 ^ (backoffs + 1) ≤ 2 ^ 9 :=
      Nat.pow_le_pow_right two_pos (Nat.add_le_add_right hle 1)
    have hsmall : retxTimeout.toNat * 2 ^ (backoffs + 1) < 2 ^ 32 := by
      calc retxTimeout.toNat * 2 ^ (backoffs + 1)
          ≤ retxTimeout.toNat * 2 ^ 9 := Nat.mul_le_mul_left _ hpow
        _ < 2 ^ 32 := by omega
    change (if s.peerWindowsSize ≠ 0 then s.initialRetransmissionTimeout * 2
      else s.initialRetransmissionTimeout).toNat = _
    split_ifs
    · rw [UInt32.toNat_mul, h.timeout_eq, Nat.mul_assoc]
      exact Nat.mod_eq_of_lt hsmall
    · exact h.timeout_eq

theorem Timed.transmits (h : Timed retxTimeout s elapsed backoffs) (ht : Transmits s t new) :
    Timed retxTimeout t elapsed backoffs := by
  apply h.keep (h.stacked.transmits ht) _ ht.keepsTimer
  intro hwaits hnil
  rw [ht.entries_eq h.stacked.keysLe] at hnil
  exact hwaits (List.append_eq_nil_iff.mp hnil).1

/-- An acknowledgment that takes something out of the store starts the timer anew. -/
theorem Timed.restart (h : Timed retxTimeout s elapsed backoffs) (ackno : WrappingInt32)
    (windowSize : UInt16) :
    Timed retxTimeout ((s.popAcked ackno windowSize).restart (s.nBytes ackno) windowSize) 0 0 where
  stacked := { h.stacked.popAcked ackno windowSize with }
  time_eq := rfl
  idle := fun _ => rfl
  backoffs_eq := rfl
  backoffs_le := Nat.zero_le _
  default_eq := h.default_eq
  timeout_eq := by
    change s.defaultInitialRetransmissionTimeout.toNat = retxTimeout.toNat * 2 ^ 0
    rw [pow_zero, Nat.mul_one, h.default_eq, UInt16.toNat_toUInt32]

end

end

/-! ## One call and all runs -/

section

variable {retxTimeout : UInt16} {w : Watch}

/-- A call other than an acknowledgment or a tick. -/
theorem Timed.quiet (h : Timed retxTimeout w.session.sender w.elapsed w.backoffs) {a : Action}
    (ht : Timed retxTimeout (w.session.step a).sender w.elapsed w.backoffs)
    (htime : (w.session.step a).sender.time = w.session.sender.time)
    (hremoves : ¬ a.Removes w.session) (hsent : ¬ a.Retransmits w.session)
    (hwaited : a.waited w.session = 0) :
    Timed retxTimeout (w.step a).session.sender (w.step a).elapsed (w.step a).backoffs := by
  rw [Watch.backoffs_of_not hremoves hsent]
  by_cases hstarts : a.Starts w.session
  · rw [Watch.elapsed_of_resets (Or.inl hstarts)]
    exact { ht with time_eq := htime.trans (h.idle hstarts.1) }
  · rw [Watch.elapsed_of_not_resets (not_or.mpr ⟨hstarts, not_or.mpr ⟨hremoves, hsent⟩⟩),
      hwaited]
    exact ht

theorem Timed.ackReceived (h : Timed retxTimeout w.session.sender w.elapsed w.backoffs)
    (ackno : WrappingInt32) (windowSize : UInt16) :
    let w' := w.step (.ackReceived ackno windowSize)
    Timed retxTimeout w'.session.sender w'.elapsed w'.backoffs := by
  intro w'
  have hcases := ackReceived_cases w.session.sender ackno windowSize
  by_cases htakes : 0 ≤ w.session.sender.nBytes ackno ∧ w.session.sender.acknosPop ackno ≠ []
  · obtain ⟨hn, hpop⟩ := htakes
    have hremoves : (Action.ackReceived ackno windowSize).Removes w.session := by
      obtain ⟨e, he, hkey⟩ := exists_mem_of_acknosPop_ne_nil hpop
      refine ⟨e, he, fun hkept => ?_⟩
      exact (mem_ackReceived_iff windowSize h.stacked.keysLe hn he).mp hkept hkey
    obtain ⟨new, hnew⟩ := transmits_fillWindow
      ((w.session.sender.popAcked ackno windowSize).restart
        (w.session.sender.nBytes ackno) windowSize)
    rw [Watch.elapsed_of_resets (Or.inr (Or.inl hremoves)), Watch.backoffs_of_removes hremoves]
    rcases hcases with ⟨hneg, -⟩ | ⟨-, hnone, -⟩ | ⟨-, -, heq⟩
    · exact absurd hn (not_le.mpr hneg)
    · exact absurd hnone hpop
    · change Timed retxTimeout (w.session.sender.ackReceived ackno windowSize) 0 0
      rw [heq]
      exact (h.restart ackno windowSize).transmits hnew
  · -- the sender is the same but for the window of the peer
    obtain ⟨hcache, hkeeps⟩ : (w.session.sender.ackReceived ackno windowSize).segmentsCache =
        w.session.sender.segmentsCache ∧
        KeepsTimer w.session.sender (w.session.sender.ackReceived ackno windowSize) := by
      rcases hcases with ⟨-, heq⟩ | ⟨-, hnone, heq⟩ | ⟨hn, hpop, -⟩
      · rw [heq]
        exact ⟨rfl, rfl, rfl, rfl, rfl⟩
      · rw [heq]
        exact ⟨popAcked_segmentsCache_of_nil hnone, rfl, rfl, rfl, rfl⟩
      · exact absurd ⟨hn, hpop⟩ htakes
    refine h.quiet (a := .ackReceived ackno windowSize) ?_ hkeeps.time_eq ?_ id rfl
    · refine h.keep (h.stacked.ackReceived ackno windowSize) ?_ hkeeps
      intro hwaits hnil
      exact hwaits (by rwa [← hcache])
    · rintro ⟨e, he, hlost⟩
      exact hlost (by rwa [hcache])

theorem Timed.tick (h : Timed retxTimeout w.session.sender w.elapsed w.backoffs) (ms : ℕ) :
    let w' := w.step (.tick ms)
    Timed retxTimeout w'.session.sender w'.elapsed w'.backoffs := by
  intro w'
  have hsent := tick_retransmits_iff w.session ms
  rcases tick_cases w.session.sender ms with ⟨hwaits, heq⟩ | ⟨hwaits, hexpires, heq⟩ |
    ⟨hwaits, hexpires, oldest, rest, -, heq⟩
  · refine h.quiet (a := .tick ms) ?_ (congrArg time heq) id
      (fun hboth => hwaits (hsent.mp hboth).1) (if_neg hwaits)
    change Timed retxTimeout (w.session.sender.tick ms) _ _
    rw [heq]
    exact h
  · have hnot : ¬ (Action.tick ms).Retransmits w.session := fun hboth =>
      hexpires (hsent.mp hboth).2
    have hresets : ¬ ((Action.tick ms).Starts w.session ∨ (Action.tick ms).Removes w.session ∨
        (Action.tick ms).Retransmits w.session) := by
      rintro (hstarts | hremoves | hboth)
      · exact hstarts.1 hwaits
      · exact hremoves
      · exact hnot hboth
    have hwaited : (Action.tick ms).waited w.session = ms := if_pos hwaits
    rw [Watch.elapsed_of_not_resets hresets, Watch.backoffs_of_not id hnot, hwaited]
    change Timed retxTimeout (w.session.sender.tick ms) _ _
    rw [heq]
    exact h.count hwaits ms
  · have hboth := hsent.mpr ⟨hwaits, hexpires⟩
    have hle : w.backoffs ≤ TCPConfig.MAX_RETX_ATTEMPTS := by
      rw [← h.backoffs_eq]
      exact hexpires.2
    rw [Watch.elapsed_of_resets (Or.inr (Or.inr hboth)), Watch.backoffs_of_retransmits id hboth]
    change Timed retxTimeout (w.session.sender.tick ms) _ _
    rw [heq]
    exact h.resend hle oldest.2

theorem Timed.step (h : Timed retxTimeout w.session.sender w.elapsed w.backoffs) (a : Action) :
    Timed retxTimeout (w.step a).session.sender (w.step a).elapsed (w.step a).backoffs := by
  cases a with
  | write data =>
      refine h.quiet (a := .write data) ?_ rfl id id rfl
      exact h.keep { h.stacked with } id ⟨rfl, rfl, rfl, rfl⟩
  | endInput =>
      refine h.quiet (a := .endInput) ?_ rfl id id rfl
      exact h.keep { h.stacked with } id ⟨rfl, rfl, rfl, rfl⟩
  | fillWindow =>
      obtain ⟨new, hnew⟩ := transmits_fillWindow w.session.sender
      exact h.quiet (a := .fillWindow) (h.transmits hnew) hnew.time_eq id id rfl
  | ackReceived ackno windowSize => exact h.ackReceived ackno windowSize
  | tick ms => exact h.tick ms
  | sendEmptySegment =>
      refine h.quiet (a := .sendEmptySegment) ?_ rfl id id rfl
      exact h.keep { h.stacked with } id ⟨rfl, rfl, rfl, rfl⟩

theorem timed_run (capacity : ℕ) (retxTimeout : UInt16) (isn : WrappingInt32)
    (actions : List Action) :
    let w := Watch.run capacity retxTimeout isn actions
    Timed retxTimeout w.session.sender w.elapsed w.backoffs :=
  Transition.foldl_invariant
    (fun w : Watch => Timed retxTimeout w.session.sender w.elapsed w.backoffs)
    (fun _ a h => h.step a) (Watch.start capacity retxTimeout isn) actions
    (timed_new capacity retxTimeout isn)

/-- What the invariant says of the next tick. -/
theorem Timed.follows (h : Timed retxTimeout w.session.sender w.elapsed w.backoffs) :
    Follows retxTimeout w where
  time_eq := h.time_eq
  backoffs_eq := h.backoffs_eq
  timeout_eq := by
    rw [consecutiveRetransmissions, h.backoffs_eq]
    exact h.timeout_eq
  retransmits_iff := by
    intro ms
    rw [tick_retransmits_iff, Expires, sizeT_add_eq_mod, h.time_eq, Nat.mod_add_mod,
      h.backoffs_eq]
  resent := by
    intro ms hsent
    obtain ⟨hwaits, hexpires⟩ := (tick_retransmits_iff w.session ms).mp hsent
    rcases tick_cases w.session.sender ms with ⟨hnot, -⟩ | ⟨-, hnot, -⟩ |
      ⟨-, -, oldest, rest, hentries, heq⟩
    · exact absurd hwaits hnot
    · exact absurd hexpires hnot
    · exact ⟨oldest, h.stacked.isLowest hentries, congrArg segmentsOut heq⟩
  closed_window := by
    intro ms hclosed
    rcases tick_cases w.session.sender ms with ⟨-, heq⟩ | ⟨-, -, heq⟩ |
      ⟨-, -, oldest, rest, -, heq⟩
    · rw [heq]
      exact ⟨rfl, rfl⟩
    · rw [heq]
      exact ⟨rfl, rfl⟩
    · rw [heq, TCPSender.resend]
      simp only [consecutiveRetransmissions, hclosed, ne_eq, not_true_eq_false, if_false,
        and_self]

end

/-- In every run the sender keeps time, retransmits and backs off like the watch. -/
theorem run_follows (capacity : ℕ) (retxTimeout : UInt16) (isn : WrappingInt32)
    (actions : List Action) :
    (Watch.run capacity retxTimeout isn actions).session =
        Session.run capacity retxTimeout isn actions ∧
      Follows retxTimeout (Watch.run capacity retxTimeout isn actions) := by
  constructor
  · exact (List.foldl_hom Watch.session fun _ _ => rfl).symm
  · exact (timed_run capacity retxTimeout isn actions).follows

/-- The count of milliseconds is a `size_t`. After one millisecond, a tick of
`2 ^ 64 - 1` more takes it back to 0, and nothing is sent. -/
theorem not_retransmits_overflow :
    let w := Watch.run 4 1000 ⟨0⟩ [.fillWindow, .tick 1]
    (w.session.sender.Waits ∧
      w.session.sender.initialRetransmissionTimeout.toNat ≤ w.elapsed + (2 ^ 64 - 1) ∧
      w.backoffs ≤ TCPConfig.MAX_RETX_ATTEMPTS) ∧
    ¬ (Action.tick (2 ^ 64 - 1)).Retransmits w.session ∧
    (w.session.sender.tick (2 ^ 64 - 1)).time = 0 := by
  decide +kernel

end TCPSender

end NetworkLabs
