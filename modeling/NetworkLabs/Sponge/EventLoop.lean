import NetworkLabs.Sponge.FileDescriptor

/-!
# The event loop

`EventLoop` follows `eventloop.cc`. A rule watches a file descriptor in one direction.
One call of `wait_next_event` first goes through the rules and sets up a `pollfd` for each
of them; the rules whose descriptor is closed, or read to its end, are cancelled. Then it
polls, and goes through the rules once more with what `poll` has found out about each.

The rules are kept as a list of names, and `rule` says what the rule of a name is. Its
functions act on a world `W`, and a callback is also handed what the environment answers
to the calls it makes.
-/

namespace NetworkLabs

namespace EventLoop

inductive Direction where
  | pollIn
  | pollOut
  deriving DecidableEq

def POLLIN : UInt16 := 0x001

def POLLOUT : UInt16 := 0x004

def POLLERR : UInt16 := 0x008

def POLLHUP : UInt16 := 0x010

def POLLNVAL : UInt16 := 0x020

/-- The value of a direction. -/
def Direction.events : Direction → UInt16
  | .pollIn => POLLIN
  | .pollOut => POLLOUT

/-- The members of the class `Rule`. -/
structure Rule (W ι : Type) where
  fd : W → FileDescriptor
  direction : Direction
  callback : ι → W → Except Failure W
  interest : W → Bool
  cancel : W → Except Failure W

structure Pollfd where
  fd : ℕ
  events : UInt16
  revents : UInt16
  deriving DecidableEq

/-- What a call of `poll` answers: the events that have occurred, nothing in time, or an
error, which is `EINTR` or another one. -/
inductive PollAnswer where
  | ready (revents : List UInt16)
  | timeout
  | interrupted
  | failed
  deriving DecidableEq

inductive Result where
  | success
  | timeout
  | exit
  deriving DecidableEq

variable {κ W ι : Type}

def Rule.serviceCount (r : Rule W ι) (w : W) : UInt32 :=
  match r.direction with
  | .pollIn => (r.fd w).readCount
  | .pollOut => (r.fd w).writeCount

/-- The descriptor is read to its end, or closed. -/
def Rule.defunct (r : Rule W ι) (w : W) : Bool :=
  (decide (r.direction = .pollIn) && (r.fd w).eof) || (r.fd w).closed

/-- What is asked of `poll`: a rule that is not interested is a placeholder. -/
def Rule.pollfd (r : Rule W ι) (w : W) : Pollfd where
  fd := (r.fd w).fdNum
  events := if r.interest w then r.direction.events else 0
  revents := 0

/-- The loop that sets up the `pollfd`s: the rules that are left, their `pollfd`s, and
whether there is something to poll. -/
def setUp (rule : κ → Rule W ι) : List κ → W → Except Failure (List κ × List Pollfd × Bool × W)
  | [], w => .ok ([], [], false, w)
  | k :: rules, w =>
      if (rule k).defunct w then do
        let w ← (rule k).cancel w
        setUp rule rules w
      else do
        let (rest, pollfds, somethingToPoll, w') ← setUp rule rules w
        return (k :: rest, (rule k).pollfd w :: pollfds,
          (rule k).interest w || somethingToPoll, w')

namespace Pollfd

def pollError (p : Pollfd) : Bool := p.revents &&& (POLLERR ||| POLLNVAL) != 0

def pollReady (p : Pollfd) : Bool := p.revents &&& p.events != 0

def pollHup (p : Pollfd) : Bool := p.revents &&& POLLHUP != 0

/-- The status was asked for, and there is nothing but a hangup. -/
def hungUp (p : Pollfd) : Bool := p.pollHup && p.events != 0 && !p.pollReady

end Pollfd

/-- The callback of a rule that is ready, and the check for a busy wait. -/
def Rule.call (r : Rule W ι) (i : ι) (w : W) : Except Failure W := do
  let w' ← r.callback i w
  if r.serviceCount w = r.serviceCount w' ∧ r.interest w' = true then
    .error (.runtimeError
      "EventLoop: busy wait detected: callback did not read/write fd and is still interested")
  else return w'

/-- The callback is called only if `poll` found the event that was asked for. -/
def Rule.respond (r : Rule W ι) (i : ι) (p : Pollfd) (w : W) : Except Failure W :=
  if p.pollReady then r.call i w else .ok w

/-- The loop through the results of `poll`. -/
def serve (rule : κ → Rule W ι) (i : ι) : List κ → List Pollfd → W → Except Failure (List κ × W)
  | k :: rules, p :: pollfds, w =>
      if p.pollError then .error (.runtimeError "EventLoop: error on polled file descriptor")
      else if p.hungUp then do
        let w ← (rule k).cancel w
        serve rule i rules pollfds w
      else do
        let w ← (rule k).respond i p w
        let (rest, w) ← serve rule i rules pollfds w
        return (k :: rest, w)
  | rules, _, w => .ok (rules, w)

/-- The `pollfd`s with what `poll` has found out. -/
def answered : List Pollfd → List UInt16 → List Pollfd
  | p :: pollfds, revents :: rest => { p with revents := revents } :: answered pollfds rest
  | pollfds, _ => pollfds

/-- An error of `poll` other than `EINTR` is caught and forgotten. -/
def waitNextEvent (rule : κ → Rule W ι) (rules : List κ) (w : W) (poll : PollAnswer) (i : ι) :
    Except Failure (Result × List κ × W) := do
  let (rules, pollfds, somethingToPoll, w) ← setUp rule rules w
  if !somethingToPoll then return (.exit, rules, w)
  else
    match poll with
    | .timeout => return (.timeout, rules, w)
    | .interrupted => return (.exit, rules, w)
    | .failed => do
        let (rules, w) ← serve rule i rules pollfds w
        return (.success, rules, w)
    | .ready revents => do
        let (rules, w) ← serve rule i rules (answered pollfds revents) w
        return (.success, rules, w)

/-! ## The rule for invariants of the loop -/

section

variable {rule : κ → Rule W ι} {i : ι}

@[simp] theorem Direction.events_ne_zero (d : Direction) : (d.events != 0) = true := by
  cases d
  · rfl
  · rfl

@[simp] theorem Rule.events_pollfd (r : Rule W ι) (w : W) :
    ((r.pollfd w).events != 0) = r.interest w := by
  rw [Rule.pollfd]
  cases r.interest w
  · rfl
  · simp

theorem Pollfd.events_of_pollReady {p : Pollfd} (h : p.pollReady = true) :
    (p.events != 0) = true := by
  by_contra hzero
  rw [Bool.not_eq_true, bne_eq_false_iff_eq] at hzero
  rw [Pollfd.pollReady, hzero, UInt16.and_zero] at h
  exact absurd h (by simp)

theorem Pollfd.events_of_hungUp {p : Pollfd} (h : p.hungUp = true) :
    (p.events != 0) = true := by
  rw [Pollfd.hungUp, Bool.and_eq_true, Bool.and_eq_true] at h
  exact h.1.2

/-- What a pass of the loop is judged by. `inv` holds between the calls of the rules. When a
rule has been asked for its interest, `armed` says what it answered, and other rules do not
change that; a rule that was not interested has to fear those behind it in the list only.
`gone` says what is known behind the cancellation of a rule, and `hang` which rules a hangup
may cancel. -/
structure Keeps (rule : κ → Rule W ι) (i : ι) (before : κ → κ → Prop) (hang : κ → Prop)
    (fail : Failure → Prop) (inv : W → Prop) (armed : κ → Bool → W → Prop)
    (gone : κ → W → Prop) : Prop where
  interest : ∀ k w, inv w → (rule k).defunct w = false → armed k ((rule k).interest w) w
  call : ∀ k w, inv w → armed k true w → Halting.Ends fail
    (fun w' => inv w' ∧ (∀ j, j ≠ k → armed j true w → armed j true w') ∧
      ∀ j, gone j w → gone j w') ((rule k).call i w)
  cancel : ∀ k w, inv w → (rule k).defunct w = true ∨ (armed k true w ∧ hang k) →
    Halting.Ends fail (fun w' => inv w' ∧ (∀ j, j ≠ k → armed j true w → armed j true w') ∧
      (∀ j b, before j k → armed j b w → armed j b w') ∧ gone k w' ∧
      ∀ j, gone j w → gone j w') ((rule k).cancel w)

/-- The rules that are no longer in the list are gone. -/
structure Passes (inv : W → Prop) (gone : κ → W → Prop) (rules rest : List κ) (w w' : W) :
    Prop where
  inv : inv w'
  sublist : rest.Sublist rules
  still : ∀ j, gone j w → gone j w'
  cancelled : ∀ k ∈ rules, k ∉ rest → gone k w'

variable {before : κ → κ → Prop} {hang : κ → Prop} {fail : Failure → Prop} {inv : W → Prop}
  {armed : κ → Bool → W → Prop} {gone : κ → W → Prop}

namespace Passes

variable {rules rest : List κ} {w w' w'' : W} {k : κ}

theorem refl (hw : inv w) : Passes inv gone rules rules w w where
  inv := hw
  sublist := List.Sublist.refl _
  still := fun _ h => h
  cancelled := fun _ hk hrest => absurd hk hrest

/-- The first rule was cancelled. -/
theorem cancel (h : Passes inv gone rules rest w' w'') (hstill : ∀ j, gone j w → gone j w')
    (hk : gone k w') : Passes inv gone (k :: rules) rest w w'' where
  inv := h.inv
  sublist := h.sublist.cons k
  still := fun j hj => h.still j (hstill j hj)
  cancelled := by
    intro j hj hrest
    rcases List.mem_cons.mp hj with rfl | hj
    · exact h.still j hk
    · exact h.cancelled j hj hrest

/-- The first rule is kept. -/
theorem keep (h : Passes inv gone rules rest w' w'') (hstill : ∀ j, gone j w → gone j w') :
    Passes inv gone (k :: rules) (k :: rest) w w'' where
  inv := h.inv
  sublist := h.sublist.cons_cons k
  still := fun j hj => h.still j (hstill j hj)
  cancelled := by
    intro j hj hrest
    rw [List.mem_cons, not_or] at hrest
    exact h.cancelled j ((List.mem_cons.mp hj).resolve_left hrest.1) hrest.2

theorem trans {last : List κ} (h : Passes inv gone rules rest w w')
    (h' : Passes inv gone rest last w' w'') : Passes inv gone rules last w w'' where
  inv := h'.inv
  sublist := h'.sublist.trans h.sublist
  still := fun j hj => h'.still j (h.still j hj)
  cancelled := by
    intro j hj hlast
    by_cases hrest : j ∈ rest
    · exact h'.cancelled j hrest hlast
    · exact h'.still j (h.cancelled j hj hrest)

end Passes

theorem add_one_ne (n : UInt32) : n + 1 ≠ n := by
  intro h
  exact absurd (add_eq_left.mp h) (by decide)

theorem add_one_add_one_ne (n : UInt32) : n + 1 + 1 ≠ n := by
  rw [add_assoc]
  intro h
  exact absurd (add_eq_left.mp h) (by decide)

/-- A callback that is seen to do something is never found to wait busily. -/
theorem Rule.ends_call {r : Rule W ι} {w : W}
    (h : Halting.Ends fail (fun w' => inv w' ∧
      (r.serviceCount w' ≠ r.serviceCount w ∨ r.interest w' = false)) (r.callback i w)) :
    Halting.Ends fail inv (r.call i w) := by
  apply h.bind
  rintro w' ⟨hw', hdone⟩
  rw [if_neg]
  · exact hw'
  · rintro ⟨hcount, hinterest⟩
    rcases hdone with hdone | hdone
    · exact hdone hcount.symm
    · exact absurd (hdone.symm.trans hinterest) (by decide)

theorem Keeps.setUp (h : Keeps rule i before hang fail inv armed gone) (rules : List κ) (w : W)
    (hbefore : rules.Pairwise before) (hw : inv w) :
    Halting.Ends fail (fun r => Passes inv gone rules r.1 w r.2.2.2 ∧
        List.Forall₂ (fun k p => armed k (p.events != 0) r.2.2.2) r.1 r.2.1 ∧
        r.2.2.1 = r.2.1.any (fun p => p.events != 0) ∧
        ∀ j b, (∀ k ∈ rules, before j k) → armed j b w → armed j b r.2.2.2)
      (setUp rule rules w) := by
  induction rules generalizing w with
  | nil => exact ⟨Passes.refl hw, List.Forall₂.nil, rfl, fun _ _ _ ha => ha⟩
  | cons k rules ih =>
      rw [List.pairwise_cons] at hbefore
      rw [EventLoop.setUp]
      split_ifs with hdefunct
      · apply (h.cancel k w hw (Or.inl hdefunct)).bind
        rintro w' ⟨hw', -, hearlier, hgone, hstill⟩
        apply (ih w' hbefore.2 hw').mono (fun _ he => he)
        rintro r ⟨hpasses, harmed, hany, hkeep⟩
        refine ⟨hpasses.cancel hstill hgone, harmed, hany, fun j b hj ha => ?_⟩
        rw [List.forall_mem_cons] at hj
        exact hkeep j b hj.2 (hearlier j b hj.1 ha)
      · rw [Bool.not_eq_true] at hdefunct
        have hk := h.interest k w hw hdefunct
        apply (ih w hbefore.2 hw).bind
        rintro r ⟨hpasses, harmed, hany, hkeep⟩
        refine ⟨hpasses.keep fun _ hj => hj, List.Forall₂.cons ?_ harmed, ?_, fun j b hj ha => ?_⟩
        · rw [Rule.events_pollfd]
          exact hkeep k _ hbefore.1 hk
        · rw [List.any_cons, Rule.events_pollfd, ← hany]
        · exact hkeep j b (List.forall_mem_cons.mp hj).2 ha

/-- What was armed for a rule is still armed when another rule has been called. -/
theorem forall₂_of_others {rules : List κ} {pollfds : List Pollfd} {k : κ} {w w' : W}
    (hk : k ∉ rules) (hkeep : ∀ j, j ≠ k → armed j true w → armed j true w')
    (hall : List.Forall₂ (fun k p => ((p.events != 0) = true → armed k true w) ∧
      (p.hungUp = true → hang k)) rules pollfds) :
    List.Forall₂ (fun k p => ((p.events != 0) = true → armed k true w') ∧
      (p.hungUp = true → hang k)) rules pollfds := by
  have hne : ∀ j ∈ rules, j ≠ k := by
    rintro j hj rfl
    exact hk hj
  apply ((List.forall₂_and_left _ _).mpr ⟨hne, hall⟩).imp
  rintro j p ⟨hj, harmed, hhang⟩
  exact ⟨fun hevents => hkeep j hj (harmed hevents), hhang⟩

theorem Keeps.serve (h : Keeps rule i before hang fail inv armed gone)
    (hpoll : fail (.runtimeError "EventLoop: error on polled file descriptor"))
    {rules : List κ} {pollfds : List Pollfd} (w : W)
    (hall : List.Forall₂ (fun k p => ((p.events != 0) = true → armed k true w) ∧
      (p.hungUp = true → hang k)) rules pollfds)
    (hnodup : rules.Nodup) (hw : inv w) :
    Halting.Ends fail (fun r => Passes inv gone rules r.1 w r.2)
      (serve rule i rules pollfds w) := by
  induction rules generalizing pollfds w with
  | nil => exact Passes.refl hw
  | cons k rules ih =>
      cases hall with
      | @cons _ p _ pollfds hk hrest =>
          rw [List.nodup_cons] at hnodup
          rw [EventLoop.serve]
          split_ifs with herror hhung
          · exact hpoll
          · have hevents := Pollfd.events_of_hungUp hhung
            apply (h.cancel k w hw (Or.inr ⟨hk.1 hevents, hk.2 hhung⟩)).bind
            rintro w' ⟨hw', hother, -, hgone, hstill⟩
            apply (ih w' (forall₂_of_others hnodup.1 hother hrest)
              hnodup.2 hw').mono (fun _ he => he)
            exact fun r hr => hr.cancel hstill hgone
          · have hcall : Halting.Ends fail (fun w' => inv w' ∧
                (∀ j, j ≠ k → armed j true w → armed j true w') ∧ ∀ j, gone j w → gone j w')
                ((rule k).respond i p w) := by
              rw [Rule.respond]
              split_ifs with hready
              · exact h.call k w hw (hk.1 (Pollfd.events_of_pollReady hready))
              · exact ⟨hw, fun _ _ ha => ha, fun _ hj => hj⟩
            apply hcall.bind
            rintro w' ⟨hw', hother, hstill⟩
            apply (ih w' (forall₂_of_others hnodup.1 hother hrest) hnodup.2 hw').bind
            exact fun r hr => hr.keep hstill

/-- The hangups among the answers of `poll` are those that `hang` allows. -/
def Hangs (hang : κ → Prop) (rule : κ → Rule W ι) (rules : List κ) (w : W)
    (poll : PollAnswer) : Prop :=
  ∀ revents, poll = .ready revents → ∀ r, setUp rule rules w = .ok r →
    ∀ k p, (k, p) ∈ r.1.zip (answered r.2.1 revents) → p.hungUp = true → hang k

instance (hang : κ → Prop) [DecidablePred hang] (rule : κ → Rule W ι)
    (rules : List κ) (w : W) (poll : PollAnswer) : Decidable (Hangs hang rule rules w poll) :=
  match poll with
  | .ready revents =>
      match h : setUp rule rules w with
      | .ok r => decidable_of_iff
          (∀ x ∈ r.1.zip (answered r.2.1 revents), x.2.hungUp = true → hang x.1) <| by
            constructor
            · rintro hall _ ⟨rfl⟩ r' hr' k p hmem
              rw [h] at hr'
              cases hr'
              exact hall (k, p) hmem
            · exact fun hall x hx => hall revents rfl r h x.1 x.2 hx
      | .error e => isTrue <| by
          rintro _ ⟨rfl⟩ r hr
          rw [h] at hr
          exact nomatch hr
  | .timeout => isTrue nofun
  | .interrupted => isTrue nofun
  | .failed => isTrue nofun

theorem forall₂_answered {R : κ → Bool → Prop} {rules : List κ} {pollfds : List Pollfd}
    (h : List.Forall₂ (fun k p => R k (p.events != 0)) rules pollfds) (revents : List UInt16) :
    List.Forall₂ (fun k p => R k (p.events != 0)) rules (answered pollfds revents) := by
  induction h generalizing revents with
  | nil =>
      cases revents with
      | nil => exact List.Forall₂.nil
      | cons r revents => exact List.Forall₂.nil
  | @cons k p rules pollfds hk hrest ih =>
      cases revents with
      | nil => exact List.Forall₂.cons hk hrest
      | cons r revents => exact List.Forall₂.cons hk (ih revents)

/-- Before `poll` is called nothing has occurred. -/
theorem revents_setUp {rules rest : List κ} {w w' : W} {pollfds : List Pollfd} {something : Bool}
    (h : setUp rule rules w = .ok (rest, pollfds, something, w')) :
    ∀ p ∈ pollfds, p.revents = 0 := by
  induction rules generalizing rest pollfds something w w' with
  | nil =>
      cases h
      exact List.forall_mem_nil _
  | cons k rules ih =>
      rw [setUp] at h
      split_ifs at h with hdefunct
      · rw [Halting.bind_eq_ok_iff] at h
        obtain ⟨w'', -, h⟩ := h
        exact ih h
      · rw [Halting.bind_eq_ok_iff] at h
        obtain ⟨⟨rest', pollfds', something', w''⟩, hrest, h⟩ := h
        cases h
        exact List.forall_mem_cons.mpr ⟨rfl, ih hrest⟩

theorem Pollfd.hungUp_of_revents {p : Pollfd} (h : p.revents = 0) : p.hungUp = false := by
  rw [Pollfd.hungUp, Pollfd.pollHup, h, UInt16.zero_and]
  rfl

/-- The rule for one call: the invariant is kept, the rules that were cancelled are gone, and
the loop tells to exit only if it was interrupted or no rule was interested. -/
theorem Keeps.waitNextEvent (h : Keeps rule i before hang fail inv armed gone)
    (hpoll : fail (.runtimeError "EventLoop: error on polled file descriptor"))
    {rules : List κ} {w : W} {poll : PollAnswer} (hhang : Hangs hang rule rules w poll)
    (hnodup : rules.Nodup) (hbefore : rules.Pairwise before) (hw : inv w) :
    Halting.Ends fail (fun r => Passes inv gone rules r.2.1 w r.2.2 ∧
        (r.1 = .exit → poll = .interrupted ∨ ∀ k ∈ r.2.1, armed k false r.2.2))
      (waitNextEvent rule rules w poll i) := by
  have hsetUp := h.setUp rules w hbefore hw
  rw [EventLoop.waitNextEvent]
  cases hresult : EventLoop.setUp rule rules w with
  | error e =>
      rw [hresult] at hsetUp
      exact hsetUp
  | ok r =>
      obtain ⟨rest, pollfds, something, w'⟩ := r
      rw [hresult] at hsetUp
      obtain ⟨hpasses, harmed, hany, -⟩ := hsetUp
      change Halting.Ends fail _ (if (!something) = true then _ else _)
      split_ifs with hnothing
      · refine ⟨hpasses, fun _ => Or.inr ?_⟩
        rw [Bool.not_eq_true'] at hnothing
        have hnone : ∀ p ∈ pollfds, (p.events != 0) = false := by
          rw [hnothing] at hany
          simpa using hany.symm
        intro k hk
        obtain ⟨n, hn, rfl⟩ := List.getElem_of_mem hk
        have hlen : n < pollfds.length := harmed.length_eq ▸ hn
        have hn' := harmed.get hn hlen
        rw [List.get_eq_getElem, List.get_eq_getElem, hnone _ (List.getElem_mem hlen)] at hn'
        exact hn'
      · have hserve : ∀ answers, List.Forall₂ (fun k p => armed k (p.events != 0) w') rest answers →
            (∀ k p, (k, p) ∈ rest.zip answers → p.hungUp = true → hang k) →
            Halting.Ends fail (fun r => Passes inv gone rules r.2.1 w r.2.2 ∧
              (r.1 = .exit → poll = .interrupted ∨ ∀ k ∈ r.2.1, armed k false r.2.2)) (do
                let (rules, w) ← EventLoop.serve rule i rest answers w'
                return (Result.success, rules, w)) := by
          intro answers hanswers hup
          have hall : List.Forall₂ (fun k p => ((p.events != 0) = true → armed k true w') ∧
              (p.hungUp = true → hang k)) rest answers := by
            rw [List.forall₂_iff_zip] at hanswers ⊢
            refine ⟨hanswers.1, fun hmem => ⟨fun hevents => ?_, hup _ _ hmem⟩⟩
            have hk := hanswers.2 hmem
            rwa [hevents] at hk
          apply (h.serve hpoll w' hall (hpasses.sublist.nodup hnodup) hpasses.inv).bind
          exact fun r hr => ⟨hpasses.trans hr, nofun⟩
        cases poll with
        | timeout => exact ⟨hpasses, nofun⟩
        | interrupted => exact ⟨hpasses, fun _ => Or.inl rfl⟩
        | failed =>
            apply hserve pollfds harmed
            intro k p hmem hup
            rw [Pollfd.hungUp_of_revents
              (revents_setUp hresult p (List.of_mem_zip hmem).2)] at hup
            exact absurd hup (by simp)
        | ready revents =>
            apply hserve _ (forall₂_answered (R := fun k b => armed k b w') harmed revents)
            exact hhang revents rfl _ hresult

end

end EventLoop

end NetworkLabs
