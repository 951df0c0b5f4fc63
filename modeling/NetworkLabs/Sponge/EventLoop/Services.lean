import NetworkLabs.Sponge.EventLoop

/-!
# What the loop does to each rule

A rule that writes down when it is called and when it is cancelled runs as the rule
without the log. From the log of a run one can read that a rule is called any number of
times, that it is cancelled once, when it leaves the loop, and that nothing is done to it
afterwards.
-/

namespace NetworkLabs

namespace EventLoop

variable {κ W W' ι : Type}

section Erasure

/-- The rule acts on a world that carries more than the other rule looks at. -/
structure Rule.Over (f : W' → W) (r' : Rule W' ι) (r : Rule W ι) : Prop where
  fd_eq : ∀ w, r'.fd w = r.fd (f w)
  direction_eq : r'.direction = r.direction
  interest_eq : ∀ w, r'.interest w = r.interest (f w)
  callback_eq : ∀ i w, (r'.callback i w).map f = r.callback i (f w)
  cancel_eq : ∀ w, (r'.cancel w).map f = r.cancel (f w)

variable {f : W' → W} {r' : Rule W' ι} {r : Rule W ι}

theorem Rule.Over.defunct_eq (h : r'.Over f r) (w : W') : r'.defunct w = r.defunct (f w) := by
  rw [Rule.defunct, Rule.defunct, h.direction_eq, h.fd_eq]

theorem Rule.Over.pollfd_eq (h : r'.Over f r) (w : W') : r'.pollfd w = r.pollfd (f w) := by
  rw [Rule.pollfd, Rule.pollfd, h.fd_eq, h.interest_eq, h.direction_eq]

theorem Rule.Over.serviceCount_eq (h : r'.Over f r) (w : W') :
    r'.serviceCount w = r.serviceCount (f w) := by
  rw [Rule.serviceCount, Rule.serviceCount, h.direction_eq, h.fd_eq]

theorem Rule.Over.call_eq (h : r'.Over f r) (i : ι) (w : W') :
    (r'.call i w).map f = r.call i (f w) := by
  rw [Rule.call, Rule.call, ← h.callback_eq]
  cases r'.callback i w with
  | error e => rfl
  | ok w' =>
      simp only [Except.map, bind, Except.bind, h.serviceCount_eq, h.interest_eq]
      split_ifs
      · rfl
      · rfl

theorem Rule.Over.respond_eq (h : r'.Over f r) (i : ι) (p : Pollfd) (w : W') :
    (r'.respond i p w).map f = r.respond i p (f w) := by
  rw [Rule.respond, Rule.respond]
  split_ifs
  · exact h.call_eq i w
  · rfl

variable {rule' : κ → Rule W' ι} {rule : κ → Rule W ι}

theorem setUp_over (h : ∀ k, (rule' k).Over f (rule k)) (rules : List κ) (w : W') :
    (setUp rule' rules w).map (fun r => (r.1, r.2.1, r.2.2.1, f r.2.2.2)) =
      setUp rule rules (f w) := by
  induction rules generalizing w with
  | nil => rfl
  | cons k rules ih =>
      rw [setUp, setUp, (h k).defunct_eq, (h k).pollfd_eq, (h k).interest_eq]
      split_ifs
      · rw [← (h k).cancel_eq]
        cases (rule' k).cancel w with
        | error e => rfl
        | ok w' => exact ih w'
      · rw [← ih]
        cases setUp rule' rules w with
        | error e => rfl
        | ok r => rfl

theorem serve_over (h : ∀ k, (rule' k).Over f (rule k)) (i : ι) (rules : List κ)
    (pollfds : List Pollfd) (w : W') :
    (serve rule' i rules pollfds w).map (fun r => (r.1, f r.2)) =
      serve rule i rules pollfds (f w) := by
  induction rules generalizing pollfds w with
  | nil => rfl
  | cons k rules ih =>
      cases pollfds with
      | nil => rfl
      | cons p pollfds =>
          rw [serve, serve]
          split_ifs
          · rfl
          · rw [← (h k).cancel_eq]
            cases (rule' k).cancel w with
            | error e => rfl
            | ok w' => exact ih pollfds w'
          · rw [← (h k).respond_eq]
            cases (rule' k).respond i p w with
            | error e => rfl
            | ok w' =>
                simp only [Except.map, bind, Except.bind]
                rw [← ih]
                cases serve rule' i rules pollfds w' with
                | error e => rfl
                | ok r => rfl

theorem waitNextEvent_over (h : ∀ k, (rule' k).Over f (rule k)) (rules : List κ) (w : W')
    (poll : PollAnswer) (i : ι) :
    (waitNextEvent rule' rules w poll i).map (fun r => (r.1, r.2.1, f r.2.2)) =
      waitNextEvent rule rules (f w) poll i := by
  rw [waitNextEvent, waitNextEvent, ← setUp_over h]
  cases setUp rule' rules w with
  | error e => rfl
  | ok r =>
      obtain ⟨rest, pollfds, something, w'⟩ := r
      simp only [Except.map, bind, Except.bind]
      cases something
      · rfl
      · cases poll with
        | timeout => rfl
        | interrupted => rfl
        | failed =>
            simp only [Bool.not_true, Bool.false_eq_true, if_false]
            rw [← serve_over h]
            cases serve rule' i rest pollfds w' with
            | error e => rfl
            | ok r => rfl
        | ready revents =>
            simp only [Bool.not_true, Bool.false_eq_true, if_false]
            rw [← serve_over h]
            cases serve rule' i rest (answered pollfds revents) w' with
            | error e => rfl
            | ok r => rfl

end Erasure

/-! ## Runs of the loop -/

/-- Before each call something may have happened to the world outside of the loop. -/
structure Turn (W ι : Type) where
  outside : W → W
  poll : PollAnswer
  answers : ι

/-- One call of `wait_next_event`. -/
def turn (rule : κ → Rule W ι) (s : List κ × W) (t : Turn W ι) : Except Failure (List κ × W) := do
  let (_, rules, w) ← waitNextEvent rule s.1 (t.outside s.2) t.poll t.answers
  return (rules, w)

def turns (rule : κ → Rule W ι) (s : List κ × W) (l : List (Turn W ι)) :
    Except Failure (List κ × W) :=
  l.foldlM (turn rule) s

theorem turn_over {f : W' → W} {rule' : κ → Rule W' ι} {rule : κ → Rule W ι}
    (h : ∀ k, (rule' k).Over f (rule k)) (s : List κ × W') {t' : Turn W' ι} {t : Turn W ι}
    (houtside : ∀ w, f (t'.outside w) = t.outside (f w)) (hpoll : t'.poll = t.poll)
    (hanswers : t'.answers = t.answers) :
    (turn rule' s t').map (Prod.map id f) = turn rule (s.1, f s.2) t := by
  rw [turn, turn, hpoll, hanswers, ← houtside, ← waitNextEvent_over h]
  cases waitNextEvent rule' s.1 (t'.outside s.2) t.poll t.answers with
  | error e => rfl
  | ok r => rfl

/-! ## The log -/

inductive Service where
  | called
  | cancelled
  deriving DecidableEq

abbrev Log (κ : Type) := List (κ × Service)

/-- The rule with a log in front of which nothing else looks. -/
def Rule.logged (r : Rule W ι) (k : κ) : Rule (W × Log κ) ι where
  fd w := r.fd w.1
  direction := r.direction
  callback i w := (r.callback i w.1).map fun w' => (w', w.2 ++ [(k, .called)])
  interest w := r.interest w.1
  cancel w := (r.cancel w.1).map fun w' => (w', w.2 ++ [(k, .cancelled)])

def Turn.logged (t : Turn W ι) : Turn (W × Log κ) ι where
  outside w := (t.outside w.1, w.2)
  poll := t.poll
  answers := t.answers

theorem over_logged (r : Rule W ι) (k : κ) : (r.logged k).Over Prod.fst r where
  fd_eq _ := rfl
  direction_eq := rfl
  interest_eq _ := rfl
  callback_eq i w := by
    simp only [Rule.logged]
    cases r.callback i w.1 with
    | error e => rfl
    | ok w' => rfl
  cancel_eq w := by
    simp only [Rule.logged]
    cases r.cancel w.1 with
    | error e => rfl
    | ok w' => rfl

theorem log_of_cancel {r : Rule W ι} {k : κ} {w w' : W × Log κ}
    (h : (r.logged k).cancel w = .ok w') : w'.2 = w.2 ++ [(k, .cancelled)] := by
  obtain ⟨v, -, rfl⟩ := (Halting.map_eq_ok_iff _ _ _).mp h
  rfl

theorem log_of_callback {r : Rule W ι} {k : κ} {i : ι} {w w' : W × Log κ}
    (h : (r.logged k).callback i w = .ok w') : w'.2 = w.2 ++ [(k, .called)] := by
  obtain ⟨v, -, rfl⟩ := (Halting.map_eq_ok_iff _ _ _).mp h
  rfl

/-- What the loop does with a rule whose `pollfd` has come back. -/
def Pollfd.service (p : Pollfd) : Option Service :=
  if p.hungUp then some .cancelled else if p.pollReady then some .called else none

theorem log_of_respond {r : Rule W ι} {k : κ} {i : ι} {p : Pollfd} {w w' : W × Log κ}
    (hhung : p.hungUp = false) (h : (r.logged k).respond i p w = .ok w') :
    w'.2 = w.2 ++ (p.service.map (k, ·)).toList := by
  rw [Pollfd.service, hhung]
  rw [Rule.respond] at h
  split_ifs at h with hready
  · rw [Rule.call, Halting.bind_eq_ok_iff] at h
    obtain ⟨v, hv, h⟩ := h
    split_ifs at h
    cases h
    rw [log_of_callback hv]
    simp [hready]
  · cases h
    simp [hready]

variable {rule : κ → Rule W ι}

/-- The rules that the first pass cancels are those that it does not keep. -/
theorem log_of_setUp {rules rest : List κ} {w w' : W × Log κ} {pollfds : List Pollfd}
    {something : Bool}
    (h : setUp (fun k => (rule k).logged k) rules w = .ok (rest, pollfds, something, w')) :
    rest.length = pollfds.length ∧ rest.Sublist rules ∧ ∃ gone : List κ,
      rules.Perm (gone ++ rest) ∧ w'.2 = w.2 ++ gone.map (·, .cancelled) := by
  induction rules generalizing rest pollfds something w w' with
  | nil =>
      cases h
      exact ⟨rfl, List.Sublist.refl _, [], List.Perm.refl _, by simp⟩
  | cons k rules ih =>
      rw [setUp] at h
      split_ifs at h with hdefunct
      · rw [Halting.bind_eq_ok_iff] at h
        obtain ⟨v, hv, h⟩ := h
        obtain ⟨hlen, hsub, gone, hperm, hlog⟩ := ih h
        refine ⟨hlen, hsub.cons k, k :: gone, hperm.cons k, ?_⟩
        rw [hlog, log_of_cancel hv, List.append_assoc]
        rfl
      · rw [Halting.bind_eq_ok_iff] at h
        obtain ⟨⟨rest', pollfds', something', v⟩, hrest, h⟩ := h
        cases h
        obtain ⟨hlen, hsub, gone, hperm, hlog⟩ := ih hrest
        refine ⟨congrArg (· + 1) hlen, hsub.cons_cons k, gone, ?_, hlog⟩
        exact (hperm.cons k).trans List.perm_middle.symm

/-- In the second pass each rule is served according to its own `pollfd`. -/
theorem log_of_serve {rules rest : List κ} {pollfds : List Pollfd} {i : ι} {w w' : W × Log κ}
    (hlen : rules.length = pollfds.length)
    (h : serve (fun k => (rule k).logged k) i rules pollfds w = .ok (rest, w')) :
    rest = ((rules.zip pollfds).filter fun e => !e.2.hungUp).map Prod.fst ∧
      w'.2 = w.2 ++ (rules.zip pollfds).flatMap fun e => (e.2.service.map (e.1, ·)).toList := by
  induction rules generalizing pollfds rest w w' with
  | nil =>
      cases h
      simp
  | cons k rules ih =>
      cases pollfds with
      | nil => exact absurd hlen (Nat.succ_ne_zero _)
      | cons p pollfds =>
          rw [serve] at h
          split_ifs at h with herror hhung
          · rw [Halting.bind_eq_ok_iff] at h
            obtain ⟨v, hv, h⟩ := h
            obtain ⟨hrest, hlog⟩ := ih (Nat.succ.inj hlen) h
            rw [log_of_cancel hv] at hlog
            refine ⟨?_, ?_⟩
            · rw [hrest]
              simp [hhung]
            · rw [hlog]
              simp [Pollfd.service, hhung]
          · rw [Bool.not_eq_true] at hhung
            rw [Halting.bind_eq_ok_iff] at h
            obtain ⟨v, hv, h⟩ := h
            rw [Halting.bind_eq_ok_iff] at h
            obtain ⟨⟨rest', v'⟩, hrest', h⟩ := h
            cases h
            obtain ⟨hrest, hlog⟩ := ih (Nat.succ.inj hlen) hrest'
            rw [log_of_respond hhung hv] at hlog
            refine ⟨?_, ?_⟩
            · rw [hrest]
              simp [hhung]
            · rw [hlog]
              simp

/-! ## The history of a rule -/

section History

variable [DecidableEq κ]

/-- What has been done to the rule of this name. -/
def history (k : κ) (log : Log κ) : List Service :=
  (log.filter fun e => e.1 = k).map Prod.snd

@[simp] theorem history_append (k : κ) (l m : Log κ) :
    history k (l ++ m) = history k l ++ history k m := by
  rw [history, List.filter_append, List.map_append]
  rfl

theorem history_eq_nil {k : κ} {log : Log κ} (h : k ∉ log.map Prod.fst) : history k log = [] := by
  rw [history, List.map_eq_nil_iff, List.filter_eq_nil_iff]
  intro e he hk
  simp only [decide_eq_true_eq] at hk
  exact h (hk ▸ List.mem_map_of_mem he)

theorem history_gone {gone : List κ} (hnodup : gone.Nodup) {k : κ} (hk : k ∈ gone) :
    history k (gone.map (·, Service.cancelled)) = [.cancelled] := by
  induction gone with
  | nil => exact absurd hk List.not_mem_nil
  | cons j gone ih =>
      rw [List.nodup_cons] at hnodup
      rw [List.map_cons, ← List.singleton_append, history_append]
      rcases List.mem_cons.mp hk with rfl | hk
      · have hgone : history k (gone.map (·, Service.cancelled)) = [] :=
          history_eq_nil (by simpa using hnodup.1)
        rw [hgone, List.append_nil]
        simp [history]
      · have hne : j ≠ k := fun h => hnodup.1 (h ▸ hk)
        rw [ih hnodup.2 hk]
        simp [history, hne]

omit [DecidableEq κ] in
theorem not_mem_served {rules : List κ} {pollfds : List Pollfd} {k : κ} (hk : k ∉ rules) :
    k ∉ ((rules.zip pollfds).flatMap fun e => (e.2.service.map (e.1, ·)).toList).map Prod.fst := by
  intro hmem
  obtain ⟨⟨j, s⟩, he, rfl⟩ := List.mem_map.mp hmem
  obtain ⟨⟨j', q⟩, hzip, hs⟩ := List.mem_flatMap.mp he
  have hj : j' = j := by
    cases hq : q.service with
    | none => simp [hq] at hs
    | some s' =>
        simp [hq] at hs
        exact hs.1.symm
  exact hk (hj ▸ (List.of_mem_zip hzip).1)

/-- The entries of the second pass. -/
theorem history_served {rules : List κ} {pollfds : List Pollfd} (hnodup : rules.Nodup)
    (hlen : rules.length = pollfds.length) {k : κ} {p : Pollfd} (hk : (k, p) ∈ rules.zip pollfds) :
    history k ((rules.zip pollfds).flatMap fun e => (e.2.service.map (e.1, ·)).toList) =
      p.service.toList := by
  induction rules generalizing pollfds with
  | nil => exact absurd hk (by simp)
  | cons j rules ih =>
      cases pollfds with
      | nil => exact absurd hlen (Nat.succ_ne_zero _)
      | cons q pollfds =>
          rw [List.nodup_cons] at hnodup
          rw [List.zip_cons_cons, List.flatMap_cons, history_append]
          rw [List.zip_cons_cons, List.mem_cons] at hk
          rcases hk with heq | hk
          · cases heq
            rw [history_eq_nil (not_mem_served hnodup.1), List.append_nil]
            cases p.service with
            | none => rfl
            | some s => simp [history]
          · have hne : j ≠ k := by
              rintro rfl
              exact hnodup.1 (List.of_mem_zip hk).1
            rw [ih hnodup.2 (Nat.succ.inj hlen) hk]
            cases q.service with
            | none => simp [history]
            | some s => simp [history, hne]

/-- A rule that is kept may have been called, and one that has left was cancelled. -/
structure Treats (rules rules' : List κ) (new : Log κ) : Prop where
  sublist : rules'.Sublist rules
  kept : ∀ k ∈ rules', history k new = [] ∨ history k new = [.called]
  gone : ∀ k ∈ rules, k ∉ rules' → history k new = [.cancelled]
  other : ∀ k, k ∉ rules → history k new = []

variable {rules rest rules' : List κ} {new new' : Log κ}

/-- Two passes, the first of which does nothing to the rules it keeps. -/
theorem Treats.append (h : Treats rules rest new) (hquiet : ∀ k ∈ rest, history k new = [])
    (h' : Treats rest rules' new') : Treats rules rules' (new ++ new') where
  sublist := h'.sublist.trans h.sublist
  kept := by
    intro k hk
    rw [history_append, hquiet k (h'.sublist.subset hk)]
    exact h'.kept k hk
  gone := by
    intro k hk hleft
    rw [history_append]
    by_cases hrest : k ∈ rest
    · rw [hquiet k hrest, h'.gone k hrest hleft, List.nil_append]
    · rw [h.gone k hk hrest, h'.other k hrest, List.append_nil]
  other := by
    intro k hk
    rw [history_append, h.other k hk, h'.other k fun hrest => hk (h.sublist.subset hrest)]
    rfl

theorem treats_gone {gone : List κ} (hnodup : rules.Nodup) (hsub : rest.Sublist rules)
    (hperm : rules.Perm (gone ++ rest)) :
    Treats rules rest (gone.map (·, .cancelled)) ∧
      ∀ k ∈ rest, history k (gone.map (·, Service.cancelled)) = [] := by
  have hboth := List.nodup_append.mp (hperm.nodup_iff.mp hnodup)
  have hmem : ∀ k, k ∈ rules ↔ k ∈ gone ∨ k ∈ rest := by
    intro k
    rw [hperm.mem_iff, List.mem_append]
  have hquiet : ∀ k, k ∉ gone → history k (gone.map (·, Service.cancelled)) = [] := by
    intro k hk
    exact history_eq_nil (by simpa using hk)
  have hrest : ∀ k ∈ rest, k ∉ gone := fun k hk hgone => hboth.2.2 k hgone k hk rfl
  exact ⟨{
    sublist := hsub
    kept := fun k hk => Or.inl (hquiet k (hrest k hk))
    gone := fun k hk hleft => history_gone hboth.1 (((hmem k).mp hk).resolve_right hleft)
    other := fun k hk => hquiet k fun hgone => hk ((hmem k).mpr (Or.inl hgone)) },
    fun k hk => hquiet k (hrest k hk)⟩

omit [DecidableEq κ] in
theorem exists_mem_zip {pollfds : List Pollfd} (hlen : rules.length = pollfds.length) {k : κ}
    (hk : k ∈ rules) : ∃ p, (k, p) ∈ rules.zip pollfds := by
  have hmap : (rules.zip pollfds).map Prod.fst = rules := List.map_fst_zip hlen.le
  rw [← hmap] at hk
  obtain ⟨⟨j, p⟩, hp, rfl⟩ := List.mem_map.mp hk
  exact ⟨p, hp⟩

theorem treats_served {pollfds : List Pollfd} (hnodup : rules.Nodup)
    (hlen : rules.length = pollfds.length) :
    Treats rules (((rules.zip pollfds).filter fun e => !e.2.hungUp).map Prod.fst)
      ((rules.zip pollfds).flatMap fun e => (e.2.service.map (e.1, ·)).toList) where
  sublist := by
    have hsub := (List.filter_sublist
      (l := rules.zip pollfds) (p := fun e => !e.2.hungUp)).map Prod.fst
    rwa [List.map_fst_zip hlen.le] at hsub
  kept := by
    intro k hk
    obtain ⟨⟨j, p⟩, hp, rfl⟩ := List.mem_map.mp hk
    rw [List.mem_filter, Bool.not_eq_true'] at hp
    rw [history_served hnodup hlen hp.1, Pollfd.service, hp.2]
    cases p.pollReady
    · exact Or.inl rfl
    · exact Or.inr rfl
  gone := by
    intro k hk hleft
    obtain ⟨p, hp⟩ := exists_mem_zip hlen hk
    have hhung : p.hungUp = true := by
      by_contra hnot
      rw [Bool.not_eq_true] at hnot
      exact hleft (List.mem_map.mpr ⟨(k, p), List.mem_filter.mpr ⟨hp, by simp [hnot]⟩, rfl⟩)
    rw [history_served hnodup hlen hp, Pollfd.service, hhung]
    rfl
  other := by
    intro k hk
    apply history_eq_nil
    intro hmem
    obtain ⟨⟨j, s⟩, he, rfl⟩ := List.mem_map.mp hmem
    obtain ⟨⟨j', p⟩, hzip, hs⟩ := List.mem_flatMap.mp he
    have hj : j' = j := by
      cases hp : p.service with
      | none => simp [hp] at hs
      | some s' =>
          simp [hp] at hs
          exact hs.1.symm
    exact hk (hj ▸ (List.of_mem_zip hzip).1)

theorem length_answered (pollfds : List Pollfd) (revents : List UInt16) :
    (answered pollfds revents).length = pollfds.length := by
  induction pollfds generalizing revents with
  | nil =>
      cases revents
      · rfl
      · rfl
  | cons p pollfds ih =>
      cases revents with
      | nil => rfl
      | cons r revents => exact congrArg (· + 1) (ih revents)

theorem treats_waitNextEvent {w w' : W × Log κ} {poll : PollAnswer} {i : ι} {result : Result}
    (hnodup : rules.Nodup)
    (h : waitNextEvent (fun k => (rule k).logged k) rules w poll i = .ok (result, rules', w')) :
    ∃ new, w'.2 = w.2 ++ new ∧ Treats rules rules' new := by
  rw [waitNextEvent, Halting.bind_eq_ok_iff] at h
  obtain ⟨⟨rest, pollfds, something, v⟩, hsetUp, h⟩ := h
  obtain ⟨hlen, hsub, gone, hperm, hlog⟩ := log_of_setUp hsetUp
  obtain ⟨hgone, hquiet⟩ := treats_gone hnodup hsub hperm
  have hserve : ∀ answers, rest.length = answers.length →
      (serve (fun k => (rule k).logged k) i rest answers v >>= fun r =>
        pure (Result.success, r.1, r.2)) = .ok (result, rules', w') →
      ∃ new, w'.2 = w.2 ++ new ∧ Treats rules rules' new := by
    intro answers hanswers h
    rw [Halting.bind_eq_ok_iff] at h
    obtain ⟨⟨kept, u⟩, hserved, h⟩ := h
    cases h
    obtain ⟨rfl, hlog'⟩ := log_of_serve hanswers hserved
    refine ⟨_, ?_, hgone.append hquiet (treats_served (hsub.nodup hnodup) hanswers)⟩
    rw [hlog', hlog, List.append_assoc]
  cases something with
  | false =>
      cases h
      exact ⟨_, hlog, hgone⟩
  | true =>
      cases poll with
      | timeout =>
          cases h
          exact ⟨_, hlog, hgone⟩
      | interrupted =>
          cases h
          exact ⟨_, hlog, hgone⟩
      | failed => exact hserve pollfds hlen h
      | ready revents =>
          exact hserve (answered pollfds revents) (hlen.trans (length_answered _ _).symm) h

/-- The log of one turn. -/
theorem treats_turn {s : List κ × W} {t : Turn W ι} {s' : List κ × W} (hnodup : s.1.Nodup)
    (h : turn rule s t = .ok s') (log : Log κ) :
    ∃ new, turn (fun k => (rule k).logged k) (s.1, s.2, log) t.logged =
      .ok (s'.1, s'.2, log ++ new) ∧ Treats s.1 s'.1 new := by
  have houtside : ∀ w : W × Log κ, (t.logged.outside w).1 = t.outside w.1 := fun _ => rfl
  have hover := turn_over (fun k => over_logged (rule k) k) (s.1, s.2, log) houtside rfl rfl
  rw [h, Halting.map_eq_ok_iff] at hover
  obtain ⟨⟨rules', v, log'⟩, hturn, rfl⟩ := hover
  have hwait := hturn
  rw [turn, Halting.bind_eq_ok_iff] at hwait
  obtain ⟨⟨result, kept, u⟩, hwait, hpure⟩ := hwait
  cases hpure
  obtain ⟨new, hlog, htreats⟩ := treats_waitNextEvent hnodup hwait
  obtain rfl : log' = log ++ new := hlog
  exact ⟨new, hturn, htreats⟩

/-- In every run of the loop a rule is called at most once a turn as long as it is kept, it
is cancelled once when it leaves the loop, and nothing is done to it afterwards. -/
theorem history_turns (rules : List κ) (hnodup : rules.Nodup) (w : W) (l : List (Turn W ι))
    {s : List κ × W} (h : turns rule (rules, w) l = .ok s) :
    ∃ log, turns (fun k => (rule k).logged k) (rules, w, []) (l.map Turn.logged) =
        .ok (s.1, s.2, log) ∧ s.1.Sublist rules ∧
      ∀ k, ∃ n ≤ l.length, history k log = List.replicate n .called ++
        (if k ∈ rules ∧ k ∉ s.1 then [.cancelled] else []) ∧ (k ∉ rules → n = 0) := by
  induction l using List.reverseRecOn generalizing s with
  | nil =>
      cases h
      refine ⟨[], rfl, List.Sublist.refl _, fun k => ⟨0, le_rfl, ?_, fun _ => rfl⟩⟩
      rw [if_neg fun hk => hk.2 hk.1]
      rfl
  | append_singleton l t ih =>
      rw [turns, List.foldlM_append, Halting.bind_eq_ok_iff] at h
      obtain ⟨mid, hmid, h⟩ := h
      change (turn rule mid t >>= pure) = .ok s at h
      rw [bind_pure] at h
      obtain ⟨log, hrun, hsub, hhistory⟩ := ih hmid
      obtain ⟨new, hturn, htreats⟩ := treats_turn (hsub.nodup hnodup) h log
      refine ⟨log ++ new, ?_, htreats.sublist.trans hsub, fun k => ?_⟩
      · rw [turns, List.map_append, List.foldlM_append, ← turns, hrun]
        change (turn _ _ _ >>= pure) = _
        rw [bind_pure, hturn]
      · obtain ⟨n, hn, hold, hnone⟩ := hhistory k
        rw [List.length_append, List.length_singleton]
        rw [history_append, hold]
        by_cases hmem : k ∈ mid.1
        · have hrules := hsub.subset hmem
          rw [if_neg fun hk => hk.2 hmem, List.append_nil]
          by_cases hkept : k ∈ s.1
          · rw [if_neg fun hk => hk.2 hkept]
            simp only [List.append_nil]
            rcases htreats.kept k hkept with hnew | hnew
            · exact ⟨n, by omega, by rw [hnew, List.append_nil], fun hk => absurd hrules hk⟩
            · refine ⟨n + 1, by omega, ?_, fun hk => absurd hrules hk⟩
              rw [hnew, List.replicate_succ']
          · rw [if_pos ⟨hrules, hkept⟩, htreats.gone k hmem hkept]
            exact ⟨n, by omega, rfl, fun hk => absurd hrules hk⟩
        · rw [htreats.other k hmem, List.append_nil]
          have hleft : k ∉ s.1 := fun hk => hmem (htreats.sublist.subset hk)
          refine ⟨n, by omega, ?_, hnone⟩
          simp [hmem, hleft]

end History

/-- A rule that reads, and is always interested. -/
def reader (limit : ℕ) : Rule FileDescriptor (Answer (List UInt8)) where
  fd := id
  direction := .pollIn
  callback answer fd := (fd.read limit answer).map Prod.snd
  interest _ := true
  cancel := .ok

/-- A byte, the end of the file, and the turn that finds the rule defunct. -/
theorem history_turns_reader : ∃ log,
    turns (fun k : Unit => (reader 8).logged k) ([()], { fdNum := 3 }, [])
        ([⟨id, .ready [POLLIN], .ok [7]⟩, ⟨id, .ready [POLLIN], .ok []⟩,
          ⟨id, .timeout, .ok []⟩].map Turn.logged) =
      .ok ([], { fdNum := 3, eof := true, readCount := 2 }, log) ∧
    ∃ n ≤ 3, history () log = List.replicate n .called ++ [.cancelled] := by
  have hturns : turns (fun _ : Unit => reader 8) ([()], { fdNum := 3 })
      [⟨id, .ready [POLLIN], .ok [7]⟩, ⟨id, .ready [POLLIN], .ok []⟩, ⟨id, .timeout, .ok []⟩] =
        .ok ([], { fdNum := 3, eof := true, readCount := 2 }) := rfl
  obtain ⟨log, hrun, -, hhistory⟩ := history_turns [()] (by decide) _ _ hturns
  obtain ⟨n, hn, heq, -⟩ := hhistory ()
  exact ⟨log, hrun, n, hn, heq⟩

end EventLoop

end NetworkLabs
