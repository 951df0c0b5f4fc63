import Mathlib

/-!
# Runs of a deterministic machine

A machine is a function `step` from a state and an event to the next state, and
a run is the fold of `step` over a list of events. `Along step guard s l` says
that every event of the run satisfies `guard` in the state in which it occurs;
it restricts the events, or describes what is asked of the environment.

Two rules carry every proof about runs. What holds at the start and is kept by
each guarded step holds at the end, and two machines that are related at the
start and kept related by each guarded step are related at the end.
-/

namespace Transition

variable {σ τ α : Type*}

/-- Every event of the list satisfies `guard` in the state in which it
occurs. -/
def Along (step : σ → α → σ) (guard : σ → α → Prop) : σ → List α → Prop
  | _, [] => True
  | s, a :: l => guard s a ∧ Along step guard (step s a) l

instance decidableAlong (step : σ → α → σ) (guard : σ → α → Prop)
    [∀ s a, Decidable (guard s a)] : ∀ (s : σ) (l : List α), Decidable (Along step guard s l)
  | _, [] => isTrue trivial
  | s, a :: l =>
      have : Decidable (Along step guard (step s a) l) :=
        decidableAlong step guard (step s a) l
      inferInstanceAs (Decidable (guard s a ∧ Along step guard (step s a) l))

section

variable {step : σ → α → σ} {guard guard' : σ → α → Prop}

@[simp] theorem along_nil (s : σ) : Along step guard s [] := trivial

@[simp] theorem along_cons (s : σ) (a : α) (l : List α) :
    Along step guard s (a :: l) ↔ guard s a ∧ Along step guard (step s a) l := Iff.rfl

theorem along_append (s : σ) (l m : List α) :
    Along step guard s (l ++ m) ↔
      Along step guard s l ∧ Along step guard (l.foldl step s) m := by
  induction l generalizing s with
  | nil => simp
  | cons a l ih => rw [List.cons_append, along_cons, along_cons, ih, and_assoc, List.foldl_cons]

/-- The last event of a guarded run satisfies the guard after the others. -/
theorem along_concat (s : σ) (l : List α) (a : α) :
    Along step guard s (l ++ [a]) ↔
      Along step guard s l ∧ guard (l.foldl step s) a := by
  rw [along_append, along_cons]
  simp

/-- A run is guarded if each of its events is, in the state before it. -/
theorem along_iff_forall_getElem (s : σ) (l : List α) :
    Along step guard s l ↔ ∀ k (h : k < l.length), guard ((l.take k).foldl step s) l[k] := by
  induction l generalizing s with
  | nil => exact iff_of_true trivial fun k h => absurd h (Nat.not_lt_zero k)
  | cons a l ih =>
      rw [along_cons, ih]
      constructor
      · rintro ⟨hfirst, hrest⟩ k h
        cases k with
        | zero => exact hfirst
        | succ k => exact hrest k (Nat.lt_of_succ_lt_succ h)
      · intro hall
        exact ⟨hall 0 (Nat.succ_pos _), fun k h => hall (k + 1) (Nat.succ_lt_succ h)⟩

theorem Along.imp (h : ∀ s a, guard s a → guard' s a) (s : σ) (l : List α)
    (hl : Along step guard s l) : Along step guard' s l := by
  induction l generalizing s with
  | nil => trivial
  | cons a l ih => exact ⟨h s a hl.1, ih _ hl.2⟩

theorem Along.and (s : σ) (l : List α) (h : Along step guard s l)
    (h' : Along step guard' s l) :
    Along step (fun s a => guard s a ∧ guard' s a) s l := by
  induction l generalizing s with
  | nil => trivial
  | cons a l ih => exact ⟨⟨h.1, h'.1⟩, ih _ h.2 h'.2⟩

/-- A guard that does not look at the state is a property of the events. -/
theorem along_of_forall {p : α → Prop} (s : σ) (l : List α) (h : ∀ a ∈ l, p a) :
    Along step (fun _ a => p a) s l := by
  induction l generalizing s with
  | nil => trivial
  | cons a l ih =>
      exact ⟨h a List.mem_cons_self, ih _ fun b hb => h b (List.mem_cons_of_mem a hb)⟩

/-- A machine that carries something along runs as the machine without it. -/
theorem along_map {step' : τ → α → τ} (f : τ → σ) (hf : ∀ t a, f (step' t a) = step (f t) a)
    (t : τ) (l : List α) :
    Along step' (fun t a => guard (f t) a) t l ↔ Along step guard (f t) l := by
  induction l generalizing t with
  | nil => exact Iff.rfl
  | cons a l ih => rw [along_cons, along_cons, ih, hf]

/-- The rule for invariants of guarded runs. -/
theorem Along.invariant (inv : σ → Prop)
    (hstep : ∀ s a, inv s → guard s a → inv (step s a)) (s : σ) (l : List α)
    (hs : inv s) (hl : Along step guard s l) : inv (l.foldl step s) := by
  induction l generalizing s with
  | nil => exact hs
  | cons a l ih => exact ih (step s a) (hstep s a hs hl.1) hl.2

/-- What an invariant and the guard imply of a step is true of every step of a
guarded run. -/
theorem Along.of_invariant (inv : σ → Prop)
    (hstep : ∀ s a, inv s → guard s a → inv (step s a))
    (hpost : ∀ s a, inv s → guard s a → guard' s a) (s : σ) (l : List α)
    (hs : inv s) (hl : Along step guard s l) : Along step guard' s l := by
  induction l generalizing s with
  | nil => trivial
  | cons a l ih => exact ⟨hpost s a hs hl.1, ih (step s a) (hstep s a hs hl.1) hl.2⟩

/-- Two guards that agree in all states of an invariant restrict runs alike. -/
theorem along_congr_of_invariant (inv : σ → Prop) (hstep : ∀ s a, inv s → inv (step s a))
    (hguard : ∀ s a, inv s → (guard s a ↔ guard' s a)) (s : σ) (l : List α) (hs : inv s) :
    Along step guard s l ↔ Along step guard' s l := by
  induction l generalizing s with
  | nil => exact Iff.rfl
  | cons a l ih => rw [along_cons, along_cons, hguard s a hs, ih _ (hstep s a hs)]

/-- The rule for simulations along guarded runs. -/
theorem Along.simulation {step' : τ → α → τ} (rel : σ → τ → Prop)
    (hstep : ∀ s t a, rel s t → guard s a → rel (step s a) (step' t a)) (s : σ) (t : τ)
    (l : List α) (hs : rel s t) (hl : Along step guard s l) :
    rel (l.foldl step s) (l.foldl step' t) := by
  induction l generalizing s t with
  | nil => exact hs
  | cons a l ih => exact ih (step s a) (step' t a) (hstep s t a hs hl.1) hl.2

/-- If a guard says exactly which steps keep two machines related, then it says
exactly along which runs they are related all the time. -/
theorem forall_take_simulation_iff_along {step' : τ → α → τ} (rel : σ → τ → Prop)
    (hstep : ∀ s t a, rel s t → (rel (step s a) (step' t a) ↔ guard s a)) (s : σ) (t : τ)
    (l : List α) (hs : rel s t) :
    (∀ k, rel ((l.take k).foldl step s) ((l.take k).foldl step' t)) ↔ Along step guard s l := by
  induction l generalizing s t with
  | nil => simpa using hs
  | cons a l ih =>
      rw [along_cons, ← hstep s t a hs]
      constructor
      · intro hall
        have hnext : rel (step s a) (step' t a) := hall 1
        exact ⟨hnext, (ih _ _ hnext).mp fun k => hall (k + 1)⟩
      · rintro ⟨hnext, hrest⟩ k
        cases k with
        | zero => exact hs
        | succ k => exact (ih _ _ hnext).mpr hrest k

/-- If a guard says exactly which steps keep an invariant, then it says exactly
which runs keep it all along. -/
theorem forall_take_iff_along (inv : σ → Prop)
    (hstep : ∀ s a, inv s → (inv (step s a) ↔ guard s a)) (s : σ) (l : List α) (hs : inv s) :
    (∀ k, inv ((l.take k).foldl step s)) ↔ Along step guard s l :=
  @forall_take_simulation_iff_along σ Unit α step guard (fun _ _ => ()) (fun s _ => inv s)
    (fun s _ a => hstep s a) s () l hs

/-- If a guard says exactly which steps keep a property in the states of an
invariant, and guarded steps keep the invariant, then the guard says exactly
along which runs the property holds all the time. Only the events that occur
have to be considered. -/
theorem forall_take_iff_along_of_invariant (inv prop : σ → Prop) (p : α → Prop)
    (hstep : ∀ s a, inv s → p a → (prop (step s a) ↔ guard s a))
    (hkeep : ∀ s a, inv s → p a → guard s a → inv (step s a)) (s : σ) (l : List α)
    (hl : ∀ a ∈ l, p a) (hs : inv s) (hprop : prop s) :
    (∀ k, prop ((l.take k).foldl step s)) ↔ Along step guard s l := by
  induction l generalizing s with
  | nil => simpa using hprop
  | cons a l ih =>
      have ha := hl a List.mem_cons_self
      have hl' : ∀ b ∈ l, p b := fun b hb => hl b (List.mem_cons_of_mem a hb)
      rw [along_cons]
      constructor
      · intro hall
        have hnext : prop (step s a) := hall 1
        have hguard := (hstep s a hs ha).mp hnext
        exact ⟨hguard, (ih _ hl' (hkeep s a hs ha hguard) hnext).mp fun k => hall (k + 1)⟩
      · rintro ⟨hguard, hrest⟩ k
        have hnext := (hstep s a hs ha).mpr hguard
        cases k with
        | zero => exact hprop
        | succ k => exact (ih _ hl' (hkeep s a hs ha hguard) hnext).mpr hrest k

end

/-- The last step of a run. -/
theorem foldl_take_succ (step : σ → α → σ) (s : σ) (l : List α) {k : ℕ} (h : k < l.length) :
    (l.take (k + 1)).foldl step s = step ((l.take k).foldl step s) l[k] := by
  rw [List.take_succ_eq_append_getElem h, List.foldl_append]
  rfl

/-- The rule for invariants of all runs. -/
theorem foldl_invariant {step : σ → α → σ} (inv : σ → Prop)
    (hstep : ∀ s a, inv s → inv (step s a)) (s : σ) (l : List α) (hs : inv s) :
    inv (l.foldl step s) := by
  induction l generalizing s with
  | nil => exact hs
  | cons a l ih => exact ih (step s a) (hstep s a hs)

/-- The rule for termination: where every step lowers a measure there is no infinite
run. -/
theorem not_exists_infinite {β : Type*} [Preorder β] [WellFoundedLT β] {rel : σ → σ → Prop}
    (inv : σ → Prop) (measure : σ → β) (hinv : ∀ s t, inv s → rel s t → inv t)
    (hlt : ∀ s t, inv s → rel s t → measure t < measure s) (s : σ) (hs : inv s) :
    ¬ ∃ f : ℕ → σ, f 0 = s ∧ ∀ i, rel (f i) (f (i + 1)) := by
  rintro ⟨f, h0, hrel⟩
  have hall : ∀ i, inv (f i) := by
    intro i
    induction i with
    | zero => exact h0 ▸ hs
    | succ i ih => exact hinv _ _ ih (hrel i)
  have hanti : StrictAnti fun i => measure (f i) :=
    strictAnti_nat_of_succ_lt fun i => hlt _ _ (hall i) (hrel i)
  exact not_strictAnti_of_wellFoundedLT _ hanti

end Transition
