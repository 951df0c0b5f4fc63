import Mathlib

/-!
# Computations that may stop short

A computation with errors is described by the error it stops with, if there is
one, and by what is true of the state it ends in otherwise. A sequence of
computations stops with the first error of one of them, and a loop with the first
error of a round.
-/

namespace Halting

universe u

variable {ε α : Type*} {σ τ : Type u}

/-- The computation stops with the given error, or ends in a state of the
invariant if none is given. -/
def EndsAs (stop : Option ε) (inv : σ → Prop) (r : Except ε σ) : Prop :=
  match stop with
  | some e => r = .error e
  | none => ∃ s, r = .ok s ∧ inv s

section

variable {stop stop' : Option ε} {inv : σ → Prop} {inv' : τ → Prop} {r : Except ε σ}

theorem endsAs_ok {s : σ} (h : inv s) : EndsAs (none : Option ε) inv (.ok s) := ⟨s, rfl, h⟩

theorem EndsAs.eq_error_iff (h : EndsAs stop inv r) (e : ε) : r = .error e ↔ stop = some e := by
  cases stop with
  | some e' =>
      have hr : r = .error e' := h
      rw [hr, Except.error.injEq, Option.some.injEq]
  | none =>
      obtain ⟨s, rfl, -⟩ := h
      simp

theorem EndsAs.mono {inv' : σ → Prop} (h : EndsAs stop inv r) (himp : ∀ s, inv s → inv' s) :
    EndsAs stop inv' r := by
  cases stop with
  | some e => exact h
  | none =>
      obtain ⟨s, hr, hs⟩ := h
      exact ⟨s, hr, himp s hs⟩

/-- One computation after another. -/
theorem EndsAs.bind {f : σ → Except ε τ} (h : EndsAs stop inv r)
    (hf : ∀ s, inv s → EndsAs stop' inv' (f s)) : EndsAs (stop.or stop') inv' (r >>= f) := by
  cases stop with
  | some e =>
      have hr : r = .error e := h
      rw [hr]
      rfl
  | none =>
      obtain ⟨s, rfl, hs⟩ := h
      exact hf s hs

/-- A computation whose result is only rearranged. -/
theorem EndsAs.bind_pure {f : σ → τ} (h : EndsAs stop inv r) (hf : ∀ s, inv s → inv' (f s)) :
    EndsAs stop inv' (r >>= fun s => pure (f s)) := by
  have hboth := h.bind fun s hs => (endsAs_ok (hf s hs) : EndsAs none inv' (.ok (f s) : Except ε τ))
  rwa [Option.or_none] at hboth

/-- A loop; the invariant may speak of the rounds so far. -/
theorem EndsAs.foldlM {f : σ → α → Except ε σ} {stopOf : α → Option ε} {inv : List α → σ → Prop}
    (hf : ∀ done s a, inv done s → EndsAs (stopOf a) (inv (done ++ [a])) (f s a)) (l done : List α)
    (s : σ) (hs : inv done s) :
    EndsAs (l.findSome? stopOf) (inv (done ++ l)) (l.foldlM f s) := by
  induction l generalizing s done with
  | nil =>
      rw [List.append_nil]
      exact endsAs_ok hs
  | cons a l ih =>
      have hall := (hf done s a hs).bind fun s' hs' => ih (done ++ [a]) s' hs'
      rw [List.append_assoc, List.singleton_append] at hall
      rw [List.foldlM_cons, List.findSome?_cons]
      cases hstop : stopOf a with
      | some e => rwa [hstop] at hall
      | none => rwa [hstop] at hall

end

/-- A loop that comes to its end has gone through all rounds. -/
theorem foldlM_of_ok {f : σ → α → Except ε σ} {inv : List α → σ → Prop}
    (hf : ∀ done s a s', inv done s → f s a = .ok s' → inv (done ++ [a]) s') (l done : List α)
    {s s' : σ} (hs : inv done s) (h : l.foldlM f s = .ok s') : inv (done ++ l) s' := by
  induction l generalizing s done with
  | nil =>
      rw [List.append_nil]
      rw [List.foldlM_nil] at h
      cases h
      exact hs
  | cons a l ih =>
      rw [List.foldlM_cons] at h
      cases hround : f s a with
      | error e =>
          rw [hround] at h
          exact absurd h (by simp [bind, Except.bind])
      | ok mid =>
          rw [hround] at h
          have hall := ih (done ++ [a]) (hf done s a mid hs hround) h
          rwa [List.append_assoc, List.singleton_append] at hall

/-- A sequence that comes to its end has come to the end of both parts. -/
theorem bind_eq_ok_iff (r : Except ε σ) (f : σ → Except ε τ) (t : τ) :
    r >>= f = .ok t ↔ ∃ s, r = .ok s ∧ f s = .ok t := by
  cases r with
  | error e => exact iff_of_false nofun (by rintro ⟨s, hs, -⟩; exact nomatch hs)
  | ok s =>
      constructor
      · exact fun h => ⟨s, rfl, h⟩
      · rintro ⟨s', hs, h⟩
        cases hs
        exact h

/-- A sequence stops in its first part or in its second one. -/
theorem bind_eq_error_iff (r : Except ε σ) (f : σ → Except ε τ) (e : ε) :
    r >>= f = .error e ↔ r = .error e ∨ ∃ s, r = .ok s ∧ f s = .error e := by
  cases r with
  | error e' =>
      constructor
      · intro h
        cases h
        exact Or.inl rfl
      · rintro (h | ⟨s, hs, -⟩)
        · cases h
          rfl
        · exact nomatch hs
  | ok s =>
      constructor
      · exact fun h => Or.inr ⟨s, rfl, h⟩
      · rintro (h | ⟨s', hs, h⟩)
        · exact nomatch h
        · cases hs
          exact h

theorem map_eq_ok_iff (r : Except ε σ) (f : σ → τ) (t : τ) :
    r.map f = .ok t ↔ ∃ s, r = .ok s ∧ f s = t := by
  cases r with
  | error e => exact iff_of_false nofun (by rintro ⟨s, hs, -⟩; exact nomatch hs)
  | ok s => simp [Except.map]

/-- A rearrangement of the result is no reason to stop. -/
theorem bind_pure_eq_error_iff (r : Except ε σ) (f : σ → τ) (e : ε) :
    (r >>= fun s => pure (f s)) = .error e ↔ r = .error e := by
  cases r with
  | error e' =>
      change (Except.error e' : Except ε τ) = .error e ↔ _
      rw [Except.error.injEq, Except.error.injEq]
  | ok s =>
      change (Except.ok (f s) : Except ε τ) = .error e ↔ _
      exact iff_of_false (by simp) (by simp)

/-- The first error of nested loops. -/
theorem findSome?_flatMap {β : Type*} (g : α → List β) (stopOf : β → Option ε) (l : List α) :
    (l.flatMap g).findSome? stopOf = l.findSome? fun a => (g a).findSome? stopOf := by
  induction l with
  | nil => rfl
  | cons a l ih =>
      rw [List.flatMap_cons, List.findSome?_append, List.findSome?_cons, ih]
      cases (g a).findSome? stopOf with
      | some e => rfl
      | none => rfl

/-- A loop stops where the first round stops that does not go on. -/
theorem findSome?_eq_some_iff (stopOf : α → Option ε) (l : List α) (e : ε) :
    l.findSome? stopOf = some e ↔
      ∃ a, l.find? (fun a => (stopOf a).isSome) = some a ∧ stopOf a = some e := by
  induction l with
  | nil => simp
  | cons a l ih =>
      rw [List.findSome?_cons]
      cases hstop : stopOf a with
      | some e' =>
          rw [List.find?_cons_of_pos (by rw [hstop, Option.isSome_some])]
          constructor
          · intro h
            exact ⟨a, rfl, hstop.trans h⟩
          · rintro ⟨a', ha', h⟩
            rw [← Option.some.inj ha', hstop] at h
            exact h
      | none =>
          rw [List.find?_cons_of_neg (by simp [hstop])]
          exact ih

/-- The computation ends in a state of the invariant, or stops with an error of the
given kind. -/
def Ends (fail : ε → Prop) (inv : σ → Prop) : Except ε σ → Prop
  | .ok s => inv s
  | .error e => fail e

section

variable {fail : ε → Prop} {inv : σ → Prop} {inv' : τ → Prop} {r : Except ε σ}

/-- The rule of sequences. -/
theorem Ends.bind {f : σ → Except ε τ} (h : Ends fail inv r)
    (hf : ∀ s, inv s → Ends fail inv' (f s)) : Ends fail inv' (r >>= f) := by
  cases r with
  | ok s => exact hf s h
  | error e => exact h

/-- The rule of loops. -/
theorem Ends.foldlM {α : Type*} {f : σ → α → Except ε σ} {l : List α} {s : σ} (hs : inv s)
    (hf : ∀ s, ∀ a ∈ l, inv s → Ends fail inv (f s a)) : Ends fail inv (l.foldlM f s) := by
  induction l generalizing s with
  | nil => exact hs
  | cons a l ih =>
      rw [List.foldlM_cons]
      exact (hf s a List.mem_cons_self hs).bind fun s' hs' =>
        ih hs' fun t b hb => hf t b (List.mem_cons_of_mem a hb)

/-- The rule of consequence. -/
theorem Ends.mono {fail' : ε → Prop} {inv' : σ → Prop} (h : Ends fail inv r)
    (hfail : ∀ e, fail e → fail' e) (hinv : ∀ s, inv s → inv' s) : Ends fail' inv' r := by
  cases r with
  | ok s => exact hinv s h
  | error e => exact hfail e h

/-- A computation that does not end. -/
theorem Ends.of_never {fail' : ε → Prop} {inv' : σ → Prop} (h : Ends fail (fun _ : σ => False) r)
    (hfail : ∀ e, fail e → fail' e) : Ends fail' inv' r :=
  h.mono hfail fun _ hfalse => hfalse.elim

end

end Halting
