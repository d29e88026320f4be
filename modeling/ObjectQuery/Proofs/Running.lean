/-!
# Running computations that may fail

A computation with a state that may fail is run on a state and comes to an answer, or to
a failure, and to the state it left. The equations here say what a sequence of two comes
to once it is known what the first one came to; they are all that is ever used of how
such computations are put together.
-/

namespace ObjectQuery

variable {ε σ α β : Type} {x : ExceptT ε (StateM σ) α} {f : α → ExceptT ε (StateM σ) β}
  {s s' : σ}

/-- Running a sequence whose first part succeeds. -/
theorem run_bind_of_ok {a : α} (h : x.run.run s = (.ok a, s')) :
    (x >>= f).run.run s = (f a).run.run s' := by
  change (ExceptT.bindCont f (x.run.run s).1).run (x.run.run s).2 = _
  rw [h]
  rfl

/-- Running a sequence whose first part fails. -/
theorem run_bind_of_error {e : ε} (h : x.run.run s = (.error e, s')) :
    (x >>= f).run.run s = (.error e, s') := by
  change (ExceptT.bindCont f (x.run.run s).1).run (x.run.run s).2 = _
  rw [h]
  rfl

/-- Running a sequence of computations that cannot fail. -/
theorem run_bind_of_run {x : StateM σ α} {f : α → StateM σ β} {a : α} (h : x.run s = (a, s')) :
    (x >>= f).run s = (f a).run s' := by
  change (f (x.run s).1).run (x.run s).2 = _
  rw [h]

/-- A sequence succeeds if both of its parts do. -/
theorem except_bind_eq_ok {x : Except ε α} {f : α → Except ε β} {b : β} :
    x >>= f = .ok b ↔ ∃ a, x = .ok a ∧ f a = .ok b := by
  constructor
  · intro h
    cases x with
    | ok a => exact ⟨a, rfl, h⟩
    | error e => cases h
  · rintro ⟨a, rfl, h⟩
    exact h

/-- A sequence fails if its first part does, or its second part does behind it. -/
theorem except_bind_eq_error {x : Except ε α} {f : α → Except ε β} {e : ε} :
    x >>= f = .error e ↔ x = .error e ∨ ∃ a, x = .ok a ∧ f a = .error e := by
  constructor
  · intro h
    cases x with
    | ok a => exact .inr ⟨a, rfl, h⟩
    | error e' =>
      cases h
      exact .inl rfl
  · rintro (rfl | ⟨a, rfl, h⟩)
    · rfl
    · exact h

end ObjectQuery
