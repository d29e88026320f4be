import ObjectQuery.Condition.Evaluate
import ObjectQuery.Proofs.Lookup.Invariants

/-!
# The verdict of a condition

Evaluating a condition looks paths up, and what is kept changes on the way. As long as
the subject answers every path in the same way throughout, none of this shows in what
the evaluation comes to: it is the **verdict** (`Condition.verdict`), the same left fold
with the same skipping and the same early exits over a `View`, which is a fixed answer,
or failure, for every path.

`Condition.gives_holds` is the one induction over conditions that this takes. Whoever
knows an invariant under which a subject reads as a view (`Subject.gives_read`,
`Subject.gives_read_seen`) knows what a condition comes to.
-/

namespace ObjectQuery

/-- An answer, or a failure, for every path. -/
abbrev View := String → Except Failure Found

/-- A found value as a view: paths are followed on it, and none fails. -/
def Found.view (found : Found) : View :=
  fun path => .ok (found.resolve path)

/-! ### The verdict -/

/-- What a quantifier comes to over elements, tested in order up to the first that
decides it or fails. -/
def Quantifier.search (q : Quantifier) (holds : Found → Except Failure Bool) :
    List Found → Except Failure Bool
  | [] => .ok !q.decided
  | element :: rest => do
    if q.decidedBy (← holds element) then return q.decided else q.search holds rest

namespace Condition

mutual

/-- The verdict of an element. -/
def elementVerdict (view : View) : Element → Except Failure Bool
  | .assertion path check => do
    let found ← view path
    checkVerdict found check
  | .condition clauses => verdict view clauses

/-- The verdict of a check on a found value. -/
def checkVerdict (found : Found) : Check → Except Failure Bool
  | .predicate p => p.test found
  | .quantified q clauses =>
    match found with
    | .list elements => q.search (fun element => verdict element.view clauses) elements
    | _ => .ok false

/-- What a condition comes to where paths are answered by a view. -/
def verdict (view : View) : List Clause → Except Failure Bool
  | [] => .ok true
  | ⟨_, element⟩ :: rest => do
    let state ← elementVerdict view element
    restVerdict view state rest

/-- What the clauses behind the first make of a running truth value. -/
def restVerdict (view : View) (state : Bool) : List Clause → Except Failure Bool
  | [] => .ok state
  | ⟨relation, element⟩ :: rest =>
    if relation.skips state then restVerdict view state rest
    else do
      let state ← elementVerdict view element
      restVerdict view state rest

end

end Condition

/-! ### Evaluation gives the verdict -/

section Evaluation

variable {P : Lookups → Prop} {examiner : Examiner}

theorem Quantifier.gives_over {holds : Found → LookupM Bool}
    {decide : Found → Except Failure Bool}
    (h : ∀ element, Gives P (holds element).run (decide element))
    (q : Quantifier) (elements : List Found) :
    Gives P (q.over holds elements).run (q.search decide elements) := by
  induction elements with
  | nil => exact Gives.pure _
  | cons element rest ih =>
    rw [Quantifier.over, search]
    refine (h element).bindExcept fun b _ => ?_
    split
    · exact Gives.pure _
    · exact ih

/-- A found value reads as its view under any invariant: nothing is looked up for it. -/
theorem Subject.gives_read_value (found : Found) (path : String) :
    Gives P ((Subject.value found).read examiner path).run (found.view path) :=
  Gives.pure _

namespace Condition

mutual

theorem gives_holdsElement (element : Element) (s : Subject) (view : View)
    (h : ∀ path, Gives P (s.read examiner path).run (view path)) :
    Gives P (holdsElement examiner s element).run (elementVerdict view element) := by
  cases element with
  | assertion path check =>
    rw [holdsElement, elementVerdict]
    exact (h path).bindExcept fun found _ => gives_holdsCheck check found
  | condition clauses =>
    rw [holdsElement, elementVerdict]
    exact gives_holds clauses s view h

theorem gives_holdsCheck (check : Check) (found : Found) :
    Gives P (holdsCheck examiner found check).run (checkVerdict found check) := by
  cases check with
  | predicate p =>
    rw [holdsCheck, checkVerdict]
    exact Gives.pure _
  | quantified q clauses =>
    cases found with
    | list elements =>
      -- an element is a found value, which reads as its view whatever the invariant
      rw [holdsCheck, checkVerdict]
      exact q.gives_over (fun element => gives_holds clauses (.value element) element.view
        (Subject.gives_read_value element)) elements
    | noValue => exact Gives.pure _
    | notFound reason => exact Gives.pure _
    | primitive p => exact Gives.pure _
    | complex fields => exact Gives.pure _

/-- **Evaluating a condition gives its verdict**, under any invariant under which the
subject reads as the view. -/
theorem gives_holds (c : List Clause) (s : Subject) (view : View)
    (h : ∀ path, Gives P (s.read examiner path).run (view path)) :
    Gives P (holds examiner s c).run (verdict view c) := by
  cases c with
  | nil =>
    rw [holds, verdict]
    exact Gives.pure _
  | cons clause rest =>
    obtain ⟨relation, element⟩ := clause
    rw [holds, verdict]
    exact (gives_holdsElement element s view h).bindExcept fun state _ =>
      gives_holdsRest rest state s view h

theorem gives_holdsRest (c : List Clause) (state : Bool) (s : Subject) (view : View)
    (h : ∀ path, Gives P (s.read examiner path).run (view path)) :
    Gives P (holdsRest examiner s state c).run (restVerdict view state c) := by
  cases c with
  | nil =>
    rw [holdsRest, restVerdict]
    exact Gives.pure _
  | cons clause rest =>
    obtain ⟨relation, element⟩ := clause
    rw [holdsRest, restVerdict]
    split
    · -- a skipped operand looks nothing up
      exact gives_holdsRest rest state s view h
    · exact (gives_holdsElement element s view h).bindExcept fun state _ =>
        gives_holdsRest rest state s view h

end

end Condition

end Evaluation

end ObjectQuery
