import ObjectQuery.Proofs.Predicate.Reordering

/-!
# The equality of elements

The predicates of lists compare elements with operands by a test of their own
(`Predicate.elementEquals`), which answers where `Predicate.is` would fail, and turns away
elements of the none family before it compares anything. It agrees with `Predicate.is` on all
operands but one: `null` is what a missing value is equal to, and no element of a list matches
it (`Predicate.elementEquals_iff`).

A missing value is equal to `null` and to nothing else, and what was not found is equal to
nothing at all (`Predicate.equals_of_isNone`). So turning such elements away makes no
difference to the comparison with any other operand, and it is the whole difference to the
comparison with `null`.
-/

namespace ObjectQuery

namespace Predicate

variable {element : Found} {operand : Value}

/-! ### Equality and the none family -/

/-- Of the none family only a missing value is equal to something, and that is `null`. -/
theorem equals_of_isNone (h : equals element operand = .ok true) (hnone : element.isNone = true) :
    element = .noValue ∧ operand = .null := by
  rcases element with _ | reason | p | fields | elements
  · rcases operand with _ | b | n | s | items | fields
    · exact ⟨rfl, rfl⟩
    all_goals cases h
  · rcases operand with _ | b | n | s | items | fields <;> cases h
  all_goals cases hnone

/-- What is equal to `null` is missing. -/
theorem eq_noValue_of_equals_null (h : equals element .null = .ok true) : element = .noValue := by
  rcases element with _ | reason | p | fields | elements
  · rfl
  all_goals cases h

/-- What is equal to an operand is of the none family exactly if the operand is `null`. -/
theorem isSome_iff_of_equals (h : equals element operand = .ok true) :
    element.isSome = true ↔ operand ≠ .null := by
  constructor
  · rintro hsome rfl
    rw [eq_noValue_of_equals_null h] at hsome
    cases hsome
  · intro hnull
    rw [Found.isSome, Bool.not_eq_true', ← Bool.not_eq_true]
    exact fun hnone => hnull (equals_of_isNone h hnone).2

/-! ### Elements of a list -/

/-- **An element matches an operand** if the operand is not `null` and the element is equal to
it, as far as that can be told without failing. -/
theorem elementEquals_iff :
    elementEquals element operand = true ↔
      operand ≠ .null ∧ (is operand).test element = .ok true := by
  have hequals : elementEquals element operand = true ↔
      element.isSome = true ∧ equals element operand = .ok true := by
    rw [elementEquals, Bool.and_eq_true]
    refine and_congr_right fun _ => ?_
    cases equals element operand <;> simp
  rw [hequals, test]
  exact and_congr_left isSome_iff_of_equals

theorem test_listContains_iff {elements : List Found} {operands : List Value} :
    (listContains operands).test (.list elements) = .ok true ↔
      ∀ operand ∈ operands, ∃ element ∈ elements, elementEquals element operand = true := by
  simp only [test, onList, containsAll, Except.ok.injEq, List.all_eq_true, List.any_eq_true]

/-- **The predicates of lists use the equality of `is`, in which no element is `null`.** A list
contains exactly certain operands if it is as long as they are, none of them is `null`, and
every element is equal to the operand at its place; it contains operands if none of them is
`null` and for each there is an element that is equal to it. -/
theorem lists_test_as_is (elements : List Found) (operands : List Value) :
    ((containsExactly operands).test (.list elements) = .ok true ↔
      elements.length = operands.length ∧
        ∀ i (hi : i < elements.length) (hi' : i < operands.length),
          operands[i] ≠ .null ∧ (is operands[i]).test elements[i] = .ok true) ∧
    ((listContains operands).test (.list elements) = .ok true ↔
      ∀ operand ∈ operands, operand ≠ .null ∧
        ∃ element ∈ elements, (is operand).test element = .ok true) := by
  constructor
  · rw [test_containsExactly_iff, List.forall₂_iff_get]
    simp only [elementEquals_iff, List.get_eq_getElem]
  · rw [test_listContains_iff]
    refine forall₂_congr fun operand _ => ?_
    simp only [elementEquals_iff]
    constructor
    · rintro ⟨element, helement, hnull, hequals⟩
      exact ⟨hnull, element, helement, hequals⟩
    · rintro ⟨hnull, element, helement, hequals⟩
      exact ⟨element, helement, hnull, hequals⟩

/-- A missing value is `null`, but as the one element of a list it is neither all that the list
holds nor among what it contains. -/
theorem lists_pass_over_null :
    (is .null).test .noValue = .ok true ∧
      (containsExactly [.null]).test (.list [.noValue]) = .ok false ∧
      (listContains [.null]).test (.list [.noValue]) = .ok false :=
  ⟨rfl, rfl, rfl⟩

/-- An operand that is a list fails on its own, and among the operands of a list it matches
nothing. -/
example :
    (is (.array [])).test (.list []) = .error listOperand ∧
      (listContains [.array []]).test (.list [.list []]) = .ok false :=
  ⟨rfl, rfl⟩

end Predicate

end ObjectQuery
