import ObjectQuery.Condition.Evaluate

/-!
# Conditions group to the left

Without precedence, `a OR b AND c` is read as `(a OR b) AND c`, and what stands in front of
`a` is not read at all. So two kinds of change leave a condition as it is: to put its first
clauses into parentheses, and to change the relation of the first clause. `Condition.Regroups`
is one such change, anywhere: in the condition itself, in one that is nested in it, or in what
a quantifier asks of elements.

That it makes no difference (`Condition.run_holds_of_regroups`) is meant of everything that
evaluating does, on any subject and whatever is kept: the truth value or the failure it comes
to, the questions it puts, and what is kept behind it. The fold makes the nested condition its
first operand, which is never skipped, and goes on with what it came to just where the longer
fold would have been (`Condition.holds_group`, by `Condition.holdsRest_append`). The first
clauses are at least one, since parentheses around nothing are an operand of their own, which
holds.
-/

namespace ObjectQuery.Condition

/-! ### Changes that are not read -/

/-- One change at one place of a condition that reading it from left to right does not see. -/
inductive Regroups : Condition → Condition → Prop
  /-- The first `k` clauses are put into parentheses, behind any relation. -/
  | group (c : Condition) (k : Nat) (hk : 1 ≤ k) (hc : k ≤ c.length) (relation : Relation) :
    Regroups c (⟨relation, .condition (c.take k)⟩ :: c.drop k)
  /-- The relation of the first clause changes. -/
  | lead (relation relation' : Relation) (element : Element) (rest : List Clause) :
    Regroups (⟨relation, element⟩ :: rest) (⟨relation', element⟩ :: rest)
  /-- The change is made in a nested condition. -/
  | nested {c c' : Condition} (h : Regroups c c') (front back : List Clause)
    (relation : Relation) :
    Regroups (front ++ ⟨relation, .condition c⟩ :: back)
      (front ++ ⟨relation, .condition c'⟩ :: back)
  /-- The change is made in what a quantifier asks of elements. -/
  | quantified {c c' : Condition} (h : Regroups c c') (front back : List Clause)
    (relation : Relation) (path : String) (q : Quantifier) :
    Regroups (front ++ ⟨relation, .assertion path (.quantified q c)⟩ :: back)
      (front ++ ⟨relation, .assertion path (.quantified q c')⟩ :: back)

variable {examiner : Examiner} {s : Subject}

/-! ### The fold in two parts -/

theorem holdsRest_append (front back : List Clause) (state : Bool) :
    holdsRest examiner s state (front ++ back) =
      holdsRest examiner s state front >>= fun state => holdsRest examiner s state back := by
  induction front generalizing state with
  | nil => rw [List.nil_append, holdsRest, pure_bind]
  | cons clause rest ih =>
    obtain ⟨relation, element⟩ := clause
    rw [List.cons_append, holdsRest, holdsRest]
    split
    · exact ih state
    · simp only [bind_assoc, ih]

theorem holds_cons_append (first : Clause) (front back : List Clause) :
    holds examiner s (first :: front ++ back) =
      holds examiner s (first :: front) >>= fun state => holdsRest examiner s state back := by
  obtain ⟨relation, element⟩ := first
  rw [List.cons_append, holds, holds]
  simp only [bind_assoc, holdsRest_append]

/-- **Parentheses around the first clauses** are not read. -/
theorem holds_group {front : List Clause} (hfront : front ≠ []) (back : List Clause)
    (relation : Relation) :
    holds examiner s (⟨relation, .condition front⟩ :: back) = holds examiner s (front ++ back) := by
  obtain ⟨first, rest, rfl⟩ := List.exists_cons_of_ne_nil hfront
  rw [holds, holdsElement, holds_cons_append]

/-! ### One operand replaced -/

/-- Operands that are evaluated alike may stand for each other. -/
theorem holds_replace {element element' : Element}
    (h : holdsElement examiner s element' = holdsElement examiner s element)
    (front back : List Clause) (relation : Relation) :
    holds examiner s (front ++ ⟨relation, element'⟩ :: back) =
      holds examiner s (front ++ ⟨relation, element⟩ :: back) := by
  cases front with
  | nil => rw [List.nil_append, List.nil_append, holds, holds, h]
  | cons first front =>
    rw [holds_cons_append, holds_cons_append]
    simp only [holdsRest, h]

/-- Conditions that are evaluated alike on every subject may stand for each other under a
quantifier. -/
theorem holdsElement_quantified_congr {c c' : Condition}
    (h : ∀ s, holds examiner s c' = holds examiner s c) (path : String) (q : Quantifier) :
    holdsElement examiner s (.assertion path (.quantified q c')) =
      holdsElement examiner s (.assertion path (.quantified q c)) := by
  have hcheck : ∀ found, holdsCheck examiner found (.quantified q c') =
      holdsCheck examiner found (.quantified q c) := by
    intro found
    cases found with
    | list elements =>
      rw [holdsCheck, holdsCheck]
      simp only [h]
    | _ => rfl
  rw [holdsElement, holdsElement]
  simp only [hcheck]

/-- **Conditions group to the left.** Putting the first clauses of a condition into
parentheses, behind any relation, and changing the relation of its first clause, in the
condition or in any that is nested or quantified in it, makes no difference to evaluating it:
on every subject and from every state it comes to the same truth value or failure, puts the
same questions in the same order, and keeps the same. -/
theorem run_holds_of_regroups {c c' : Condition} (h : Regroups c c') (examiner : Examiner)
    (s : Subject) (l : Lookups) :
    (holds examiner s c').run.run l = (holds examiner s c).run.run l := by
  suffices heq : holds examiner s c' = holds examiner s c by rw [heq]
  -- what is quantified is evaluated on other subjects
  induction h generalizing s with
  | group c k hk hc relation =>
    have htake : c.take k ≠ [] := by
      rw [← List.length_pos_iff, List.length_take]
      omega
    rw [holds_group htake, List.take_append_drop]
  | lead relation relation' element rest => rw [holds, holds]
  | nested _ front back relation ih =>
    refine holds_replace ?_ front back relation
    rw [holdsElement, holdsElement, ih]
  | quantified _ front back relation path q ih =>
    exact holds_replace (holdsElement_quantified_congr ih path q) front back relation

/-! ### A room for the night -/

/-- A room is on the house, or it has a bed that is wide or long, and free. -/
def roomForTheNight : Condition :=
  [⟨.and, .assertion "price" (.predicate .isEmpty)⟩,
    ⟨.or, .assertion "beds" (.quantified .any
      [⟨.and, .assertion "wide" (.predicate (.is (.boolean true)))⟩,
        ⟨.or, .assertion "long" (.predicate (.is (.boolean true)))⟩,
        ⟨.and, .assertion "guest" (.predicate .isEmpty)⟩])⟩]

/-- The same, with parentheses around what is asked of the size of a bed. -/
def roomForTheNightGrouped : Condition :=
  [⟨.and, .assertion "price" (.predicate .isEmpty)⟩,
    ⟨.or, .assertion "beds" (.quantified .any
      [⟨.or, .condition
          [⟨.and, .assertion "wide" (.predicate (.is (.boolean true)))⟩,
            ⟨.or, .assertion "long" (.predicate (.is (.boolean true)))⟩]⟩,
        ⟨.and, .assertion "guest" (.predicate .isEmpty)⟩])⟩]

/-- Answers for a room of two beds, the long one of which is free; its price is not known. -/
def roomExaminer : Examiner := fun _ path =>
  if path = "beds" then
    .ok (.list [.complex [("wide", .boolean true), ("guest", .string "ann")],
      .complex [("long", .boolean true)]])
  else if path = "price" then .ok (.primitive (.string "on request"))
  else .error (.discovery path "unreachable")

theorem run_holds_of_regroups_roomForTheNight :
    Regroups roomForTheNight roomForTheNightGrouped ∧
      (holds roomExaminer (.entry ⟨1, "rooms/1", "inn", "Room"⟩) roomForTheNightGrouped).run.run
          {} =
        (holds roomExaminer (.entry ⟨1, "rooms/1", "inn", "Room"⟩) roomForTheNight).run.run {} := by
  have hregroups : Regroups roomForTheNight roomForTheNightGrouped :=
    .quantified (.group _ 2 (by decide) (by decide) .or) [_] [] .or "beds" .any
  exact ⟨hregroups, run_holds_of_regroups hregroups roomExaminer _ {}⟩

/-- Parentheses around nothing are read, as an operand that holds. -/
example :
    let free : Condition := [⟨.or, .assertion "" (.predicate .isEmpty)⟩]
    let guest : Subject := .value (.primitive (.string "ann"))
    ((holds roomExaminer guest free).run.run {}).1 = .ok false ∧
      ((holds roomExaminer guest (⟨.and, .condition []⟩ :: free)).run.run {}).1 = .ok true :=
  ⟨rfl, rfl⟩

end ObjectQuery.Condition
