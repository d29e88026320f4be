import ObjectQuery.Predicate.Basic

/-!
# Conditions

A condition is a list of clauses, each an element behind a relation. It is folded
**from left to right without precedence**: `a OR b AND c` means `(a OR b) AND c`,
and the relation of the first clause has no part in it. An element is an assertion
about one path or a nested condition; an assertion checks what its path finds with
a predicate, or asks of the elements of a list that any, all or none of them fulfil
a condition of their own.
-/

namespace ObjectQuery

/-- How a clause is joined to the ones before it. -/
inductive Relation where
  | and
  | or
deriving DecidableEq

/-- How many elements of a list have to fulfil a condition. -/
inductive Quantifier where
  | any
  | all
  | none
deriving DecidableEq

mutual

/-- An operand of a condition. -/
inductive Element where
  | assertion (path : String) (check : Check)
  | condition (clauses : List Clause)

/-- What is asked of a found value. -/
inductive Check where
  | predicate (p : Predicate)
  | quantified (quantifier : Quantifier) (clauses : List Clause)

/-- An operand and the relation in front of it. -/
structure Clause where
  relation : Relation
  element : Element

end

/-- A condition: its clauses, from left to right. -/
abbrev Condition := List Clause

/-! ### Text -/

/-- The word of a relation. -/
def Relation.text : Relation → String
  | .and => "AND"
  | .or => "OR"

/-- The word of a quantifier. -/
def Quantifier.text : Quantifier → String
  | .any => "any_match"
  | .all => "all_match"
  | .none => "none_match"

mutual

/-- An element as it is written in an instruction. -/
def Element.text : Element → String
  | .assertion path check => path ++ " " ++ check.text
  | .condition clauses => "(" ++ Condition.bareText clauses ++ ")"

/-- A check as it is written in an instruction. -/
def Check.text : Check → String
  | .predicate p => p.text
  | .quantified quantifier clauses =>
    quantifier.text ++ " (" ++ Condition.bareText clauses ++ ")"

/-- A condition as it is written in an instruction, without parentheses around it. -/
def Condition.bareText : List Clause → String
  | [] => ""
  | ⟨_, element⟩ :: rest => element.text ++ Condition.restText rest

/-- The clauses behind the first, each with its relation. -/
def Condition.restText : List Clause → String
  | [] => ""
  | ⟨relation, element⟩ :: rest =>
    " " ++ relation.text ++ " " ++ element.text ++ Condition.restText rest

end

/-- A condition between parentheses. -/
def Condition.text (c : Condition) : String :=
  "(" ++ Condition.bareText c ++ ")"

end ObjectQuery
