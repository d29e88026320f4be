import ObjectQuery.Condition.Basic
import ObjectQuery.Report.Cell
import ObjectQuery.Sorting

/-!
# Scripts

A script is a list of instructions, each about a target. **Indexing** makes the entries
of its target known; a **query** asks for those that fulfil a condition, shows
columns of them, and may sort and limit the rows; an **update** can be written down
but not be run. Every instruction has a canonical text, which is what reports call it
by.
-/

namespace ObjectQuery

/-- Makes the entries of a target known. An index that no one wrote, but that a query
needed, is implicit. -/
structure IndexInstruction where
  target : Target
  strategy : Strategy := .initial
  isImplicit : Bool := false
deriving DecidableEq

/-- Asks for the entries of a target that fulfil a condition. A limit that is not
positive is none. -/
structure QueryInstruction where
  target : Target
  condition : Condition := []
  limit : Int64 := 0
  columns : List ResultColumn := []
  sort : List SortKey := []

/-- Asks for a change, which is not supported. -/
structure UpdateInstruction where
  target : Target
deriving DecidableEq

/-- An instruction of a script. -/
inductive Instruction where
  | index (i : IndexInstruction)
  | query (q : QueryInstruction)
  | update (u : UpdateInstruction)

/-- A script: its instructions, in order. -/
abbrev Script := List Instruction

/-- The target of an instruction. -/
def Instruction.target : Instruction → Target
  | .index i => i.target
  | .query q => q.target
  | .update u => u.target

/-- Whether an index is about exactly the target of a query. -/
def IndexInstruction.covers (i : IndexInstruction) (q : QueryInstruction) : Bool :=
  i.target == q.target

/-! ### Text -/

/-- A set of names: one phrase for none, one with the name itself, one with a list. -/
def NameSet.phrase (names : NameSet) (none one many : String) : String :=
  match names.toList with
  | [] => none
  | [name] => one ++ name ++ " "
  | _ => many ++ names.text ++ " "

/-- The canonical text of an index. -/
def IndexInstruction.text (i : IndexInstruction) : String :=
  "index " ++ i.target.types.phrase "" "type " "types "
    ++ i.target.schemas.phrase "everywhere " "in schema " "in schemas "
    ++ "with method " ++ i.strategy.text

/-- The condition of a query, as its text shows it. -/
def QueryInstruction.conditionText (q : QueryInstruction) : String :=
  if q.condition.isEmpty then "true" else Condition.bareText q.condition

/-- The limit of a query, as its text shows it. -/
def QueryInstruction.limitText (q : QueryInstruction) : String :=
  if 0 < q.limit.toInt then " limit " ++ Decimal.integerText q.limit.toInt else ""

/-- The canonical text of a query. -/
def QueryInstruction.text (q : QueryInstruction) : String :=
  "select " ++ q.target.types.phrase "every type " "type " "types "
    ++ "from " ++ q.target.schemas.phrase "every schema " "schema " "schemas "
    ++ "where " ++ q.conditionText ++ q.limitText

/-- The canonical text of an update. -/
def UpdateInstruction.text (u : UpdateInstruction) : String :=
  "update types " ++ u.target.types.text ++ " in schemas " ++ u.target.schemas.text

/-- The canonical text of an instruction. -/
def Instruction.text : Instruction → String
  | .index i => i.text
  | .query q => q.text
  | .update u => u.text

end ObjectQuery
