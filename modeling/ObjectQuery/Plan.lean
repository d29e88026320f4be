import ObjectQuery.Script.Basic
import ObjectQuery.Failure

/-!
# Plans

A script is planned before it runs. Every index and every query has to name at least
one schema, or the script is refused as a whole. A query whose exact target no index
of the script in front of it is about gets an **implicit** index right in front of
it; an index put in for another query does not count.
-/

namespace ObjectQuery

/-- The instructions that run. -/
abbrev Plan := List Instruction

namespace Plan

/-! ### Refusal -/

/-- Whether an instruction has to name a schema and does not. -/
def lacksSchema : Instruction → Bool
  | .index i => i.target.schemas.isEmpty
  | .query q => q.target.schemas.isEmpty
  | .update _ => false

/-- An instruction that should name a schema does not. -/
def schemaRequired (i : Instruction) : Failure :=
  .impermissible "instruction must name at least one schema" i.text

/-! ### Implicit indexes -/

/-- Whether an instruction is an index of exactly the target of a query. -/
def isIndexFor (q : QueryInstruction) : Instruction → Bool
  | .index i => i.covers q
  | _ => false

/-- The index that a query needs when nothing in front of it indexed its target. -/
def implicitFor (q : QueryInstruction) (strategy : Strategy) : Instruction :=
  .index { target := q.target, strategy, isImplicit := true }

/-- An instruction with the index it needs, given the instructions in front of it. -/
def withIndex (strategy : Strategy) (before : List Instruction) :
    Instruction → List Instruction
  | .query q =>
    if before.any (isIndexFor q) then [.query q] else [implicitFor q strategy, .query q]
  | i => [i]

/-- Instructions with the indexes they need, given the instructions in front of them. -/
def withIndexes (strategy : Strategy) (before : List Instruction) :
    List Instruction → List Instruction
  | [] => []
  | i :: rest => withIndex strategy before i ++ withIndexes strategy (before ++ [i]) rest

/-- Plans a script. -/
def ofScript (s : Script) (strategy : Strategy) : Except Failure Plan :=
  match s.find? lacksSchema with
  | some i => .error (schemaRequired i)
  | none => .ok (withIndexes strategy [] s)

/-- Whether an instruction is an implicit index. -/
def isImplicit : Instruction → Bool
  | .index i => i.isImplicit
  | _ => false

/-- How many instructions of a plan are implicit indexes. -/
def implicitCount (p : Plan) : Nat :=
  p.countP isImplicit

end Plan

end ObjectQuery
