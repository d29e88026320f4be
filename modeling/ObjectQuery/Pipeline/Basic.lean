import ObjectQuery.Pipeline.Stage

/-!
# Pipelines

A pipeline is a list of steps. Before any row moves, every step is turned into a
stage by following the projection that is in effect: the one of the nearest
projecting step before it, or else the one that the input declares. A sorting step
needs a projection and may only name columns of it, and a pipeline in which one does
not is refused as a whole. Then the stages run one after another.
-/

namespace ObjectQuery

/-- A step of a pipeline. -/
inductive Step where
  | filter (condition : Condition)
  | project (target : Projection)
  | sort (keys : List SortKey)

namespace Pipeline

/-- A sorting step in front of which nothing is projected. -/
def noProjection : Failure :=
  .pipeline "sorting requires a projection stream"

/-- A sorting step that names no column. -/
def unknownIdentifier (name : String) : Failure :=
  .pipeline ("unknown sort identifier '" ++ name ++ "'")

/-- The stage of a step, given the projection in effect in front of it. -/
def stage (declared? : Option Projection) : Step → Except Failure Stage
  | .filter condition => .ok (.filter condition declared?)
  | .project target => .ok (.project target declared?)
  | .sort keys =>
    match declared? with
    | none => .error noProjection
    | some projection =>
      match Sorting.positions projection keys with
      | .ok positions => .ok (.sort positions projection)
      | .error name => .error (unknownIdentifier name)

/-- The stages of steps, given the projection in effect in front of them. -/
def stages (declared? : Option Projection) : List Step → Except Failure (List Stage)
  | [] => .ok []
  | step :: rest => do
    let first ← stage declared? step
    return first :: (← stages first.declares rest)

/-- Runs stages one after another and gives the output of each. -/
def outputs (examiner : Examiner) (noneFirst : Bool) (input : Stream) :
    List Stage → StateM Lookups (List Stream)
  | [] => return []
  | s :: rest => do
    let out ← s.run examiner noneFirst input
    return out :: (← outputs examiner noneFirst out rest)

/-- The stream that a list of stages makes of an input. -/
def lastOutput (input : Stream) (outs : List Stream) : Stream :=
  outs.getLast?.getD input

/-- The rows that steps make of a source of entries. -/
def collect (examiner : Examiner) (noneFirst : Bool) (steps : List Step)
    (source : List (Except Failure Entry)) : LookupM (List Row) := do
  let input := Stream.scan source
  let stages ← ExceptT.mk (pure (stages none steps))
  let outs ← outputs examiner noneFirst input stages
  return (lastOutput input outs).rows

end Pipeline

end ObjectQuery
