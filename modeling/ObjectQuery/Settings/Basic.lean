import ObjectQuery.Json.Record
import ObjectQuery.Store.Entry

/-!
# Settings

Settings say where values of the none family are sorted and which strategy an
implicit index has, and bound how much work is in flight at a time.

With more than one entry or row in flight it is open which of them is done with first. So
the bounds can show in what a query with a limit and without an order keeps, and in the
order of the rows that leave a filter or a projection. Here runs deal with one entry and
one row at a time, as they do with a bound of one everywhere.
-/

namespace ObjectQuery

/-- The settings of a run. Counts fit in 64 bits. -/
structure Settings where
  /-- Whether the entries in flight are bounded at all. -/
  useSemaphore : Bool := true
  filterPermits : Nat := 5
  projectionPermits : Nat := 10
  /-- How many rows of a stage are in flight; zero leaves it to the machine. -/
  pipelineWorkers : Nat := 0
  nullsFirst : Bool := true
  defaultStrategy : Strategy := .initial
deriving DecidableEq

namespace Settings

/-- How many entries may be in flight, with or without columns to show. Where they are
bounded there is room for one at least. -/
def entryPermits (s : Settings) (projecting : Bool) : Option Nat :=
  if s.useSemaphore then some (max 1 (if projecting then s.projectionPermits else s.filterPermits))
  else none

/-- The names of the settings, in order. -/
def names : List String :=
  ["use_semaphore", "filter_permits", "projection_permits", "pipeline_workers",
   "nulls_first", "default_strategy"]

/-- Reads settings, all of which have to be there. -/
def ofValue? (v : Value) : Option Settings :=
  match Record.slots? names v with
  | some [useSemaphore, filter, projection, workers, nullsFirst, strategy] => do
    return {
      useSemaphore := ← Record.required Value.boolean? useSemaphore
      filterPermits := ← Record.required Value.natural? filter
      projectionPermits := ← Record.required Value.natural? projection
      pipelineWorkers := ← Record.required Value.natural? workers
      nullsFirst := ← Record.required Value.boolean? nullsFirst
      defaultStrategy := ← Record.required (Record.choice? Strategy.names .alone) strategy }
  | _ => none

/-- Settings as JSON. -/
def toValue (s : Settings) : Value :=
  .object
    [("use_semaphore", .boolean s.useSemaphore), ("filter_permits", .ofNat s.filterPermits),
     ("projection_permits", .ofNat s.projectionPermits),
     ("pipeline_workers", .ofNat s.pipelineWorkers), ("nulls_first", .boolean s.nullsFirst),
     ("default_strategy", .string s.defaultStrategy.name)]

end Settings

end ObjectQuery
