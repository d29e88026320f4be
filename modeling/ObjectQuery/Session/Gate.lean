import ObjectQuery.Session.Execute

/-!
# Gates

How much of a query is in flight at a time is held by a **gate** with as many permits as
the settings say. Runs are described here as if one entry and one row were in flight at a
time, so that all there is to say of the number is that it may be too great. A gate has at
most `Gate.maxPermits`: a run that comes to a query with a wider gate breaks off and has no
report. What counts is the gates that a run comes to, not those that its settings
would allow for.

What a script comes to by itself (`Script.execute`) leaves gates out. It is what the program
reports as long as the run comes to no gate that is too wide.
-/

namespace ObjectQuery

namespace Gate

/-- The greatest number of permits of a gate. -/
def maxPermits : Nat := 2305843009213693951

/-- A gate was to have more permits than it can. -/
def tooWide : Failure :=
  .execution ("a gate has at most " ++ Decimal.text maxPermits ++ " permits")

/-- The permits of the gate of a query, if it has one. An ordered query shares workers
among its rows, as many as the machine has when the settings leave it open; any other
query has a gate for its entries, if there are entries. -/
def permits? (settings : Settings) (q : QueryInstruction) (entries : List Entry) : Option Nat :=
  if q.sort.isEmpty then
    if entries.isEmpty then none else settings.entryPermits (!q.columns.isEmpty)
  else if settings.pipelineWorkers = 0 then none
  else some settings.pipelineWorkers

/-- Whether an instruction has a gate that can be, or none. -/
def admits (settings : Settings) (s : Store) : Instruction → Bool
  | .query q => (permits? settings q (s.get q.target)).all fun n => n ≤ maxPermits
  | _ => true

/-- Whether all gates that a run of a plan comes to can be. -/
def admitsPlan (a : Access) (settings : Settings) : Plan → Session → Bool
  | [], _ => true
  | i :: rest, session =>
    admits settings session.store i &&
      match (Execute.runInstruction a settings i).run session with
      | (.ok _, session) => admitsPlan a settings rest session
      | (.error _, _) => true

/-- Whether all gates that a run of a script comes to can be. -/
def admitsScript (a : Access) (settings : Settings) (script : Script) (session : Session) : Bool :=
  match Plan.ofScript script settings.defaultStrategy with
  | .ok plan => admitsPlan a settings plan session
  | .error _ => true

end Gate

end ObjectQuery
