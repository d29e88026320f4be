import ObjectQuery.Session.Gate
import ObjectQuery.Settings.Layers

/-!
# The command line

The program is given the texts of a store, a script and perhaps settings, runs the
script on the store, and prints the report. A store is an array of records, each an
object with its versions, oldest first; an object without versions has the version
`null`.
-/

namespace ObjectQuery

namespace CommandLine

/-! ### Stores -/

/-- An object of a store, as it is written down. -/
structure ObjectRecord where
  uri : String
  schema : String
  type : String
  versions : List Value

/-- The names of the fields of a stored object, in order. -/
def fieldNames : List String :=
  ["uri", "schema", "type", "versions"]

/-- Reads an object of a store. -/
def ObjectRecord.ofValue? (v : Value) : Option ObjectRecord :=
  match Record.slots? fieldNames v with
  | some [uri, schema, type, versions] => do
    return {
      uri := ← Record.required Value.string? uri
      schema := ← Record.required Value.string? schema
      type := ← Record.required Value.string? type
      versions := ←
        Record.required (Record.listOf? fun v => some v.normalize) versions }
  | _ => none

/-- Reads an object of a store from a document. -/
def ObjectRecord.ofDocument? (doc : Document) : Option ObjectRecord := do
  ofValue? (← (doc.keeping fieldNames).value? (Document.maxDepth - 1))

/-- Adds an object with its versions to a store. -/
def ObjectRecord.addTo (r : ObjectRecord) (s : Store) : Store :=
  let id := (s.nextEntry r.uri r.schema r.type).id
  let s := s.add r.uri r.schema r.type (r.versions.headD .null)
  (r.versions.drop 1).foldl (fun s v => (s.addVersion id v).toOption.getD s) s

/-- The store that records describe. -/
def storeOf (records : List ObjectRecord) : Store :=
  records.foldl (fun s r => r.addTo s) {}

/-- Reads a store from a text. Fields that a stored object does not have are passed over
without a look at their values. -/
def parseStore? (text : String) : Option Store :=
  match Document.parse? text with
  | some (.array items) => (items.mapM ObjectRecord.ofDocument?).map storeOf
  | _ => none

/-! ### Running -/

/-- Runs a script on a store of its own. -/
def report (settings : Settings) (store : Store) (script : Script) : Except Failure Report :=
  if Gate.admitsScript store.access settings script { store } then
    .ok (script.execute store.access settings { store }).1
  else .error Gate.tooWide

/-- What has to be given. -/
def usage : Failure :=
  .settings "usage: <store.json> <script.json> [settings file]"

/-- The report for the texts of the files given: a store, a script, and a settings file
that may be left out. Further files are passed over. -/
def run (vars : List (String × String)) : List String → Except Failure Report
  | store :: script :: rest => do
    let settings ← (Settings.load? rest.head? vars).elim
      (.error (.settings "the settings cannot be read")) .ok
    let store ← (parseStore? store).elim (.error (.execution "the store cannot be read")) .ok
    let script ← (Script.parse? script).elim (.error (.execution "the script cannot be read")) .ok
    report settings store script
  | _ => .error usage

end CommandLine

end ObjectQuery
