import ObjectQuery.Discovery.Path
import ObjectQuery.Failure
import ObjectQuery.Store.Entry

/-!
# The store

A store holds objects, each with the history of its **versions**, oldest first, and
remembers which entries are **indexed**. Entries are numbered from one in the order
they are added. Only indexed entries are listed; indexing a target adds the entries
it covers at that time, and nothing ever leaves the index.

A path is looked up on the history of an object: on its only version as it stands,
and otherwise on the newest version that can follow it, so that a version which
cannot does not hide what an earlier one shows.
-/

namespace ObjectQuery

/-- A stored object: its entry and its versions, oldest first. -/
structure StoredObject where
  entry : Entry
  versions : List Value

/-- A store of versioned objects. -/
structure Store where
  objects : List StoredObject := []
  /-- The numbers of the indexed entries, ascending. -/
  indexed : List Nat := []

namespace Store

/-! ### Growing -/

/-- The entry that the next object to be added gets. -/
def nextEntry (s : Store) (uri schema type : String) : Entry :=
  ⟨s.objects.length + 1, uri, schema, type⟩

/-- Stores an object as the first version of a new entry. -/
def add (s : Store) (uri schema type : String) (object : Value) : Store :=
  { s with objects := s.objects ++ [⟨s.nextEntry uri schema type, [object]⟩] }

/-- The object of a number. -/
def find? (s : Store) (id : Nat) : Option StoredObject :=
  s.objects.find? fun o => o.entry.id == id

/-- There is no object of a number. -/
def unknownEntry (id : Nat) : Failure :=
  .index ("unknown entry " ++ Decimal.text id)

/-- Appends a version to the history of an object. -/
def addVersion (s : Store) (id : Nat) (object : Value) : Except Failure Store :=
  match s.find? id with
  | none => .error (unknownEntry id)
  | some _ =>
    .ok { s with objects := s.objects.map fun o =>
      if o.entry.id == id then { o with versions := o.versions ++ [object] } else o }

/-! ### Indexing -/

/-- Puts a number in its place in an ascending list, unless it is there. -/
def insertId (id : Nat) : List Nat → List Nat
  | [] => [id]
  | n :: rest =>
    if id < n then id :: n :: rest
    else if id = n then n :: rest
    else n :: insertId id rest

/-- The stored entries that a target covers. -/
def covered (s : Store) (t : Target) : List Entry :=
  (s.objects.map (·.entry)).filter t.covers

/-- Indexes the entries that a target covers, and counts them; nothing happens on
demand. -/
def refresh (s : Store) (strategy : Strategy) (t : Target) : Nat × Store :=
  if strategy.fetches then
    let entries := s.covered t
    (entries.length,
      { s with indexed := entries.foldl (fun ids e => insertId e.id ids) s.indexed })
  else (0, s)

/-- The indexed entries that a target covers, in the order of their numbers. -/
def get (s : Store) (t : Target) : List Entry :=
  (s.indexed.filterMap fun id => (s.find? id).map (·.entry)).filter t.covers

/-! ### Looking up -/

/-- What a path finds on a history of versions, oldest first. -/
def resolveVersions (versions : List Value) (path : String) : Found :=
  match versions with
  | [only] => only.resolve path
  | versions =>
    ((versions.reverse.map (·.resolve path)).find? fun f => !f.isNotFound).getD .noValue

/-- The versions behind an entry cannot be had. -/
def unreachable (e : Entry) : Failure :=
  .discovery "" (e.uri ++ " is unreachable")

/-- The versions behind an entry, oldest first. -/
def versions (s : Store) (e : Entry) : Except Failure (List Value) :=
  match s.find? e.id with
  | some o => .ok o.versions
  | none => .error (unreachable e)

/-- What a path finds on the object behind an entry. -/
def examine (s : Store) (e : Entry) (path : String) : Except Failure Found :=
  (s.versions e).map fun versions => resolveVersions versions path

end Store

end ObjectQuery
