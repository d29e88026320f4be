import ObjectQuery.Condition.Codec
import ObjectQuery.Json.Document
import ObjectQuery.Script.Basic

/-!
# Scripts as JSON

A script is a record of its instructions, and an instruction is a record whose field
`instruction` says which kind it is; in positional form that field comes first. Every
field of an instruction but its schemas may be left out. What is written has every
field, so that reading it again needs no defaults.
-/

namespace ObjectQuery

/-! ### Result columns -/

/-- Reads a result column. -/
def ResultColumn.ofValue? (v : Value) : Option ResultColumn :=
  match Record.slots? ["prop", "title"] v with
  | some [prop, title] => do
    return {
      path := ← Record.required Value.string? prop
      title := ← Record.required Value.string? title }
  | _ => none

/-- A result column as JSON. -/
def ResultColumn.toValue (c : ResultColumn) : Value :=
  .object [("prop", .string c.path), ("title", .string c.title)]

/-! ### Instructions -/

namespace Instruction

/-- The target that two fields give, the types being left open when there are none. -/
def target? (schemas types : Option Value) : Option Target := do
  return {
    schemas := ← Record.required NameSet.ofValue? schemas
    types := ← Record.optional .empty NameSet.ofValue? types }

/-- An integer that fits in a signed 64-bit word. -/
def limit? (v : Value) : Option Int64 :=
  v.integer?.bind fun i => if i ≤ Word.maxSigned64 then some (Int64.ofInt i) else none

/-- Reads the fields of an index. -/
def indexOf? (v : Value) : Option Instruction :=
  match Record.slots? ["schemas", "types", "strategy", "implicit"] v with
  | some [schemas, types, strategy, isImplicit] => do
    return .index {
      target := ← target? schemas types
      strategy := ←
        Record.optional .initial (Record.choice? Strategy.names .inScript) strategy
      isImplicit := ← Record.optional false Value.boolean? isImplicit }
  | _ => none

/-- Reads the fields of a query. -/
def queryOf? (v : Value) : Option Instruction :=
  match Record.slots? ["schemas", "types", "condition", "limit", "columns", "sort"] v with
  | some [schemas, types, condition, limit, columns, sort] => do
    return .query {
      target := ← target? schemas types
      condition := ← Record.optional [] (Condition.ofValue? .inScript) condition
      limit := ← Record.optional 0 limit? limit
      columns := ← Record.optional [] (Record.listOf? ResultColumn.ofValue?) columns
      sort := ← Record.optional [] (Record.listOf? (SortKey.ofValue? .inScript)) sort }
  | _ => none

/-- Reads the fields of an update. -/
def updateOf? (v : Value) : Option Instruction :=
  match Record.slots? ["schemas", "types"] v with
  | some [schemas, types] => do return .update { target := ← target? schemas types }
  | _ => none

/-- Reads an instruction of the kind that a name says, from its other fields. -/
def ofKind? (kind : String) (v : Value) : Option Instruction :=
  if kind == "index" then indexOf? v
  else if kind == "query" then queryOf? v
  else if kind == "update" then updateOf? v
  else none

/-- Reads an instruction. -/
def ofValue? : Value → Option Instruction
  | .object fields =>
    match Record.slot? fields "instruction" with
    | some (some (.string kind)) => ofKind? kind (.object fields)
    | _ => none
  | .array (.string kind :: rest) => ofKind? kind (.array rest)
  | _ => none

/-- An instruction as JSON. -/
def toValue : Instruction → Value
  | .index i =>
    .object
      [("instruction", .string "index"), ("schemas", i.target.schemas.toValue),
       ("types", i.target.types.toValue), ("strategy", .string i.strategy.name),
       ("implicit", .boolean i.isImplicit)]
  | .query q =>
    .object
      [("instruction", .string "query"), ("schemas", q.target.schemas.toValue),
       ("types", q.target.types.toValue), ("condition", Condition.toValue q.condition),
       ("limit", .ofInt q.limit.toInt), ("columns", .array (q.columns.map ResultColumn.toValue)),
       ("sort", .array (q.sort.map SortKey.toValue))]
  | .update u =>
    .object
      [("instruction", .string "update"), ("schemas", u.target.schemas.toValue),
       ("types", u.target.types.toValue)]

end Instruction

/-! ### Scripts -/

namespace Script

/-- Reads a script. -/
def ofValue? (v : Value) : Option Script :=
  match Record.slots? ["instructions"] v with
  | some [instructions] =>
    Record.optional [] (Record.listOf? Instruction.ofValue?) instructions
  | _ => none

/-- Reads a script from a text. Fields that a script does not have are passed over
without a look at their values. -/
def parse? (text : String) : Option Script := do
  let doc ← Document.parse? text
  ofValue? (← (doc.keeping ["instructions"]).value? Document.maxDepth)

/-- A script as JSON. -/
def toValue (s : Script) : Value :=
  .object [("instructions", .array (s.map Instruction.toValue))]

end Script

end ObjectQuery
