import ObjectQuery.Json.Document
import ObjectQuery.Settings.Address
import ObjectQuery.Settings.Basic

/-!
# Settings in layers

Settings are gathered from three layers, of which a later one wins: what is built in,
a file that holds a JSON object, and environment variables whose names begin with
`variablePrefix` in any case. Names that are no settings are passed over. A setting may
also be given in part, by an address; a part replaces the setting as a whole, unless both
are tables.

A layer gives **raw** settings, which are coerced to what the setting has to be. Words
and numbers may stand for truth values, and truth values, texts and fractions for
counts; a fraction is rounded, half away from zero, and a count is held to 64 bits
from above and, when it was no whole number, to zero from below. A strategy is
written by its exact name.
-/

namespace ObjectQuery

/-- A setting as a layer gives it. -/
inductive RawSetting where
  | truth (b : Bool)
  | whole (i : Int)
  | fraction (d : Double)
  /-- Greater than every count, or less when negative. -/
  | infinite (negative : Bool)
  | notANumber
  | text (s : String)
  /-- A table, by the names in it. -/
  | table (names : List String)
  | other
deriving DecidableEq

/-- The settings of one layer, by name. -/
abbrev Layer := List (String × RawSetting)

namespace RawSetting

/-! ### Letter case -/

/-- The lower case of a character, as far as it matters to ASCII names: of the others
only the Kelvin sign has its lower case in ASCII. -/
def lowerChar (c : Char) : Char :=
  if 'A' ≤ c ∧ c ≤ 'Z' then Char.ofNat (c.toNat + 32)
  else if c = '\u212a' then 'k'
  else c

/-- A text in lower case. -/
def lower (s : String) : String :=
  String.ofList (s.toList.map lowerChar)

/-! ### Reading a layer -/

/-- A JSON value as a raw setting. -/
def ofValue : Value → RawSetting
  | .boolean b => .truth b
  | .number (.integer i) => .whole i.val
  | .number (.double d) => .fraction d
  | .string s => .text s
  | .object fields => .table (fields.map Prod.fst)
  | _ => .other

/-- A run of digits, possibly empty, and what follows it. -/
def digits (cs : List Char) : List Nat × List Char :=
  Document.digitRun cs

/-- A decimal fraction without a sign: digits on at least one side of an optional point,
and an optional exponent. -/
def decimal? (negative : Bool) (cs : List Char) : Option Numeral :=
  let (front, rest) := digits cs
  let (back, rest) := match rest with
    | '.' :: rest => digits rest
    | rest => ([], rest)
  if front.isEmpty && back.isEmpty then none
  else match Document.exponent? rest with
    | some (exponent, []) => some { negative, whole := front, fraction := back, exponent }
    | _ => none

/-- A text that stands for a number which need not be whole. -/
def fraction? (s : String) : Option RawSetting :=
  let (negative, cs) := match s.toList with
    | '-' :: cs => (true, cs)
    | '+' :: cs => (false, cs)
    | cs => (false, cs)
  let word := String.ofList (cs.map lowerChar)
  if word == "inf" || word == "infinity" then some (.infinite negative)
  else if word == "nan" then some .notANumber
  else (decimal? negative cs).map fun n => match n.nearest? with
    | some d => .fraction d
    | none => .infinite negative

/-- The text of a variable as a raw setting: a truth value, a whole number that fits in a
signed 64-bit word, or a fraction, if it looks like one. -/
def ofText (s : String) : RawSetting :=
  if lower s == "true" then .truth true
  else if lower s == "false" then .truth false
  else match Decimal.integerIn? Word.minSigned64 Word.maxSigned64 s.toList with
    | some i => .whole i
    | none => (fraction? s).getD (.text s)

/-! ### Parts of settings -/

/-- What a setting becomes when a raw setting is given for the part that steps lead to. -/
def inPart : List SettingStep → RawSetting → RawSetting
  | [], raw => raw
  | .entry name :: _, _ => .table [name]
  | .item :: _, _ => .other

/-- A raw setting given on top of another: tables are joined, anything else replaces what
is below it. -/
def onTop : Option RawSetting → RawSetting → RawSetting
  | some (.table names), .table more => .table (names ++ more.filter (!names.contains ·))
  | _, raw => raw

/-! ### Coercion -/

/-- The words for true and false. -/
def truthWords : List (String × Bool) :=
  [("1", true), ("true", true), ("on", true), ("yes", true),
   ("0", false), ("false", false), ("off", false), ("no", false)]

/-- The words for one and zero. -/
def countWords : List (String × Nat) :=
  [("true", 1), ("on", 1), ("yes", 1), ("false", 0), ("off", 0), ("no", 0)]

/-- A raw setting as a truth value. -/
def truth? : RawSetting → Option Bool
  | .truth b => some b
  | .whole i => some (i != 0)
  | .fraction d => some !d.isZero
  | .infinite _ => some true
  | .notANumber => some true
  | .text s => truthWords.lookup (lower s)
  | _ => none

/-- A raw setting as a count. -/
def count? : RawSetting → Option Nat
  | .truth b => some (if b then 1 else 0)
  | .whole i => if 0 ≤ i then some i.toNat else none
  | .fraction d => some (min d.round.toNat Word.maxUnsigned64)
  | .infinite negative => some (if negative then 0 else Word.maxUnsigned64)
  | .notANumber => some 0
  | .text s => (countWords.lookup (lower s)).or (Decimal.unsignedUpTo? Word.maxUnsigned64 s.toList)
  | _ => none

/-- A raw setting as a strategy: its name, or a table with that name alone. -/
def strategy? : RawSetting → Option Strategy
  | .text s => Strategy.names.lookup s
  | .table [name] => Strategy.names.lookup name
  | _ => none

end RawSetting

namespace Settings

/-! ### Layers -/

/-- A raw setting given under a name or an address. -/
def given (address : String) (raw : RawSetting) : String × RawSetting :=
  let a := Address.parse address
  (a.name, raw.inPart a.steps)

/-- What is built in. -/
def defaults : Layer :=
  let s : Settings := {}
  [("use_semaphore", .truth s.useSemaphore), ("filter_permits", .whole s.filterPermits),
   ("projection_permits", .whole s.projectionPermits),
   ("pipeline_workers", .whole s.pipelineWorkers), ("nulls_first", .truth s.nullsFirst),
   ("default_strategy", .text s.defaultStrategy.name)]

/-- What the names of environment variables begin with, in lower case. -/
def variablePrefix : String := "arcscript_"

/-- The text of a file behind the byte order mark that may lead it. -/
def withoutMark (text : String) : String :=
  match text.toList with
  | '\ufeff' :: rest => String.ofList rest
  | _ => text

/-- The layer of a file, which has to hold a JSON object. -/
def fileLayer? (text : String) : Option Layer :=
  match Value.parse? (withoutMark text) with
  | some (.object fields) => some (fields.map fun (name, v) => given name (.ofValue v))
  | _ => none

/-- The layer of environment variables, given by name and text. -/
def variableLayer (vars : List (String × String)) : Layer :=
  vars.filterMap fun (name, text) =>
    (variablePrefix.toList.isPrefixOf? (RawSetting.lower name).toList).map fun rest =>
      given (String.ofList rest) (.ofText text)

/-- What the settings of a name come to, a later one on top of those before it. -/
def raw? (layer : Layer) (name : String) : Option RawSetting :=
  layer.foldl (fun below (n, raw) => if n == name then some (raw.onTop below) else below) none

/-- Coerces gathered settings. -/
def ofLayer? (layer : Layer) : Option Settings := do
  let truth name := (raw? layer name).bind RawSetting.truth?
  let count name := (raw? layer name).bind RawSetting.count?
  return {
    useSemaphore := ← truth "use_semaphore"
    filterPermits := ← count "filter_permits"
    projectionPermits := ← count "projection_permits"
    pipelineWorkers := ← count "pipeline_workers"
    nullsFirst := ← truth "nulls_first"
    defaultStrategy := ← (raw? layer "default_strategy").bind RawSetting.strategy? }

/-- Gathers settings from what is built in, a file if there is one, and environment
variables. -/
def load? (file : Option String) (vars : List (String × String)) : Option Settings := do
  let fromFile ← match file with
    | some text => fileLayer? text
    | none => some []
  ofLayer? (defaults ++ fromFile ++ variableLayer vars)

end Settings

end ObjectQuery
