import ObjectQuery.Proofs.Condition.Writing
import ObjectQuery.Proofs.Store.NameSet
import ObjectQuery.Script.Codec

/-!
# Scripts as they may be written

A script is written as records within records: its instructions, their clauses, predicates,
columns and sort keys. Each of them may be an object, with its fields in any order, or the array
of their values, whatever the others are (`Script.Written`); all these values are read as the same
script (`Script.ofValue?_of_written`).

What is written by itself is one of them, but only if the operands of predicates are in normal
form (`Script.written_toValue`): an object with its fields in disorder, or with a name that comes
twice, is put into order when it is read. A script that has been read is in normal form
(`Script.normal_of_ofValue?`), and so it is read again from what is written for it
(`Script.writing_round_trip`).
-/

namespace ObjectQuery

/-! ### Names and limits -/

theorem NameSet.ofValue?_toValue (names : NameSet) : ofValue? names.toValue = some names := by
  have hread : Record.listOf? Value.string? names.toValue = some names.toList := by
    refine Record.listOf?_eq_some ?_
    rw [List.forall₂_map_right_iff, List.forall₂_same]
    exact fun name _ => rfl
  rw [ofValue?, hread, Option.map_some, ofList_toList]

theorem Strategy.choice?_name (strategy : Strategy) :
    Record.choice? names .inScript (.string strategy.name) = some strategy := by
  cases strategy <;> rfl

theorem Instruction.limit?_ofInt (limit : Int64) : limit? (.ofInt limit.toInt) = some limit := by
  have hlower : Word.minSigned64 ≤ limit.toInt := limit.le_toInt
  have hupper : limit.toInt ≤ Word.maxSigned64 := Int.le_of_lt_add_one limit.toInt_lt
  have hinteger : (Value.ofInt limit.toInt).integer? = some limit.toInt := by
    have hrange : Word.minSigned64 ≤ limit.toInt ∧ limit.toInt ≤ Word.maxUnsigned64 :=
      ⟨hlower, Int.le_trans hupper (by decide)⟩
    rw [Value.ofInt, Number.ofInt, Integer.ofInt?, dif_pos hrange]
    rfl
  rw [limit?, hinteger, Option.bind_some, if_pos hupper, Int64.ofInt_toInt]

/-! ### Columns and sort keys -/

/-- A result column is written. -/
def ResultColumn.Written (c : ResultColumn) (v : Value) : Prop :=
  Record.Writes [("prop", .string c.path), ("title", .string c.title)] v

theorem ResultColumn.ofValue?_of_written {c : ResultColumn} {v : Value} (h : c.Written v) :
    ofValue? v = some c := by
  have hslots : Record.slots? ["prop", "title"] v =
      some [some (.string c.path), some (.string c.title)] :=
    Record.slots?_of_writes (by simp) h
  rw [ofValue?, hslots]
  rfl

/-- A sort key is written. -/
def SortKey.Written (k : SortKey) (v : Value) : Prop :=
  Record.Writes
    [("identifier", .string k.identifier), ("direction", .string k.direction.name)] v

theorem SortKey.ofValue?_of_written (place : Place) {k : SortKey} {v : Value} (h : k.Written v) :
    ofValue? place v = some k := by
  have hslots : Record.slots? ["identifier", "direction"] v =
      some [some (.string k.identifier), some (.string k.direction.name)] :=
    Record.slots?_of_writes (by simp) h
  rw [ofValue?, hslots]
  obtain ⟨identifier, direction⟩ := k
  cases direction <;> rfl

/-! ### Instructions -/

namespace Instruction

/-- The conditions of an instruction are in normal form. -/
def Normal : Instruction → Prop
  | .query q => Condition.Normal q.condition
  | .index _ | .update _ => True

/-- An instruction is written, its kind in front of its fields. -/
inductive Written : Instruction → Value → Prop
  | index {i : IndexInstruction} {v : Value}
    (hv : Record.Writes
      [("instruction", .string "index"), ("schemas", i.target.schemas.toValue),
        ("types", i.target.types.toValue), ("strategy", .string i.strategy.name),
        ("implicit", .boolean i.isImplicit)] v) : Written (.index i) v
  | query {q : QueryInstruction} {clauses columns keys : List Value} {v : Value}
    (hcondition : Condition.Written q.condition clauses)
    (hcolumns : List.Forall₂ ResultColumn.Written q.columns columns)
    (hsort : List.Forall₂ SortKey.Written q.sort keys)
    (hv : Record.Writes
      [("instruction", .string "query"), ("schemas", q.target.schemas.toValue),
        ("types", q.target.types.toValue), ("condition", .array clauses),
        ("limit", .ofInt q.limit.toInt), ("columns", .array columns), ("sort", .array keys)] v) :
    Written (.query q) v
  | update {u : UpdateInstruction} {v : Value}
    (hv : Record.Writes
      [("instruction", .string "update"), ("schemas", u.target.schemas.toValue),
        ("types", u.target.types.toValue)] v) : Written (.update u) v

/-- An instruction is read as its kind says, from its other fields. -/
theorem ofValue?_of_writes {kind : String} {fields : Fields} {v : Value}
    (hnodup : ((("instruction", Value.string kind) :: fields).map Prod.fst).Nodup)
    (h : Record.Writes (("instruction", .string kind) :: fields) v) :
    ∃ w, ofValue? v = ofKind? kind w ∧
      Record.slots? (fields.map Prod.fst) w = some (fields.map fun f => some f.2) := by
  cases h with
  | @object written hperm =>
    have hkind : Record.slot? written "instruction" = some (some (.string kind)) :=
      Record.slot?_of_perm hnodup hperm List.mem_cons_self
    refine ⟨.object written, ?_, Record.slots?_object
      ((hperm.map Prod.fst).nodup_iff.2 hnodup) fun f hf =>
        hperm.mem_iff.2 (List.mem_cons_of_mem _ hf)⟩
    rw [ofValue?, hkind]
  | positional => exact ⟨.array (fields.map Prod.snd), rfl, Record.slots?_positional fields⟩

theorem target?_toValue (t : Target) :
    target? (some t.schemas.toValue) (some t.types.toValue) = some t := by
  simp only [target?, Record.required, Record.optional, Option.bind_some, NameSet.ofValue?_toValue]
  rfl

/-- **An instruction is read as it is written.** -/
theorem ofValue?_of_written {i : Instruction} {v : Value} (h : i.Written v) :
    ofValue? v = some i := by
  cases h with
  | @index i v hv =>
    obtain ⟨w, hread, hslots⟩ := ofValue?_of_writes (by simp) hv
    have hindex : indexOf? w = some (.index i) := by
      simp only [List.map_cons, List.map_nil] at hslots
      simp only [indexOf?, hslots, target?_toValue, Record.optional, Strategy.choice?_name,
        Value.boolean?]
      rfl
    exact hread.trans hindex
  | @query q clauses columns keys v hcondition hcolumns hsort hv =>
    obtain ⟨w, hread, hslots⟩ := ofValue?_of_writes (by simp) hv
    have hclauses : Condition.ofValue? .inScript (.array clauses) = some q.condition :=
      Condition.clausesOf?_of_written hcondition
    have hcolumns : Record.listOf? ResultColumn.ofValue? (.array columns) = some q.columns :=
      Record.listOf?_eq_some (hcolumns.imp fun _ _ => ResultColumn.ofValue?_of_written)
    have hsort : Record.listOf? (SortKey.ofValue? .inScript) (.array keys) = some q.sort :=
      Record.listOf?_eq_some (hsort.imp fun _ _ => SortKey.ofValue?_of_written .inScript)
    have hquery : queryOf? w = some (.query q) := by
      simp only [List.map_cons, List.map_nil] at hslots
      simp only [queryOf?, hslots, target?_toValue, Record.optional, hclauses, limit?_ofInt,
        hcolumns, hsort]
      rfl
    exact hread.trans hquery
  | @update u v hv =>
    obtain ⟨w, hread, hslots⟩ := ofValue?_of_writes (by simp) hv
    have hupdate : updateOf? w = some (.update u) := by
      simp only [List.map_cons, List.map_nil] at hslots
      simp only [updateOf?, hslots, target?_toValue]
      rfl
    exact hread.trans hupdate

/-- An instruction in normal form is written as it stands. -/
theorem written_toValue {i : Instruction} (h : i.Normal) : i.Written i.toValue := by
  cases i with
  | index i => exact .index (Record.writes_object _)
  | query q =>
    have hcolumns : List.Forall₂ ResultColumn.Written q.columns
        (q.columns.map ResultColumn.toValue) := by
      rw [List.forall₂_map_right_iff, List.forall₂_same]
      exact fun c _ => Record.writes_object _
    have hsort : List.Forall₂ SortKey.Written q.sort (q.sort.map SortKey.toValue) := by
      rw [List.forall₂_map_right_iff, List.forall₂_same]
      exact fun k _ => Record.writes_object _
    exact .query (Condition.written_clauseValues h) hcolumns hsort (Record.writes_object _)
  | update u => exact .update (Record.writes_object _)

/-! ### What is read as an instruction -/

theorem normal_of_indexOf? {v : Value} {i : Instruction} (h : indexOf? v = some i) : i.Normal := by
  rw [indexOf?] at h
  split at h
  · simp only [Option.bind_eq_bind, Option.bind_eq_some_iff] at h
    obtain ⟨target, -, strategy, -, isImplicit, -, hi⟩ := h
    cases hi
    trivial
  · cases h

theorem normal_of_queryOf? {v : Value} {i : Instruction} (h : queryOf? v = some i) : i.Normal := by
  rw [queryOf?] at h
  split at h
  · next schemas types condition? limit? columns? sort? _ =>
    simp only [Option.bind_eq_bind, Option.bind_eq_some_iff] at h
    obtain ⟨target, -, clauses, hclauses, limit, -, columns, -, keys, -, hi⟩ := h
    cases hi
    cases condition? with
    | none =>
      cases hclauses
      trivial
    | some w => exact Condition.normal_of_ofValue? w hclauses
  · cases h

theorem normal_of_updateOf? {v : Value} {i : Instruction} (h : updateOf? v = some i) :
    i.Normal := by
  rw [updateOf?] at h
  split at h
  · simp only [Option.bind_eq_bind, Option.bind_eq_some_iff] at h
    obtain ⟨target, -, hi⟩ := h
    cases hi
    trivial
  · cases h

theorem normal_of_ofKind? {kind : String} {v : Value} {i : Instruction}
    (h : ofKind? kind v = some i) : i.Normal := by
  rw [ofKind?] at h
  split at h
  · exact normal_of_indexOf? h
  · split at h
    · exact normal_of_queryOf? h
    · split at h
      · exact normal_of_updateOf? h
      · cases h

/-- What is read as an instruction is in normal form. -/
theorem normal_of_ofValue? {v : Value} {i : Instruction} (h : ofValue? v = some i) : i.Normal := by
  rw [ofValue?.eq_def] at h
  split at h
  · split at h
    · exact normal_of_ofKind? h
    · cases h
  · exact normal_of_ofKind? h
  · cases h

end Instruction

/-! ### Scripts -/

namespace Script

/-- The conditions of a script are in normal form. -/
def Normal (s : Script) : Prop :=
  ∀ i ∈ s, i.Normal

/-- A script is written, each of its instructions in its own way. -/
inductive Written (s : Script) (v : Value) : Prop
  | instructions {items : List Value} (hitems : List.Forall₂ Instruction.Written s items)
    (hv : Record.Writes [("instructions", .array items)] v) : Written s v

/-- **A script is read as it is written.** -/
theorem ofValue?_of_written {s : Script} {v : Value} (h : s.Written v) : ofValue? v = some s := by
  obtain @⟨items, hitems, hv⟩ := h
  have hslots : Record.slots? ["instructions"] v = some [some (.array items)] :=
    Record.slots?_of_writes (by simp) hv
  rw [ofValue?, hslots]
  exact Record.listOf?_eq_some (hitems.imp fun _ _ => Instruction.ofValue?_of_written)

/-- A script in normal form is written as it stands. -/
theorem written_toValue {s : Script} (h : s.Normal) : s.Written s.toValue := by
  refine .instructions ?_ (Record.writes_object _)
  rw [List.forall₂_map_right_iff, List.forall₂_same]
  exact fun i hi => Instruction.written_toValue (h i hi)

/-- What is read as a script is in normal form. -/
theorem normal_of_ofValue? {v : Value} {s : Script} (h : ofValue? v = some s) : s.Normal := by
  rw [ofValue?] at h
  split at h
  · next instructions _ =>
    cases instructions with
    | none =>
      cases h
      exact fun i hi => absurd hi List.not_mem_nil
    | some w => exact Record.forall_of_listOf? (fun _ _ => Instruction.normal_of_ofValue?) h
  · cases h

/-- **Scripts survive being written and read.** A script with its operands in normal form is read
from the value that it is written as, and in whatever way its records are written, each for
itself: as an object with its fields in any order, or as the array of their values. And what has
been read from any value is in normal form, so that writing and reading it again changes
nothing. -/
theorem writing_round_trip :
    (∀ s : Script, s.Normal → s.Written s.toValue ∧ ofValue? s.toValue = some s) ∧
    (∀ (s : Script) (v : Value), s.Written v → ofValue? v = some s) ∧
    ∀ (v : Value) (s : Script), ofValue? v = some s → s.Normal ∧ ofValue? s.toValue = some s := by
  have hnormal : ∀ s : Script, s.Normal → ofValue? s.toValue = some s := fun s h =>
    ofValue?_of_written (written_toValue h)
  refine ⟨fun s h => ⟨written_toValue h, hnormal s h⟩, fun s v => ofValue?_of_written,
    fun v s h => ?_⟩
  have hs := normal_of_ofValue? h
  exact ⟨hs, hnormal s hs⟩

/-! ### A garden -/

/-- What is in the garden. -/
def garden : Target := { schemas := NameSet.ofList ["garden"] }

/-- Asks for what is ripe in the garden, or bears small plums. -/
def ripe : QueryInstruction where
  target := garden
  condition :=
    [⟨.and, .condition [⟨.or, .assertion "ripe" (.predicate .isPresent)⟩]⟩,
      ⟨.or, .assertion "fruits" (.quantified .any [⟨.and, .assertion "" (.predicate
        (.is (.object [("kind", .string "plum"), ("size", .ofNat 3)])))⟩])⟩]
  limit := -1
  columns := [⟨"name", "Name"⟩]
  sort := [⟨"Name", .descending⟩]

/-- Indexes the garden and asks for what is ripe in it. -/
def ripeScript : Script :=
  [.index { target := garden, strategy := .full }, .query ripe]

/-- The clause about what is ripe, as an object with its fields in another order. -/
def ripeClause : Value :=
  .object
    [("element", .object [("assertion", .array
        [.string "ripe", .object [("predicate", .array [.string "is_present", .null])]])]),
      ("relation", .string "OR")]

/-- The clause about plums, all of it positional, with an operand in disorder. -/
def plumClause : Value :=
  .array [.string "AND", .object [("assertion", .array
    [.string "", .object [("predicate", .array
      [.string "is", .object [("size", .ofNat 3), ("kind", .string "plum")]])]])]]

/-- The condition. -/
def ripeClauses : List Value :=
  [.array [.string "AND", .object [("condition", .array [ripeClause])]],
    .array [.string "OR", .object [("assertion", .array
      [.string "fruits", .object [("quantified", .array
        [.string "any", .array [plumClause]])]])]]]

/-- The script. -/
def ripeValue : Value :=
  .array [.array
    [.array [.string "index", .ofStrings ["garden"], .ofStrings [], .string "full", .boolean false],
      .array [.string "query", .ofStrings ["garden"], .ofStrings [], .array ripeClauses,
        .ofInt (-1), .array [.array [.string "name", .string "Name"]],
        .array [.array [.string "Name", .string "desc"]]]]]

theorem written_ripeClauses : Condition.Written ripe.condition ripeClauses := by
  have hripe : Condition.Written [⟨.or, .assertion "ripe" (.predicate .isPresent)⟩]
      [ripeClause] :=
    .cons (.assertion (.predicate (.withOperand .isPresent .positional)) .positional)
      (.object (.swap _ _ _)) .nil
  have hplum : Condition.Written [⟨.and, .assertion "" (.predicate
      (.is (.object [("kind", .string "plum"), ("size", .ofNat 3)])))⟩] [plumClause] :=
    .cons (.assertion (.predicate (.withOperand (.is rfl) .positional)) .positional) .positional
      .nil
  exact .cons (.condition hripe) .positional
    (.cons (.assertion (.quantified hplum .positional) .positional) .positional .nil)

theorem writing_round_trip_ripe :
    (ripeScript.Normal ∧ ripeScript.Written ripeValue) ∧
    (ripeScript.Written ripeScript.toValue ∧ ofValue? ripeScript.toValue = some ripeScript) ∧
    ofValue? ripeValue = some ripeScript := by
  have hplum : (Value.object [("kind", .string "plum"), ("size", .ofNat 3)]).Normal := by
    refine .object (List.pairwise_pair.2 (by decide)) fun f hf => ?_
    rcases List.mem_pair.1 hf with rfl | rfl
    · exact .string "plum"
    · exact .number _
  have hnormal : ripeScript.Normal := by
    intro i hi
    rcases List.mem_pair.1 hi with rfl | rfl
    · trivial
    · exact ⟨⟨trivial, trivial⟩, ⟨hplum, trivial⟩, trivial⟩
  have hwritten : ripeScript.Written ripeValue := by
    have hquery : (Instruction.query ripe).Written _ :=
      .query written_ripeClauses (.cons .positional .nil) (.cons .positional .nil) .positional
    exact .instructions (.cons (.index .positional) (.cons hquery .nil)) .positional
  obtain ⟨hstands, hreads, hagain⟩ := writing_round_trip
  have hread : ofValue? ripeValue = some ripeScript := hreads _ _ hwritten
  exact ⟨⟨hnormal, hwritten⟩, ⟨(hstands _ hnormal).1, (hagain _ _ hread).2⟩, hread⟩

end Script

end ObjectQuery
