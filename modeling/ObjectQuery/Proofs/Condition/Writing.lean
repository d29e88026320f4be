import ObjectQuery.Condition.Codec
import ObjectQuery.Proofs.Predicate.Writing

/-!
# Conditions as they may be written

Clauses, assertions and quantified checks are records, each of which may be written in its own
way, whatever is chosen for those around it and within it (`Condition.Written`). Reading goes
through a value once, and does not put a record together before it reads what is in it; so the
first thing to see is that it reads the two fields of a record apart and joins them
(`Condition.clauseOf?_of_writes` and the two like it). Then a condition is read as it is written
(`Condition.clausesOf?_of_written`), and from what is read it can be written
(`Condition.normal_of_ofValue?`, `Condition.written_clauseValues`).
-/

namespace ObjectQuery

/-! ### Normal form -/

mutual

/-- The predicates of an element have their operands in normal form. -/
def Element.Normal : Element → Prop
  | .assertion _ check => check.Normal
  | .condition clauses => Condition.Normal clauses

/-- The predicates of a check have their operands in normal form. -/
def Check.Normal : Check → Prop
  | .predicate p => p.Normal
  | .quantified _ clauses => Condition.Normal clauses

/-- The predicates of a condition have their operands in normal form. -/
def Condition.Normal : List Clause → Prop
  | [] => True
  | ⟨_, element⟩ :: rest => element.Normal ∧ Condition.Normal rest

end

/-! ### Written forms -/

mutual

/-- An element is written. -/
inductive Element.Written : Element → Value → Prop
  | assertion {path : String} {check : Check} {w v : Value} (hcheck : Check.Written check w)
    (hv : Record.Writes [("path", .string path), ("check", w)] v) :
    Element.Written (.assertion path check) (.object [("assertion", v)])
  | condition {clauses : List Clause} {vs : List Value} (h : Condition.Written clauses vs) :
    Element.Written (.condition clauses) (.object [("condition", .array vs)])

/-- A check is written. -/
inductive Check.Written : Check → Value → Prop
  | predicate {p : Predicate} {v : Value} (h : p.Written v) :
    Check.Written (.predicate p) (.object [("predicate", v)])
  | quantified {q : Quantifier} {clauses : List Clause} {ws : List Value} {v : Value}
    (h : Condition.Written clauses ws)
    (hv : Record.Writes
      [("quantifier", Condition.quantifierValue q), ("condition", .array ws)] v) :
    Check.Written (.quantified q clauses) (.object [("quantified", v)])

/-- The clauses of a condition are written one by one. -/
inductive Condition.Written : List Clause → List Value → Prop
  | nil : Condition.Written [] []
  | cons {relation : Relation} {element : Element} {rest : List Clause} {w v : Value}
    {vs : List Value} (helement : Element.Written element w)
    (hv : Record.Writes [("relation", Condition.relationValue relation), ("element", w)] v)
    (hrest : Condition.Written rest vs) :
    Condition.Written (⟨relation, element⟩ :: rest) (v :: vs)

end

namespace Condition

/-! ### Records of two fields -/

theorem elementsIn_eq (place : Place) (fields : Fields) :
    elementsIn place fields = (Record.occurrences fields "element").map (elementOf? place) :=
  Record.eq_map_occurrences rfl (fun _ _ _ => by rw [elementsIn]) fields

theorem checksIn_eq (place : Place) (fields : Fields) :
    checksIn place fields = (Record.occurrences fields "check").map (checkOf? place) :=
  Record.eq_map_occurrences rfl (fun _ _ _ => by rw [checksIn]) fields

theorem conditionsIn_eq (place : Place) (fields : Fields) :
    conditionsIn place fields = (Record.occurrences fields "condition").map (ofValue? place) :=
  Record.eq_map_occurrences rfl (fun _ _ _ => by rw [conditionsIn]) fields

/-- A clause is read as its relation and its element are. -/
theorem clauseOf?_of_writes (place : Place) {relation w v : Value}
    (h : Record.Writes [("relation", relation), ("element", w)] v) :
    clauseOf? place v = clause? place relation (elementOf? place w) := by
  cases h with
  | @object written hperm =>
    have hrelation : Record.slot? written "relation" = some (some relation) :=
      Record.slot?_of_perm (by simp) hperm List.mem_cons_self
    have helement : elementsIn place written = [elementOf? place w] := by
      rw [elementsIn_eq, Record.occurrences_of_perm (v := w) (by simp) hperm (by simp)]
      rfl
    rw [clauseOf?, hrelation, helement]
  | positional => rfl

/-- An assertion is read as its path and its check are. -/
theorem assertionOf?_of_writes (place : Place) {path w v : Value}
    (h : Record.Writes [("path", path), ("check", w)] v) :
    assertionOf? place v = assertion? path (checkOf? place w) := by
  cases h with
  | @object written hperm =>
    have hpath : Record.slot? written "path" = some (some path) :=
      Record.slot?_of_perm (by simp) hperm List.mem_cons_self
    have hcheck : checksIn place written = [checkOf? place w] := by
      rw [checksIn_eq, Record.occurrences_of_perm (v := w) (by simp) hperm (by simp)]
      rfl
    rw [assertionOf?, hpath, hcheck]
  | positional => rfl

/-- A quantified check in a script is read as its quantifier and its condition are. -/
theorem quantifiedOf?_of_writes {quantifier w v : Value}
    (h : Record.Writes [("quantifier", quantifier), ("condition", w)] v) :
    quantifiedOf? .inScript v = quantified? .inScript quantifier (ofValue? .inScript w) := by
  cases h with
  | @object written hperm =>
    have hquantifier : Record.slot? written "quantifier" = some (some quantifier) :=
      Record.slot?_of_perm (by simp) hperm List.mem_cons_self
    have hcondition : conditionsIn .inScript written = [ofValue? .inScript w] := by
      rw [conditionsIn_eq, Record.occurrences_of_perm (v := w) (by simp) hperm (by simp)]
      rfl
    rw [quantifiedOf?, hquantifier, hcondition]
  | positional => rfl

/-! ### Reading what is written -/

mutual

/-- An element is read as it is written. -/
theorem elementOf?_of_written {e : Element} {v : Value} (h : e.Written v) :
    elementOf? .inScript v = some e := by
  cases h with
  | assertion hcheck hv =>
    have hread := checkOf?_of_written hcheck
    have hassertion := assertionOf?_of_writes .inScript hv
    rw [hread] at hassertion
    exact hassertion
  | condition h => exact congrArg (Option.map Element.condition) (clausesOf?_of_written h)

/-- A check is read as it is written. -/
theorem checkOf?_of_written {c : Check} {v : Value} (h : c.Written v) :
    checkOf? .inScript v = some c := by
  cases h with
  | predicate h =>
    exact congrArg (Option.map Check.predicate) (Predicate.ofValue?_of_written .inScript h)
  | @quantified q clauses ws v h hv =>
    have hread : ofValue? .inScript (.array ws) = some clauses := clausesOf?_of_written h
    have hquantified := quantifiedOf?_of_writes hv
    rw [hread] at hquantified
    cases q <;> exact hquantified

/-- **A condition is read as it is written.** -/
theorem clausesOf?_of_written {clauses : List Clause} {vs : List Value}
    (h : Condition.Written clauses vs) : clausesOf? .inScript vs = some clauses := by
  cases h with
  | nil => rfl
  | @cons relation element rest w v vs helement hv hrest =>
    have hread := elementOf?_of_written helement
    have hclause := clauseOf?_of_writes .inScript hv
    rw [hread] at hclause
    have hclause' : clauseOf? .inScript v = some ⟨relation, element⟩ := by
      cases relation <;> exact hclause
    rw [clausesOf?, hclause', clausesOf?_of_written hrest]
    rfl

end

/-! ### Writing in normal form -/

mutual

theorem written_elementValue : ∀ {e : Element}, e.Normal → e.Written (elementValue e)
  | .assertion _ _, h => .assertion (written_checkValue h) (Record.writes_object _)
  | .condition _, h => .condition (written_clauseValues h)

theorem written_checkValue : ∀ {c : Check}, c.Normal → c.Written (checkValue c)
  | .predicate _, h => .predicate (Predicate.written_toValue h)
  | .quantified _ _, h => .quantified (written_clauseValues h) (Record.writes_object _)

/-- **A condition in normal form is written as it stands.** -/
theorem written_clauseValues : ∀ {clauses : List Clause}, Condition.Normal clauses →
    Condition.Written clauses (clauseValues clauses)
  | [], _ => .nil
  | ⟨_, _⟩ :: _, h =>
    .cons (written_elementValue h.1) (Record.writes_object _) (written_clauseValues h.2)

end

/-! ### What is read -/

theorem element_of_clause? {place : Place} {relation : Value} {element? : Option Element}
    {clause : Clause} (h : clause? place relation element? = some clause) :
    element? = some clause.element := by
  obtain ⟨r, -, hr⟩ := Option.bind_eq_some_iff.1 h
  obtain ⟨e, he, hclause⟩ := Option.bind_eq_some_iff.1 hr
  cases hclause
  exact he

theorem exists_of_assertion? {path : Value} {check? : Option Check} {e : Element}
    (h : assertion? path check? = some e) :
    ∃ path' check, check? = some check ∧ e = .assertion path' check := by
  obtain ⟨path', -, hpath⟩ := Option.bind_eq_some_iff.1 h
  obtain ⟨check, hcheck, he⟩ := Option.bind_eq_some_iff.1 hpath
  cases he
  exact ⟨path', check, hcheck, rfl⟩

theorem exists_of_quantified? {place : Place} {quantifier : Value}
    {clauses? : Option (List Clause)} {c : Check}
    (h : quantified? place quantifier clauses? = some c) :
    ∃ q clauses, clauses? = some clauses ∧ c = .quantified q clauses := by
  obtain ⟨q, -, hq⟩ := Option.bind_eq_some_iff.1 h
  obtain ⟨clauses, hclauses, hc⟩ := Option.bind_eq_some_iff.1 hq
  cases hc
  exact ⟨q, clauses, hclauses, rfl⟩

mutual

/-- **What is read as a condition is in normal form.** -/
theorem normal_of_ofValue? {place : Place} (v : Value) {c : List Clause}
    (h : ofValue? place v = some c) : Condition.Normal c := by
  rw [ofValue?.eq_def] at h
  split at h
  · next items => exact normal_of_clausesOf? items h
  · cases h
termination_by sizeOf v

theorem normal_of_clausesOf? {place : Place} (items : List Value) {c : List Clause}
    (h : clausesOf? place items = some c) : Condition.Normal c := by
  rw [clausesOf?.eq_def] at h
  split at h
  · cases h
    trivial
  · next v rest =>
    split at h
    · next clause hclause =>
      obtain ⟨relation, element⟩ := clause
      obtain ⟨clauses, hclauses, rfl⟩ := Option.map_eq_some_iff.1 h
      exact ⟨normal_of_clauseOf? v hclause, normal_of_clausesOf? rest hclauses⟩
    · cases h
termination_by sizeOf items

theorem normal_of_clauseOf? {place : Place} (v : Value) {clause : Clause}
    (h : clauseOf? place v = some clause) : clause.element.Normal := by
  rw [clauseOf?.eq_def] at h
  split at h
  · next fields =>
    split at h
    · next relation element? hrelation helement =>
      rw [elementsIn_eq] at helement
      obtain ⟨w, hw, hread⟩ := Record.exists_of_map_occurrences helement
      exact normal_of_elementOf? w (hread.trans (element_of_clause? h))
    · cases h
  · next relation w => exact normal_of_elementOf? w (element_of_clause? h)
  · cases h
termination_by sizeOf v

theorem normal_of_elementOf? {place : Place} (v : Value) {e : Element}
    (h : elementOf? place v = some e) : e.Normal := by
  rw [elementOf?.eq_def] at h
  split at h
  · next name w =>
    split at h
    · exact normal_of_assertionOf? w h
    · split at h
      · obtain ⟨clauses, hclauses, rfl⟩ := Option.map_eq_some_iff.1 h
        exact normal_of_ofValue? w hclauses
      · cases h
  · cases h
termination_by sizeOf v

theorem normal_of_assertionOf? {place : Place} (v : Value) {e : Element}
    (h : assertionOf? place v = some e) : e.Normal := by
  rw [assertionOf?.eq_def] at h
  split at h
  · next fields =>
    split at h
    · next path check? hpath hcheck =>
      rw [checksIn_eq] at hcheck
      obtain ⟨w, hw, hread⟩ := Record.exists_of_map_occurrences hcheck
      obtain ⟨path', check, rfl, rfl⟩ := exists_of_assertion? h
      exact normal_of_checkOf? w hread
    · cases h
  · next path w =>
    obtain ⟨path', check, hread, rfl⟩ := exists_of_assertion? h
    exact normal_of_checkOf? w hread
  · cases h
termination_by sizeOf v

theorem normal_of_checkOf? {place : Place} (v : Value) {c : Check}
    (h : checkOf? place v = some c) : c.Normal := by
  rw [checkOf?.eq_def] at h
  split at h
  · next name w =>
    split at h
    · obtain ⟨p, hp, rfl⟩ := Option.map_eq_some_iff.1 h
      exact Predicate.normal_of_ofValue? hp
    · split at h
      · exact normal_of_quantifiedOf? w h
      · cases h
  · cases h
termination_by sizeOf v

theorem normal_of_quantifiedOf? {place : Place} (v : Value) {c : Check}
    (h : quantifiedOf? place v = some c) : c.Normal := by
  rw [quantifiedOf?.eq_def] at h
  split at h
  · next fields =>
    split at h
    · next quantifier clauses? hquantifier hclauses =>
      rw [conditionsIn_eq] at hclauses
      obtain ⟨w, hw, hread⟩ := Record.exists_of_map_occurrences hclauses
      obtain ⟨q, clauses, rfl, rfl⟩ := exists_of_quantified? h
      exact normal_of_ofValue? w hread
    · cases h
  · next quantifier w =>
    split at h
    · obtain ⟨q, clauses, hread, rfl⟩ := exists_of_quantified? h
      exact normal_of_ofValue? w hread
    · cases h
  · cases h
termination_by sizeOf v

end

end Condition

end ObjectQuery
