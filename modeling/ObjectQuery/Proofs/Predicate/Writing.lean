import ObjectQuery.Predicate.Codec
import ObjectQuery.Proofs.Json.Normal
import ObjectQuery.Proofs.Json.Record

/-!
# Predicates as they may be written

A predicate is a record of its name and its operand, and may be written as one
(`Predicate.Written`). The operand of a predicate is in normal form, and may be written with the
fields of its objects in any order (`Predicate.Operand`). The two predicates that have no operand
are written by their names alone, or with `null` in its place.

However it is written, the predicate is read again (`Predicate.ofValue?_of_written`). All that is
read has its operands in normal form (`Predicate.normal_of_ofValue?`), and those are what can be
written (`Predicate.written_toValue`).
-/

namespace ObjectQuery.Predicate

/-! ### Names -/

/-- The name of a kind. -/
def Kind.name : Kind → String
  | .is => "is"
  | .isNot => "not"
  | .isIn => "in"
  | .isEmpty => "is_empty"
  | .isPresent => "is_present"
  | .contains => "contains"
  | .startsWith => "starts_with"
  | .endsWith => "ends_with"
  | .overlaps => "overlaps"
  | .hasSize => "has_size"
  | .listContains => "list_contains"
  | .containsExactly => "contains_exactly"
  | .containsExactlyInAnyOrder => "contains_exactly_in_any_order"

theorem lookup_name (k : Kind) : names.lookup k.name = some k := by
  cases k <;> rfl

/-- The kind of a predicate. -/
def kind : Predicate → Kind
  | .is _ => .is
  | .isNot _ => .isNot
  | .isIn _ => .isIn
  | .isEmpty => .isEmpty
  | .isPresent => .isPresent
  | .contains _ => .contains
  | .startsWith _ => .startsWith
  | .endsWith _ => .endsWith
  | .overlaps _ => .overlaps
  | .hasSize _ => .hasSize
  | .listContains _ => .listContains
  | .containsExactly _ => .containsExactly
  | .containsExactlyInAnyOrder _ => .containsExactlyInAnyOrder

/-! ### Operands -/

/-- The operands of a predicate are in normal form. -/
def Normal : Predicate → Prop
  | .is operand | .isNot operand => operand.Normal
  | .isIn operands | .listContains operands | .containsExactly operands
  | .containsExactlyInAnyOrder operands => ∀ operand ∈ operands, operand.Normal
  | .overlaps fields => (Value.object fields).Normal
  | .isEmpty | .isPresent | .contains _ | .startsWith _ | .endsWith _ | .hasSize _ => True

/-- The operand of a predicate is written, the objects in it with their fields in any order; for
a predicate that has none there is `null`. -/
inductive Operand : Predicate → Value → Prop
  | is {v operand : Value} (h : v.normalize = operand) : Operand (.is operand) v
  | isNot {v operand : Value} (h : v.normalize = operand) : Operand (.isNot operand) v
  | isIn {vs operands : List Value} (h : vs.map Value.normalize = operands) :
    Operand (.isIn operands) (.array vs)
  | isEmpty : Operand .isEmpty .null
  | isPresent : Operand .isPresent .null
  | contains (part : String) : Operand (.contains part) (.string part)
  | startsWith (start : String) : Operand (.startsWith start) (.string start)
  | endsWith (ending : String) : Operand (.endsWith ending) (.string ending)
  | overlaps {v : Value} {fields : Fields} (h : v.normalize = .object fields) :
    Operand (.overlaps fields) v
  | hasSize (size : UInt64) : Operand (.hasSize size) (.ofNat size.toNat)
  | listContains {vs operands : List Value} (h : vs.map Value.normalize = operands) :
    Operand (.listContains operands) (.array vs)
  | containsExactly {vs operands : List Value} (h : vs.map Value.normalize = operands) :
    Operand (.containsExactly operands) (.array vs)
  | containsExactlyInAnyOrder {vs operands : List Value} (h : vs.map Value.normalize = operands) :
    Operand (.containsExactlyInAnyOrder operands) (.array vs)

theorem operands?_array {vs operands : List Value} (h : vs.map Value.normalize = operands) :
    operands? (.array vs) = some operands := by
  refine Record.listOf?_eq_some ?_
  rw [← h, List.forall₂_map_left_iff, List.forall₂_same]
  exact fun v _ => rfl

theorem size?_ofNat (size : UInt64) : size? (.ofNat size.toNat) = some size := by
  have hle : size.toNat ≤ Word.maxUnsigned64 := Nat.le_of_lt_succ size.toNat_lt
  have hval : (Integer.ofNat size.toNat).val = size.toNat := Int.min_eq_left (Int.ofNat_le.2 hle)
  have hinteger : (Value.ofNat size.toNat).integer? = some (size.toNat : Int) :=
    congrArg some hval
  rw [size?, Value.natural?, hinteger, Option.bind_some, if_pos (Int.natCast_nonneg _),
    Int.toNat_natCast, Option.map_some, UInt64.ofNat_toNat]

/-- **An operand is read as it is written.** -/
theorem ofKind?_of_operand {p : Predicate} {v : Value} (h : p.Operand v) :
    ofKind? p.kind (some v) = some p := by
  cases h with
  | is h => exact congrArg (fun operand => some (Predicate.is operand)) h
  | isNot h => exact congrArg (fun operand => some (Predicate.isNot operand)) h
  | isIn h => exact congrArg (Option.map Predicate.isIn) (operands?_array h)
  | isEmpty => rfl
  | isPresent => rfl
  | contains part => rfl
  | startsWith start => rfl
  | endsWith ending => rfl
  | @overlaps v fields h =>
    have hfields : fields? v = some fields := by rw [fields?, h]
    exact congrArg (Option.map Predicate.overlaps) hfields
  | hasSize size => exact congrArg (Option.map Predicate.hasSize) (size?_ofNat size)
  | listContains h => exact congrArg (Option.map Predicate.listContains) (operands?_array h)
  | containsExactly h => exact congrArg (Option.map Predicate.containsExactly) (operands?_array h)
  | containsExactlyInAnyOrder h =>
    exact congrArg (Option.map Predicate.containsExactlyInAnyOrder) (operands?_array h)

/-! ### Predicates -/

/-- A predicate is written: as a record of its name and its operand, or by its name alone if it
has none. -/
inductive Written (p : Predicate) (v : Value) : Prop
  | withOperand {operand : Value} (hoperand : p.Operand operand)
    (hv : Record.Writes [("op", .string p.kind.name), ("value", operand)] v) : Written p v
  | alone (hp : p = .isEmpty ∨ p = .isPresent)
    (hv : v = .object [("op", .string p.kind.name)]) : Written p v

/-- **A predicate is read as it is written.** -/
theorem ofValue?_of_written (place : Place) {p : Predicate} {v : Value} (h : p.Written v) :
    ofValue? place v = some p := by
  cases h with
  | @withOperand operand hoperand hv =>
    have hlookup := lookup_name p.kind
    have hread := ofKind?_of_operand hoperand
    have hslots : Record.slots? ["op", "value"] v =
        some [some (.string p.kind.name), some operand] := Record.slots?_of_writes (by simp) hv
    cases hv with
    | object hperm =>
      rw [ofValue?, hslots]
      simp only [Record.required, Option.bind_some, Record.choice?, hlookup, hread]
    | positional =>
      simp only [List.map_cons, List.map_nil, ofValue?, kindInFront?, hlookup, Option.bind_some,
        hread]
  | alone hp hv =>
    subst hv
    rcases hp with rfl | rfl <;> rfl

/-- A predicate with its operands in normal form is written as it stands. -/
theorem written_toValue {p : Predicate} (h : p.Normal) : p.Written p.toValue := by
  have hrecord : ∀ operand, p.Operand operand → p.toValue = record p.kind.name operand →
      p.Written p.toValue := by
    intro operand hoperand hvalue
    rw [hvalue]
    exact .withOperand hoperand (Record.writes_object _)
  have hoperands : ∀ operands : List Value, (∀ operand ∈ operands, operand.Normal) →
      operands.map Value.normalize = operands := fun operands hall =>
    (List.map_congr_left fun v hv => Value.normalize_of_normal (hall v hv)).trans (List.map_id' _)
  cases p with
  | is operand => exact hrecord _ (.is (Value.normalize_of_normal h)) rfl
  | isNot operand => exact hrecord _ (.isNot (Value.normalize_of_normal h)) rfl
  | isIn operands => exact hrecord _ (.isIn (hoperands operands h)) rfl
  | isEmpty => exact .alone (.inl rfl) rfl
  | isPresent => exact .alone (.inr rfl) rfl
  | contains part => exact hrecord _ (.contains part) rfl
  | startsWith start => exact hrecord _ (.startsWith start) rfl
  | endsWith ending => exact hrecord _ (.endsWith ending) rfl
  | overlaps fields => exact hrecord _ (.overlaps (Value.normalize_of_normal h)) rfl
  | hasSize size => exact hrecord _ (.hasSize size) rfl
  | listContains operands => exact hrecord _ (.listContains (hoperands operands h)) rfl
  | containsExactly operands => exact hrecord _ (.containsExactly (hoperands operands h)) rfl
  | containsExactlyInAnyOrder operands =>
    exact hrecord _ (.containsExactlyInAnyOrder (hoperands operands h)) rfl

/-- An operand in disorder is put into order. -/
example : ofValue? .inScript (is (.object [("size", .null), ("kind", .null)])).toValue =
    some (is (.object [("kind", .null), ("size", .null)])) := by
  rfl

/-! ### What is read -/

theorem normal_of_operands? {v : Value} {operands : List Value} (h : operands? v = some operands) :
    ∀ operand ∈ operands, operand.Normal := by
  refine Record.forall_of_listOf? (fun w operand hread => ?_) h
  cases hread
  exact w.normal_normalize

theorem normal_of_fields? {v : Value} {fields : Fields} (h : fields? v = some fields) :
    (Value.object fields).Normal := by
  rw [fields?] at h
  split at h
  · next hnormal =>
    cases h
    rw [← hnormal]
    exact v.normal_normalize
  · cases h

/-- What is made of what is required has been read. -/
theorem exists_of_required {α : Type} {read? : Value → Option α} {make : α → Predicate}
    {operand? : Option Value} {p : Predicate}
    (h : (Record.required read? operand?).map make = some p) :
    ∃ v x, read? v = some x ∧ make x = p := by
  obtain ⟨x, hx, rfl⟩ := Option.map_eq_some_iff.1 h
  obtain ⟨v, -, hv⟩ := Option.bind_eq_some_iff.1 hx
  exact ⟨v, x, hv, rfl⟩

theorem normal_of_ofKind? {k : Kind} {operand? : Option Value} {p : Predicate}
    (h : ofKind? k operand? = some p) : p.Normal := by
  cases k with
  | is =>
    obtain ⟨v, -, rfl⟩ := Option.map_eq_some_iff.1 h
    exact v.normal_normalize
  | isNot =>
    obtain ⟨v, -, rfl⟩ := Option.map_eq_some_iff.1 h
    exact v.normal_normalize
  | isEmpty =>
    rw [ofKind?] at h
    split at h <;> cases h
    trivial
  | isPresent =>
    rw [ofKind?] at h
    split at h <;> cases h
    trivial
  | overlaps =>
    obtain ⟨v, fields, hread, rfl⟩ := exists_of_required h
    exact normal_of_fields? hread
  | isIn | listContains | containsExactly | containsExactlyInAnyOrder =>
    obtain ⟨v, operands, hread, rfl⟩ := exists_of_required h
    exact normal_of_operands? hread
  | contains | startsWith | endsWith | hasSize =>
    obtain ⟨v, x, -, rfl⟩ := exists_of_required h
    trivial

/-- **All that is read has its operands in normal form.** -/
theorem normal_of_ofValue? {place : Place} {v : Value} {p : Predicate}
    (h : ofValue? place v = some p) : p.Normal := by
  rw [ofValue?.eq_def] at h
  split at h
  · obtain ⟨k, -, hk⟩ := Option.bind_eq_some_iff.1 h
    exact normal_of_ofKind? hk
  · split at h
    · obtain ⟨k, -, hk⟩ := Option.bind_eq_some_iff.1 h
      exact normal_of_ofKind? hk
    · cases h
  · cases h

end ObjectQuery.Predicate
