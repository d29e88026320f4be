import Mathlib.Data.List.Basic
import ObjectQuery.Proofs.Text.Decimal
import ObjectQuery.Report.Position

/-!
# Where a message points

A **marker** is `line`, a run of digits, `column` and another run of digits (`Marker.Heads`). It
points at a place if its digits are ASCII and its numbers are those of 32-bit words
(`Marker.Points`), and what should become of a message is told by the first marker that does so
(`Report.Classifies`).

What becomes of it is told by the first marker of all, in the digits of any script
(`Marker.position?_eq_some_iff`). The two agree where that marker points at a place, for a marker
that does is also one in the digits of any script (`Marker.Points.exists_heads`), so that none is
passed over on the way. They disagree where the first marker has a number that cannot be read, and
another marker points at a place, or the same one but for a digit of another script at its end.
`Report.ofMessage_by_first_marker` says that there is no other case, and
`Report.ofMessage_stops_at_unreadable` shows one.
-/

namespace ObjectQuery

namespace Marker

/-! ### Markers -/

/-- A marker stands at the head of a text: its two runs of digits with the words around them, the
second run as long as it goes. What counts as a digit is left open. -/
inductive Heads (digit : Char → Bool) : List Char × List Char → List Char → Prop
  | intro {line column rest : List Char} (hline : line ≠ []) (hcolumn : column ≠ [])
    (hlineDigits : ∀ c ∈ line, digit c = true) (hcolumnDigits : ∀ c ∈ column, digit c = true)
    (hrest : Text.Stops digit rest) :
    Heads digit (line, column)
      ("line ".toList ++ (line ++ (", column ".toList ++ (column ++ rest))))

/-- What stands first in a text: at some position, and nothing of its kind in front of it. -/
def First {α : Type} (Stands : α → List Char → Prop) (text : List Char) (a : α) : Prop :=
  ∃ i, Stands a (text.drop i) ∧ ∀ j < i, ∀ b, ¬Stands b (text.drop j)

theorem digitRun?_eq_some_iff {cs run rest : List Char} :
    digitRun? cs = some (run, rest) ↔
      run ≠ [] ∧ cs = run ++ rest ∧ (∀ c ∈ run, Text.isDecimalDigit c = true) ∧
        Text.Stops Text.isDecimalDigit rest := by
  rw [← Text.span_eq_iff, digitRun?]
  split
  · next h =>
    rw [h]
    refine iff_of_false nofun ?_
    rintro ⟨hrun, heq⟩
    exact hrun (Prod.mk.inj heq).1.symm
  · next h =>
    rw [Option.some.injEq]
    refine ⟨fun heq => ⟨?_, heq⟩, And.right⟩
    rintro rfl
    exact h _ heq

theorem here?_eq_some_iff {digits : List Char × List Char} {cs : List Char} :
    here? cs = some digits ↔ Heads Text.isDecimalDigit digits cs := by
  obtain ⟨line, column⟩ := digits
  simp only [here?, Option.bind_eq_bind, Option.bind_eq_some_iff,
    List.isPrefixOf?_eq_some_iff_append_eq, Prod.exists, digitRun?_eq_some_iff, Option.pure_def,
    Option.some.injEq, Prod.mk.injEq]
  constructor
  · rintro ⟨_, rfl, line', _, ⟨hline, rfl, hlineDigits, -⟩, _, rfl, column', rest,
      ⟨hcolumn, rfl, hcolumnDigits, hrest⟩, rfl, rfl⟩
    exact .intro hline hcolumn hlineDigits hcolumnDigits hrest
  · rintro ⟨hline, hcolumn, hlineDigits, hcolumnDigits, hrest⟩
    -- The comma behind the first run is no digit, so that the run ends there.
    exact ⟨_, rfl, line, _, ⟨hline, rfl, hlineDigits, Text.stops_cons (by decide)⟩, _, rfl,
      column, _, ⟨hcolumn, rfl, hcolumnDigits, hrest⟩, rfl, rfl⟩

theorem here?_eq_none_iff {cs : List Char} :
    here? cs = none ↔ ∀ digits, ¬Heads Text.isDecimalDigit digits cs := by
  rw [Option.eq_none_iff_forall_ne_some]
  exact forall_congr' fun digits => not_congr here?_eq_some_iff

theorem not_heads_nil {digit : Char → Bool} (digits : List Char × List Char) :
    ¬Heads digit digits [] := by
  intro h
  generalize hnil : [] = text at h
  cases h
  cases hnil

theorem Heads.ne_nil {digit : Char → Bool} {line column text : List Char}
    (h : Heads digit (line, column) text) : line ≠ [] ∧ column ≠ [] := by
  cases h with
  | intro hline hcolumn => exact ⟨hline, hcolumn⟩

/-! ### The first marker -/

theorem first_cons_iff {α : Type} {Stands : α → List Char → Prop} {c : Char} {cs : List Char}
    {a : α} : First Stands (c :: cs) a ↔
      Stands a (c :: cs) ∨ (∀ b, ¬Stands b (c :: cs)) ∧ First Stands cs a := by
  constructor
  · rintro ⟨i, h, hfirst⟩
    cases i with
    | zero => exact .inl h
    | succ i =>
      exact .inr ⟨hfirst 0 (Nat.succ_pos i), i, h, fun j hj => hfirst (j + 1) (Nat.succ_lt_succ hj)⟩
  · rintro (h | ⟨hnone, i, h, hfirst⟩)
    · exact ⟨0, h, nofun⟩
    · refine ⟨i + 1, h, fun j hj => ?_⟩
      cases j with
      | zero => exact hnone
      | succ j => exact hfirst j (Nat.lt_of_succ_lt_succ hj)

theorem first?_eq_some_iff {text : List Char} {digits : List Char × List Char} :
    first? text = some digits ↔ First (Heads Text.isDecimalDigit) text digits := by
  induction text with
  | nil =>
    refine iff_of_false nofun ?_
    rintro ⟨i, h, -⟩
    rw [List.drop_nil] at h
    exact not_heads_nil digits h
  | cons c cs ih =>
    rw [first?, Option.or_eq_some_iff, here?_eq_some_iff, here?_eq_none_iff, ih, first_cons_iff]

/-- The first marker of a message, in the digits of any script. -/
def IsFirst (message : String) (line column : List Char) : Prop :=
  First (Heads Text.isDecimalDigit) message.toList (line, column)

theorem isFirst_iff {message : String} {line column : List Char} :
    first? message.toList = some (line, column) ↔ IsFirst message line column :=
  first?_eq_some_iff

theorem IsFirst.unique {message : String} {line column line' column' : List Char}
    (h : IsFirst message line column) (h' : IsFirst message line' column') :
    line = line' ∧ column = column' := by
  have hsame := (isFirst_iff.2 h).symm.trans (isFirst_iff.2 h')
  rwa [Option.some.injEq, Prod.mk.injEq] at hsame

theorem first?_eq_none_iff {text : List Char} :
    first? text = none ↔ ∀ i digits, ¬Heads Text.isDecimalDigit digits (text.drop i) := by
  induction text with
  | nil =>
    refine iff_of_true rfl fun i digits => ?_
    rw [List.drop_nil]
    exact not_heads_nil digits
  | cons c cs ih =>
    rw [first?, Option.or_eq_none_iff, here?_eq_none_iff, ih]
    constructor
    · rintro ⟨hhere, hlater⟩ (_ | i) digits
      · exact hhere digits
      · exact hlater i digits
    · exact fun h => ⟨h 0, fun i => h (i + 1)⟩

/-! ### Markers that point at a place -/

/-- Digits are the ASCII numeral of a number that a 32-bit word holds. -/
def Reads (digits : List Char) (n : Nat) : Prop :=
  (∀ c ∈ digits, Decimal.isDigit c = true) ∧ Decimal.value (digits.map Decimal.digitValue) = n ∧
    n ≤ Word.maxUnsigned32

/-- A marker in ASCII digits stands at the head of a text, and its numbers are a line and a
column. -/
def Points (place : Nat × Nat) (text : List Char) : Prop :=
  ∃ line column, Heads Decimal.isDigit (line, column) text ∧ Reads line place.1 ∧
    Reads column place.2

theorem number?_eq_some_iff {digits : List Char} (hne : digits ≠ []) {n : Nat} :
    number? digits = some n ↔ Reads digits n := by
  rw [number?, Option.filter_eq_some_iff, Decimal.natural?_eq_some_iff, decide_eq_true_eq, Reads,
    and_iff_right hne, and_assoc]

/-- The ASCII digits are the first row of decimal digits. -/
theorem isDecimalDigit_of_isDigit {c : Char} (h : Decimal.isDigit c = true) :
    Text.isDecimalDigit c = true := by
  rw [Decimal.isDigit, Bool.and_eq_true, decide_eq_true_eq, decide_eq_true_eq] at h
  refine List.any_eq_true.2 ⟨0x30, by decide, ?_⟩
  rw [Bool.and_eq_true, decide_eq_true_eq, decide_eq_true_eq]
  have hlow : '0'.toNat ≤ c.toNat := h.1
  have hhigh : c.toNat ≤ '9'.toNat := h.2
  have hzero : '0'.toNat = 0x30 := rfl
  have hnine : '9'.toNat = 0x39 := rfl
  omega

/-- Where a marker points at a place, there is a marker in the digits of any script. Its second
run may go on behind the ASCII digits. -/
theorem Points.exists_heads {place : Nat × Nat} {text : List Char} (h : Points place text) :
    ∃ digits, Heads Text.isDecimalDigit digits text := by
  obtain ⟨line, column, h, -, -⟩ := h
  cases h with
  | @intro _ _ rest hline hcolumn hlineDigits hcolumnDigits hrest =>
    -- digits of other scripts may follow the column, and then they belong to its run as well
    have hsplit : column ++ rest =
        (column ++ rest.takeWhile Text.isDecimalDigit) ++ rest.dropWhile Text.isDecimalDigit := by
      rw [List.append_assoc, List.takeWhile_append_dropWhile]
    refine ⟨(line, column ++ rest.takeWhile Text.isDecimalDigit), ?_⟩
    rw [hsplit]
    refine .intro hline (List.append_ne_nil_of_left_ne_nil hcolumn _)
      (fun c hc => isDecimalDigit_of_isDigit (hlineDigits c hc)) (fun c hc => ?_)
      Text.stops_dropWhile
    rcases List.mem_append.1 hc with hc | hc
    · exact isDecimalDigit_of_isDigit (hcolumnDigits c hc)
    · exact List.mem_takeWhile_imp hc

/-- A marker whose numbers can be read points at a place. -/
theorem Heads.points {line column text : List Char}
    (h : Heads Text.isDecimalDigit (line, column) text) {l c : Nat} (hl : Reads line l)
    (hc : Reads column c) : Points (l, c) text := by
  refine ⟨line, column, ?_, hl, hc⟩
  cases h with
  | intro hline hcolumn _ _ hrest =>
    exact .intro hline hcolumn hl.1 hc.1 (hrest.of_imp fun _ => isDecimalDigit_of_isDigit)

/-- **The place of a message** is that of its first marker in the digits of any script, if its
numbers can be read. -/
theorem position?_eq_some_iff {message : String} {l c : Nat} :
    position? message = some (l, c) ↔
      ∃ line column, IsFirst message line column ∧ Reads line l ∧ Reads column c := by
  have hread : ∀ line column, IsFirst message line column →
      ((number? line = some l ∧ number? column = some c) ↔ Reads line l ∧ Reads column c) := by
    rintro line column ⟨i, h, -⟩
    rw [number?_eq_some_iff h.ne_nil.1, number?_eq_some_iff h.ne_nil.2]
  simp only [position?, Option.bind_eq_bind, Option.bind_eq_some_iff, isFirst_iff,
    Option.pure_def, Option.some.injEq, Prod.mk.injEq, Prod.exists]
  constructor
  · rintro ⟨line, column, hfirst, _, hl, _, hc, rfl, rfl⟩
    exact ⟨line, column, hfirst, (hread line column hfirst).1 ⟨hl, hc⟩⟩
  · rintro ⟨line, column, hfirst, hreads⟩
    obtain ⟨hl, hc⟩ := (hread line column hfirst).2 hreads
    exact ⟨line, column, hfirst, l, hl, c, hc, rfl, rfl⟩

/-- Where the first marker of a message can be read, no marker in front of it points anywhere. -/
theorem IsFirst.points {message : String} {line column : List Char}
    (h : IsFirst message line column) {l c : Nat} (hl : Reads line l) (hc : Reads column c) :
    First Points message.toList (l, c) := by
  obtain ⟨i, hheads, hfirst⟩ := h
  refine ⟨i, hheads.points hl hc, fun j hj place hpoints => ?_⟩
  obtain ⟨digits, hdigits⟩ := hpoints.exists_heads
  exact hfirst j hj digits hdigits

/-- A message in which a marker points at a place has a first marker. -/
theorem Points.exists_isFirst {message : String} {place : Nat × Nat} {i : Nat}
    (h : Points place (message.toList.drop i)) :
    ∃ line column, IsFirst message line column := by
  obtain ⟨digits, hdigits⟩ := h.exists_heads
  cases hfirst : first? message.toList with
  | none => exact absurd hdigits (first?_eq_none_iff.1 hfirst i digits)
  | some digits => exact ⟨digits.1, digits.2, isFirst_iff.1 hfirst⟩

end Marker

/-- What the markers of a message that point at a place make of it: the first of them is where it
points, and without any it is of unknown kind. -/
inductive Report.Classifies (message : String) : Report → Prop
  | points {line column : Nat} (h : Marker.First Marker.Points message.toList (line, column)) :
    Classifies message (.compilationError line column message)
  | nowhere (h : ∀ i place, ¬Marker.Points place (message.toList.drop i)) :
    Classifies message (.unknownError message)

namespace Report

variable {message : String}

theorem ofMessage_of_some {l c : Nat} (h : Marker.position? message = some (l, c)) :
    ofMessage message = .compilationError l c message := by
  rw [ofMessage, h]

theorem ofMessage_of_none (h : Marker.position? message = none) :
    ofMessage message = .unknownError message := by
  rw [ofMessage, h]

theorem position?_of_ofMessage {l c : Nat} (h : ofMessage message = .compilationError l c message) :
    Marker.position? message = some (l, c) := by
  cases hposition : Marker.position? message with
  | none =>
    rw [ofMessage_of_none hposition] at h
    cases h
  | some place =>
    rw [ofMessage_of_some hposition] at h
    cases h
    rfl

/-- **What is made of a message.** It is a compilation error at the line and the column of its
first marker in the digits of any script, if these can be read as numbers, and of unknown kind
otherwise; it is kept whole. That is what its markers make of it, unless one points at a place
although the first marker of all cannot be read. -/
theorem ofMessage_by_first_marker (message : String) :
    (∀ l c, ofMessage message = .compilationError l c message ↔
      ∃ line column, Marker.IsFirst message line column ∧
        Marker.Reads line l ∧ Marker.Reads column c) ∧
    ((∃ l c, ofMessage message = .compilationError l c message) ∨
      ofMessage message = .unknownError message) ∧
    (Classifies message (ofMessage message) ↔
      ∀ line column, Marker.IsFirst message line column →
        (∃ i place, Marker.Points place (message.toList.drop i)) →
        ∃ l c, Marker.Reads line l ∧ Marker.Reads column c) := by
  refine ⟨fun l c => ⟨fun h => ?_, fun h => ?_⟩, ?_, fun h => ?_, fun h => ?_⟩
  · exact Marker.position?_eq_some_iff.1 (position?_of_ofMessage h)
  · exact ofMessage_of_some (Marker.position?_eq_some_iff.2 h)
  · cases hposition : Marker.position? message with
    | none => exact .inr (ofMessage_of_none hposition)
    | some place => exact .inl ⟨place.1, place.2, ofMessage_of_some hposition⟩
  · rintro line column hfirst ⟨i, place, hpoints⟩
    -- some marker points at a place, so that a place is reported: that of the first marker
    generalize hreport : ofMessage message = report at h
    cases h with
    | nowhere hnone => exact absurd hpoints (hnone i place)
    | @points l c _ =>
      obtain ⟨line', column', hfirst', hreads⟩ :=
        Marker.position?_eq_some_iff.1 (position?_of_ofMessage hreport)
      obtain ⟨rfl, rfl⟩ := hfirst.unique hfirst'
      exact ⟨l, c, hreads⟩
  · cases hposition : Marker.position? message with
    | some place =>
      obtain ⟨line, column, hfirst, hl, hc⟩ := Marker.position?_eq_some_iff.1 hposition
      rw [ofMessage_of_some hposition]
      exact .points (hfirst.points hl hc)
    | none =>
      rw [ofMessage_of_none hposition]
      refine .nowhere fun i place hpoints => ?_
      obtain ⟨line, column, hfirst⟩ := hpoints.exists_isFirst
      obtain ⟨l, c, hreads⟩ := h line column hfirst ⟨i, place, hpoints⟩
      rw [Marker.position?_eq_some_iff.2 ⟨line, column, hfirst, hreads⟩] at hposition
      cases hposition

/-- The number of the first marker is too great, and the second marker is passed over. -/
theorem ofMessage_stops_at_unreadable :
    let message := "line 99999999999, column 1 calls line 3, column 4"
    Marker.Points (3, 4) (message.toList.drop 33) ∧
      ofMessage message = .unknownError message ∧ ¬Classifies message (ofMessage message) := by
  intro message
  have htext : message.toList.drop 33 =
      "line ".toList ++ (['3'] ++ (", column ".toList ++ (['4'] ++ []))) := by decide +kernel
  have hthree : Marker.Reads ['3'] 3 := ⟨List.all_eq_true.1 rfl, rfl, by decide⟩
  have hfour : Marker.Reads ['4'] 4 := ⟨List.all_eq_true.1 rfl, rfl, by decide⟩
  have hpoints : Marker.Points (3, 4) (message.toList.drop 33) := by
    refine ⟨['3'], ['4'], ?_, hthree, hfour⟩
    rw [htext]
    exact .intro nofun nofun hthree.1 hfour.1 Text.stops_nil
  have hreport : ofMessage message = .unknownError message := ofMessage_of_none (by decide +kernel)
  refine ⟨hpoints, hreport, fun h => ?_⟩
  rw [hreport] at h
  cases h with
  | nowhere hnone => exact hnone _ _ hpoints

/-- A digit of another script at the end hides the number in front of it. -/
example : Marker.position? "line 1, column 2" = some (1, 2) ∧
    Marker.position? "line 1, column 2\u0663" = none := by
  decide +kernel

end Report

end ObjectQuery
