import ObjectQuery.Proofs.Discovery.Composition
import ObjectQuery.Proofs.Text.Decimal

/-!
# Paths of numerals

A segment of digits is a numeral. In a list it stands for a position, in an object it is a
name like any other, and what a path of numerals finds should be said without spreading:
`Value.locate` goes from value to value, into a list by the number that the digits denote,
however many they are, and finds no value behind the end of a list.

A path of numerals is followed in this way as long as the positions are numbers of a signed
64-bit word. A numeral that denotes a greater one is read as a name, and where it meets a
list (`Path.Exceeds`) it spreads over the elements, which is the one way in which a path of
numerals spreads (`Path.spreads_iff_exceeds`). `Value.resolve_of_numerals` says both, and
`Value.resolve_spreads_at_two_pow` shows a short list on which the numeral of `2 ^ 63` finds
another list.
-/

namespace ObjectQuery

/-! ### Numerals -/

/-- A run of digits is read as the number that it denotes: no sign stands in front of it. -/
theorem Decimal.integer?_of_digits {cs : List Char} (hne : cs ≠ [])
    (hdigits : ∀ c ∈ cs, isDigit c = true) :
    integer? cs = some (value (cs.map digitValue) : Int) := by
  have hnatural : natural? cs = some (value (cs.map digitValue)) :=
    natural?_eq_some_iff.2 ⟨hne, hdigits, rfl⟩
  obtain ⟨c, rest, rfl⟩ := List.exists_cons_of_ne_nil hne
  have hfirst : isDigit c = true := hdigits c List.mem_cons_self
  have hminus : c ≠ '-' := by
    rintro rfl
    exact absurd hfirst (by decide)
  have hplus : c ≠ '+' := by
    rintro rfl
    exact absurd hfirst (by decide)
  rw [integer?, unsigned?, hnatural]
  · rfl
  · exact fun _ h => hplus (List.cons.inj h).1
  · exact fun _ h => hminus (List.cons.inj h).1

namespace Path

/-- A segment of digits, at least one. -/
def IsNumeral (segment : String) : Prop :=
  segment ≠ "" ∧ ∀ c ∈ segment.toList, Decimal.isDigit c = true

instance (segment : String) : Decidable (IsNumeral segment) :=
  decidable_of_iff (segment ≠ "" ∧ segment.toList.all Decimal.isDigit = true)
    (and_congr_right fun _ => List.all_eq_true)

/-- The number that the digits of a segment denote. -/
def denoted (segment : String) : Nat :=
  Decimal.value (segment.toList.map Decimal.digitValue)

/-- **The position of a numeral** is the number that it denotes, if this is one of a signed
64-bit word; else the numeral has none. -/
theorem position?_of_isNumeral {s : String} (h : IsNumeral s) :
    position? s =
      if (denoted s : Int) ≤ Word.maxSigned64 then some (denoted s : Int) else none := by
  have hne : s.toList ≠ [] := by
    rw [Ne, String.toList_eq_nil_iff]
    exact h.1
  have hbounds : (decide (Word.minSigned64 ≤ (denoted s : Int)) &&
      decide ((denoted s : Int) ≤ Word.maxSigned64)) = true ↔
      (denoted s : Int) ≤ Word.maxSigned64 := by
    rw [Bool.and_eq_true, decide_eq_true_eq, decide_eq_true_eq, Word.minSigned64]
    omega
  rw [position?, Decimal.integerIn?, Decimal.integer?_of_digits hne h.2, ← denoted,
    Option.filter_some]
  exact if_congr hbounds rfl rfl

theorem position?_of_le {s : String} (h : IsNumeral s)
    (hle : (denoted s : Int) ≤ Word.maxSigned64) : position? s = some (denoted s : Int) := by
  rw [position?_of_isNumeral h, if_pos hle]

theorem position?_of_lt {s : String} (h : IsNumeral s)
    (hlt : Word.maxSigned64 < (denoted s : Int)) : position? s = none := by
  rw [position?_of_isNumeral h, if_neg (Int.not_le.2 hlt)]

end Path

/-! ### Going by numbers -/

/-- What is found by going from value to value: into a list by the number that a segment
denotes, and into an object by the segment as it is written. -/
def Value.locate : Value → List String → Found
  | v, [] => .ofValue v
  | .null, _ :: _ => .noValue
  | .array items, s :: rest =>
    match items[Path.denoted s]? with
    | some v => v.locate rest
    | none => .noValue
  | .object fields, s :: rest =>
    match Fields.get? fields s with
    | some v => v.locate rest
    | none => .noValue
  | _, s :: _ => Path.terminated s

namespace Path

/-- Going by numbers meets a list with a number that is too great for a position. -/
inductive Exceeds : Value → List String → Prop
  | here {items : List Value} {s : String} {rest : List String}
    (h : Word.maxSigned64 < (denoted s : Int)) : Exceeds (.array items) (s :: rest)
  | item {items : List Value} {s : String} {rest : List String} {v : Value}
    (hv : items[denoted s]? = some v) (h : Exceeds v rest) : Exceeds (.array items) (s :: rest)
  | field {fields : Fields} {s : String} {rest : List String} {v : Value}
    (hv : Fields.get? fields s = some v) (h : Exceeds v rest) : Exceeds (.object fields) (s :: rest)

/-- Nothing exceeds where every number is one of a position. -/
theorem not_exceeds_of_le {v : Value} {ps : List String}
    (h : ∀ s ∈ ps, (denoted s : Int) ≤ Word.maxSigned64) : ¬Exceeds v ps := by
  intro hexceeds
  induction hexceeds with
  | here hlt => exact absurd (h _ List.mem_cons_self) (Int.not_le.2 hlt)
  | item _ _ ih => exact ih fun s hs => h s (List.mem_cons_of_mem _ hs)
  | field _ _ ih => exact ih fun s hs => h s (List.mem_cons_of_mem _ hs)

/-- **Where a path of numerals spreads**: at the lists that it meets with too great a
number, and nowhere else. -/
theorem spreads_iff_exceeds {v : Value} {ps : List String} (h : ∀ s ∈ ps, IsNumeral s) :
    Spreads v ps ↔ Exceeds v ps := by
  constructor
  · intro hspreads
    induction hspreads with
    | @here items s rest hi =>
      have hs := h s List.mem_cons_self
      refine .here (Int.not_le.1 fun hle => ?_)
      rw [position?_of_le hs hle] at hi
      cases hi
    | field hv _ ih => exact .field hv (ih fun s hs => h s (List.mem_cons_of_mem _ hs))
    | @item items s rest i v hi _ hv _ ih =>
      have hs := h s List.mem_cons_self
      have hrest := ih fun s' hs' => h s' (List.mem_cons_of_mem _ hs')
      -- a segment with a position denotes that position
      by_cases hle : (denoted s : Int) ≤ Word.maxSigned64
      · rw [position?_of_le hs hle] at hi
        cases hi
        exact .item hv hrest
      · exact .here (Int.not_le.1 hle)
  · intro hexceeds
    induction hexceeds with
    | @here items s rest hlt => exact .here (position?_of_lt (h s List.mem_cons_self) hlt)
    | @item items s rest v hv _ ih =>
      have hs := h s List.mem_cons_self
      by_cases hle : (denoted s : Int) ≤ Word.maxSigned64
      · exact .item (position?_of_le hs hle) (Int.natCast_nonneg _) hv
          (ih fun s' hs' => h s' (List.mem_cons_of_mem _ hs'))
      · exact .here (position?_of_lt hs (Int.not_le.1 hle))
    | field hv _ ih => exact .field hv (ih fun s hs => h s (List.mem_cons_of_mem _ hs))

/-- **Following numerals is going by numbers**, unless one of them exceeds. -/
theorem walk_of_not_exceeds {v : Value} {ps : List String} (h : ∀ s ∈ ps, IsNumeral s)
    (hexceeds : ¬Exceeds v ps) : (walk v ps).found = v.locate ps := by
  induction ps generalizing v with
  | nil => rw [walk, Value.locate]
  | cons s rest ih =>
    have hrest : ∀ s' ∈ rest, IsNumeral s' := fun s' hs' => h s' (List.mem_cons_of_mem _ hs')
    rcases v with _ | b | n | t | items | fields
    case array =>
      -- in a list the numeral is a position, since it does not exceed
      have hle : (denoted s : Int) ≤ Word.maxSigned64 :=
        Int.not_lt.1 fun hlt => hexceeds (.here hlt)
      rw [walk, position?_of_le (h s List.mem_cons_self) hle]
      dsimp only
      rw [if_neg (Int.not_lt.2 (Int.natCast_nonneg _)), walkItem_eq, Int.toNat_natCast,
        Value.locate]
      cases hv : items[denoted s]? with
      | none => rfl
      | some v => exact ih hrest fun hspreads => hexceeds (.item hv hspreads)
    case object =>
      rw [walk, walkField_eq, Value.locate]
      cases hv : Fields.get? fields s with
      | none => rfl
      | some v => exact ih hrest fun hspreads => hexceeds (.field hv hspreads)
    all_goals rfl

end Path

/-- **What a path of numerals finds.** It spreads only where it meets a list with a number that
is greater than all of a signed 64-bit word. Where it does not, it finds what is found by going
by the numbers that its segments denote; where it does, it finds a list. -/
theorem Value.resolve_of_numerals (v : Value) {path : String}
    (h : ∀ s ∈ Path.segments path, Path.IsNumeral s) :
    (Path.Spreads v (Path.segments path) ↔ Path.Exceeds v (Path.segments path)) ∧
    (¬Path.Exceeds v (Path.segments path) → v.resolve path = v.locate (Path.segments path)) ∧
    (Path.Exceeds v (Path.segments path) → ∃ elements, v.resolve path = .list elements) := by
  have hspreads := Path.spreads_iff_exceeds (v := v) h
  refine ⟨hspreads, fun hexceeds => Path.walk_of_not_exceeds h hexceeds, fun hexceeds => ?_⟩
  rw [resolve, Path.walk_eq_of_spreads (hspreads.2 hexceeds)]
  exact ⟨_, rfl⟩

/-! ### Rows of seats -/

/-- Two rows of seats and their names by number. -/
def seats : Value :=
  .object [("1", .array [.array [.string "ann"], .array [.string "bob", .null]])]

/-- A seat that is there, a seat behind the end of its row, and one of too great a number. -/
theorem Value.resolve_of_numerals_seats :
    ((∀ s ∈ Path.segments "1.001.0", Path.IsNumeral s) ∧
      ¬Path.Exceeds seats (Path.segments "1.001.0") ∧
      seats.resolve "1.001.0" = seats.locate (Path.segments "1.001.0")) ∧
    (∀ s ∈ Path.segments "1.9223372036854775808", Path.IsNumeral s) ∧
      Path.Exceeds seats (Path.segments "1.9223372036854775808") ∧
      ∃ elements, seats.resolve "1.9223372036854775808" = .list elements := by
  have hnear : ∀ s ∈ Path.segments "1.001.0", Path.IsNumeral s := by decide +kernel
  have hfits : ¬Path.Exceeds seats (Path.segments "1.001.0") :=
    Path.not_exceeds_of_le (by decide +kernel)
  have hfar : ∀ s ∈ Path.segments "1.9223372036854775808", Path.IsNumeral s := by decide +kernel
  have hexceeds : Path.Exceeds seats (Path.segments "1.9223372036854775808") :=
    (Path.spreads_iff_exceeds hfar).1 (by decide +kernel)
  exact ⟨⟨hnear, hfits, (resolve_of_numerals seats hnear).2.1 hfits⟩, hfar, hexceeds,
    (resolve_of_numerals seats hfar).2.2 hexceeds⟩

/-- The numeral of `2 ^ 63` is behind the end of a list of two, and what it finds is a list. -/
theorem Value.resolve_spreads_at_two_pow :
    let v : Value := .array [.string "ann", .string "bob"]
    let path := "9223372036854775808"
    (∀ s ∈ Path.segments path, Path.IsNumeral s) ∧ v.locate (Path.segments path) = .noValue ∧
      v.resolve path =
        .list [.notFound "path terminated early at '9223372036854775808'",
          .notFound "path terminated early at '9223372036854775808'"] := by
  intro v path
  have hsegments : Path.segments path = [path] := by decide +kernel
  have hnumeral : Path.IsNumeral path := by decide +kernel
  have hposition : Path.position? path = none := by decide +kernel
  refine ⟨by rw [hsegments]; exact List.forall_mem_singleton.2 hnumeral, ?_, ?_⟩
  · have hbehind : 2 ≤ Path.denoted path := by decide +kernel
    rw [hsegments, locate, List.getElem?_eq_none hbehind]
  · rw [resolve, hsegments, Path.walk, hposition]
    rfl

end ObjectQuery
