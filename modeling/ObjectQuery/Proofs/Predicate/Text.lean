import ObjectQuery.Predicate.Basic
import ObjectQuery.Proofs.Json.Text

/-!
# Predicates told by their texts

The text of a predicate is a word, a blank and the operand. Since no word has a blank in it, word
and operand can be told from the text (`Predicate.word_and_operand_of_text`). The word leaves open
which predicate it is where several share one: `is` has no operand but a word of its own in its
place when a value is asked to be empty or to be present, and no value begins like those words;
`contains` is followed by a quote for a part of a string and by a parenthesis for the elements of a
list. The operands are told by the texts of values, so that the text tells the predicate
(`Predicate.text_injective`), as long as its operands are **whole** (`Predicate.Whole`).
-/

namespace ObjectQuery.Predicate

/-! ### Word and operand -/

/-- The operands of a predicate are whole. -/
def Whole : Predicate → Prop
  | .is operand | .isNot operand => operand.Whole
  | .isIn operands | .listContains operands | .containsExactly operands
  | .containsExactlyInAnyOrder operands => ∀ operand ∈ operands, operand.Whole
  | .overlaps fields => (Value.object fields).Whole
  | .isEmpty | .isPresent | .contains _ | .startsWith _ | .endsWith _ | .hasSize _ => True

/-- Operands between parentheses. -/
def listed (operands : List Value) : List Char :=
  '(' :: ' ' :: (Json.separated [',', ' '] (operands.map Value.chars) ++ [' ', ')'])

/-- The candidates of which a value is to be one. -/
def candidateChars : List Value → List Char
  | [] => "\x7b\x7b EMPTY SET \x7d\x7d".toList
  | operands => listed operands

/-- What stands behind the word of a predicate. -/
def operandChars : Predicate → List Char
  | .is operand | .isNot operand => operand.chars
  | .isIn operands => candidateChars operands
  | .listContains operands | .containsExactly operands
  | .containsExactlyInAnyOrder operands => listed operands
  | .isEmpty => "empty".toList
  | .isPresent => "present".toList
  | .contains s | .startsWith s | .endsWith s => Json.quote s
  | .overlaps fields => (Value.object fields).chars
  | .hasSize size => Decimal.chars size.toNat

theorem toList_operandsText (operands : List Value) :
    (operandsText operands).toList = listed operands := by
  simp only [operandsText, listed, String.toList_append, String.toList_ofList,
    Value.itemChars_eq_map, List.append_assoc]
  rfl

/-- **The text of a predicate**: its word, a blank and its operand. -/
theorem toList_text (p : Predicate) : p.text.toList = p.word.toList ++ ' ' :: p.operandChars := by
  have hbehind : ∀ s : String, p.text = p.word ++ " " ++ s → s.toList = p.operandChars →
      p.text.toList = p.word.toList ++ ' ' :: p.operandChars := by
    intro s htext hs
    rw [htext, String.toList_append, String.toList_append, hs, List.append_assoc]
    rfl
  cases p with
  | isEmpty => rfl
  | isPresent => rfl
  | isIn operands =>
    cases operands with
    | nil => rfl
    | cons operand operands => exact hbehind _ rfl (toList_operandsText _)
  | listContains operands => exact hbehind _ rfl (toList_operandsText operands)
  | containsExactly operands => exact hbehind _ rfl (toList_operandsText operands)
  | containsExactlyInAnyOrder operands => exact hbehind _ rfl (toList_operandsText operands)
  | _ => exact hbehind _ rfl String.toList_ofList

theorem ne_blank_of_mem_word (p : Predicate) : ∀ c ∈ p.word.toList, (c != ' ') = true := by
  refine List.all_eq_true.1 ?_
  cases p <;> simp only [word] <;> decide

/-- Word and operand are told by the text. -/
theorem word_and_operand_of_text {p q : Predicate} (h : p.text = q.text) :
    p.word = q.word ∧ p.operandChars = q.operandChars := by
  have hstops : ∀ rest, Text.Stops (fun c => c != ' ') (' ' :: rest) := fun rest =>
    Text.stops_cons rfl
  have hchars := congrArg String.toList h
  rw [toList_text, toList_text] at hchars
  obtain ⟨hword, hoperand⟩ := Text.run_append_inj p.ne_blank_of_mem_word q.ne_blank_of_mem_word
    (hstops _) (hstops _) hchars
  exact ⟨String.toList_inj.1 hword, (List.cons.inj hoperand).2⟩

/-! ### Operands -/

theorem listed_injective {operands others : List Value} (hoperands : ∀ v ∈ operands, v.Whole)
    (hothers : ∀ v ∈ others, v.Whole) (h : listed operands = listed others) : operands = others :=
  (Value.separated_chars_append_inj hoperands hothers
    (fun v hv w hw => (hoperands v hv).tellsApart (hothers w hw)) (by decide) rfl (by decide)
    (List.cons.inj (List.cons.inj h).2).2).1

theorem candidateChars_injective {operands others : List Value}
    (hoperands : ∀ v ∈ operands, v.Whole) (hothers : ∀ v ∈ others, v.Whole)
    (h : candidateChars operands = candidateChars others) : operands = others := by
  have hempty : ∀ vs, "\x7b\x7b EMPTY SET \x7d\x7d".toList ≠ listed vs :=
    fun vs heq => absurd (List.cons.inj heq).1 (by decide)
  rcases operands with _ | ⟨v, operands⟩
  · rcases others with _ | ⟨w, others⟩
    · rfl
    · exact absurd h (hempty _)
  · rcases others with _ | ⟨w, others⟩
    · exact absurd h.symm (hempty _)
    · exact listed_injective hoperands hothers h

/-- No value is written like a word in the place of an operand. -/
theorem chars_ne_empty {v : Value} (h : v.Whole) : v.chars ≠ "empty".toList :=
  h.chars_ne_cons rfl _

theorem chars_ne_present {v : Value} (h : v.Whole) : v.chars ≠ "present".toList :=
  h.chars_ne_cons rfl _

theorem listed_ne_quote (operands : List Value) (s : String) : listed operands ≠ Json.quote s :=
  fun h => absurd (List.cons.inj h).1 (by decide)

/-- **Different predicates are written differently**, if their operands are whole. -/
theorem text_injective {p q : Predicate} (hp : p.Whole) (hq : q.Whole) (h : p.text = q.text) :
    p = q := by
  obtain ⟨hword, hoperand⟩ := word_and_operand_of_text h
  -- the words `is` and `contains` are shared, and there the operands differ at their beginning;
  -- every other word is that of one predicate
  cases p with
  | is operand =>
    cases q with
    | is other => exact congrArg is (hp.eq_of_chars_eq hq hoperand)
    | isEmpty => exact absurd hoperand (chars_ne_empty hp)
    | isPresent => exact absurd hoperand (chars_ne_present hp)
    | _ => simp [word] at hword
  | isEmpty =>
    cases q with
    | is other => exact absurd hoperand.symm (chars_ne_empty hq)
    | isEmpty => rfl
    | isPresent => exact absurd hoperand (by decide)
    | _ => simp [word] at hword
  | isPresent =>
    cases q with
    | is other => exact absurd hoperand.symm (chars_ne_present hq)
    | isEmpty => exact absurd hoperand (by decide)
    | isPresent => rfl
    | _ => simp [word] at hword
  | isNot operand =>
    cases q with
    | isNot other => exact congrArg isNot (hp.eq_of_chars_eq hq hoperand)
    | _ => simp [word] at hword
  | isIn operands =>
    cases q with
    | isIn others => exact congrArg isIn (candidateChars_injective hp hq hoperand)
    | _ => simp [word] at hword
  | contains part =>
    cases q with
    | contains other => exact congrArg contains (Json.quote_injective hoperand)
    | listContains others => exact absurd hoperand.symm (listed_ne_quote others part)
    | _ => simp [word] at hword
  | listContains operands =>
    cases q with
    | contains part => exact absurd hoperand (listed_ne_quote operands part)
    | listContains others => exact congrArg listContains (listed_injective hp hq hoperand)
    | _ => simp [word] at hword
  | startsWith start =>
    cases q with
    | startsWith other => exact congrArg startsWith (Json.quote_injective hoperand)
    | _ => simp [word] at hword
  | endsWith ending =>
    cases q with
    | endsWith other => exact congrArg endsWith (Json.quote_injective hoperand)
    | _ => simp [word] at hword
  | overlaps fields =>
    cases q with
    | overlaps others => exact congrArg overlaps (Value.object.inj (hp.eq_of_chars_eq hq hoperand))
    | _ => simp [word] at hword
  | hasSize size =>
    cases q with
    | hasSize other =>
      exact congrArg hasSize (UInt64.toNat_inj.1 (Decimal.chars_injective hoperand))
    | _ => simp [word] at hword
  | containsExactly operands =>
    cases q with
    | containsExactly others => exact congrArg containsExactly (listed_injective hp hq hoperand)
    | _ => simp [word] at hword
  | containsExactlyInAnyOrder operands =>
    cases q with
    | containsExactlyInAnyOrder others =>
      exact congrArg containsExactlyInAnyOrder (listed_injective hp hq hoperand)
    | _ => simp [word] at hword

/-! ### Labels of parcels -/

/-- The labels that a parcel may have. One of them looks like the end of the list. -/
def labels : List Value :=
  [.object [("no", .ofInt (-3)), ("to", .string "a\", ) \n")], .array [], .null]

/-- The same labels, with the fields of the first one in disorder. -/
def labelsAsGiven : List Value :=
  [.object [("to", .string "a\", ) \n"), ("no", .ofInt (-3))], .array [], .null]

theorem text_injective_labels :
    (isIn labels).Whole ∧ (isIn (labelsAsGiven.map Value.normalize)).Whole ∧
      (isIn labels).text = (isIn (labelsAsGiven.map Value.normalize)).text ∧
      isIn labels = isIn (labelsAsGiven.map Value.normalize) := by
  have hfirst : ∀ f ∈ [("no", Value.ofInt (-3)), ("to", .string "a\", ) \n")], f.2.Whole :=
    List.forall_mem_cons.2 ⟨.integer _, List.forall_mem_singleton.2 (.string _)⟩
  have hwhole : (isIn labels).Whole :=
    List.forall_mem_cons.2 ⟨.object hfirst,
      List.forall_mem_cons.2 ⟨.array nofun, List.forall_mem_singleton.2 .null⟩⟩
  have hgiven : (isIn (labelsAsGiven.map Value.normalize)).Whole := hwhole
  have htext : (isIn labels).text = (isIn (labelsAsGiven.map Value.normalize)).text := by
    decide +kernel
  exact ⟨hwhole, hgiven, htext, text_injective hwhole hgiven htext⟩

/-- A text may end like a list of labels and still be one label. -/
example : (isIn labels).text =
    "in ( \x7b\"no\":-3,\"to\":\"a\\\", ) \\n\"\x7d, [], null )" := by
  decide +kernel

end ObjectQuery.Predicate
