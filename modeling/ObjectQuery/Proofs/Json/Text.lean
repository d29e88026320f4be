import Mathlib.Tactic.SplitIfs
import ObjectQuery.Json.Document
import ObjectQuery.Json.Text
import ObjectQuery.Proofs.Number.Order
import ObjectQuery.Proofs.Text.Decimal

/-!
# JSON texts tell values apart

A value that is written can be told from any text that it begins, and so can the place where it
ends (`Value.Whole.tellsApart`): brackets and quotes close what they open, a quote inside a string
is escaped, and what stands behind a number is no digit. Different values are therefore written
differently (`Value.Whole.eq_of_chars_eq`). This is said of **whole** values, those without doubles
(`Value.Whole`).

For strings the argument is the reader: it reads every character as it is written, whichever of the
three ways of writing is taken (`Json.escape_cases`), and hence every string
(`Document.string?_quoted`). For containers the argument is an induction over the value. The
elements of a list are told one after another, each by itself, and what stands behind an element
tells whether there are more (`Json.separated_append_inj`). Values of different kinds begin with
different characters (`Value.Whole.exists_chars_eq_cons`).
-/

namespace ObjectQuery

/-! ### Strings -/

namespace Document

/-- A piece of a string spells a character, by itself or by the number of a control character. -/
inductive Piece.Spells : Piece → Char → Prop
  | char (c : Char) : Spells (.char c) c
  | unit {c : Char} (h : c.toNat < 32) : Spells (.unit c.toNat) c

theorem pieceChars?_cons {p : Piece} {c : Char} (h : p.Spells c) (pieces : List Piece) :
    pieceChars? (p :: pieces) = (pieceChars? pieces).map (c :: ·) := by
  cases h with
  | char => rfl
  | unit h =>
    rw [pieceChars?.eq_def]
    dsimp only
    rw [if_neg (by omega), if_neg (by omega), Char.ofNat_toNat]

variable (pieces : List Piece) (rest : List Char)

theorem stringPieces?_short {c d : Char} (h : shortEscape? d = some c) :
    stringPieces? pieces ('\\' :: d :: rest) = stringPieces? (.char c :: pieces) rest := by
  rw [stringPieces?, h]
  -- the letter of a numeric escape is no short escape
  rintro a b c d rest rfl -
  cases h

theorem stringPieces?_control {n : Nat} (h : n < 32) :
    stringPieces? pieces
        ('\\' :: 'u' :: '0' :: '0' :: Json.hexDigit (n / 16) :: Json.hexDigit (n % 16) :: rest) =
      stringPieces? (.unit n :: pieces) rest := by
  have hunit : ∀ n < 32,
      hexUnit? '0' '0' (Json.hexDigit (n / 16)) (Json.hexDigit (n % 16)) = some n := by decide
  rw [stringPieces?, hunit n h]

theorem stringPieces?_plain {c : Char} (hquote : c ≠ '"') (hback : c ≠ '\\') (h : ¬c.toNat < 32) :
    stringPieces? pieces (c :: rest) = stringPieces? (.char c :: pieces) rest := by
  rw [stringPieces?, if_neg h]
  · exact hquote
  · rintro a b c d rest rfl -
    exact hback rfl
  · rintro d rest rfl -
    exact hback rfl

end Document

namespace Json

/-- **How a character is written** inside a string: by a letter, by its number, or as it is. -/
theorem escape_cases (c : Char) :
    (∃ d, Document.shortEscape? d = some c ∧ escape c = ['\\', d]) ∨
    (c.toNat < 32 ∧
      escape c = ['\\', 'u', '0', '0', hexDigit (c.toNat / 16), hexDigit (c.toNat % 16)]) ∨
    (c ≠ '"' ∧ c ≠ '\\' ∧ ¬c.toNat < 32 ∧ escape c = [c]) := by
  unfold escape
  split_ifs with hquote hback hb hf hn hr ht hcontrol
  · exact .inl ⟨'"', by rw [hquote]; rfl, rfl⟩
  · exact .inl ⟨'\\', by rw [hback]; rfl, rfl⟩
  · exact .inl ⟨'b', by rw [hb]; rfl, rfl⟩
  · exact .inl ⟨'f', by rw [hf]; rfl, rfl⟩
  · exact .inl ⟨'n', by rw [hn]; rfl, rfl⟩
  · exact .inl ⟨'r', by rw [hr]; rfl, rfl⟩
  · exact .inl ⟨'t', by rw [ht]; rfl, rfl⟩
  · exact .inr (.inl ⟨hcontrol, rfl⟩)
  · exact .inr (.inr ⟨hquote, hback, hcontrol, rfl⟩)

end Json

namespace Document

open Json

/-- A character is read as it is written. -/
theorem exists_spells_escape (c : Char) : ∃ p : Piece, p.Spells c ∧ ∀ pieces rest,
    stringPieces? pieces (escape c ++ rest) = stringPieces? (p :: pieces) rest := by
  rcases escape_cases c with ⟨d, hd, hc⟩ | ⟨h, hc⟩ | ⟨hquote, hback, h, hc⟩
  · refine ⟨.char c, .char c, fun pieces rest => ?_⟩
    rw [hc]
    exact stringPieces?_short pieces rest hd
  · refine ⟨.unit c.toNat, .unit h, fun pieces rest => ?_⟩
    rw [hc]
    exact stringPieces?_control pieces rest h
  · refine ⟨.char c, .char c, fun pieces rest => ?_⟩
    rw [hc]
    exact stringPieces?_plain pieces rest hquote hback h

theorem exists_pieces_flatMap_escape (cs : List Char) :
    ∃ spelled, pieceChars? spelled = some cs ∧ ∀ pieces rest,
      stringPieces? pieces (cs.flatMap escape ++ rest) =
        stringPieces? (spelled.reverse ++ pieces) rest := by
  induction cs with
  | nil => exact ⟨[], rfl, fun pieces rest => rfl⟩
  | cons c cs ih =>
    obtain ⟨spelled, hspelled, hread⟩ := ih
    obtain ⟨p, hp, hfirst⟩ := exists_spells_escape c
    -- the reader collects pieces in front of those that it has, so that they come in reverse
    refine ⟨p :: spelled, by rw [pieceChars?_cons hp, hspelled]; rfl, fun pieces rest => ?_⟩
    rw [List.flatMap_cons, List.append_assoc, hfirst, hread, List.reverse_cons, List.append_assoc,
      List.singleton_append]

/-- **A string is read as it is written.** -/
theorem string?_quoted (s : String) (rest : List Char) :
    string? (s.toList.flatMap escape ++ '"' :: rest) = some (some s, rest) := by
  obtain ⟨spelled, hspelled, hread⟩ := exists_pieces_flatMap_escape s.toList
  rw [string?, hread, stringPieces?]
  simp only [List.append_nil, Option.map_some, List.reverse_reverse, hspelled, String.ofList_toList]

end Document

namespace Json

variable {rest rest' : List Char}

/-- A string can be told from the text that it begins. -/
theorem quote_append_inj {s t : String} (h : quote s ++ rest = quote t ++ rest') :
    s = t ∧ rest = rest' := by
  simp only [quote, List.cons_append, List.append_assoc, List.nil_append] at h
  have hread := Document.string?_quoted s rest
  rw [(List.cons.inj h).2, Document.string?_quoted t rest'] at hread
  simp only [Option.some.injEq, Prod.mk.injEq] at hread
  exact ⟨hread.1.symm, hread.2.symm⟩

theorem quote_injective {s t : String} (h : quote s = quote t) : s = t :=
  (quote_append_inj (congrArg (· ++ []) h)).1

/-! ### Pieces between separators -/

/-- The texts of two things tell them apart, wherever no digit follows. -/
def TellsApart {α : Type} (write : α → List Char) (a b : α) : Prop :=
  ∀ rest rest', Text.Stops Decimal.isDigit rest → Text.Stops Decimal.isDigit rest' →
    write a ++ rest = write b ++ rest' → a = b ∧ rest = rest'

theorem separated_cons_append (separator piece : List Char) (pieces : List (List Char)) :
    separated separator (piece :: pieces) ++ rest =
      piece ++ if pieces = [] then rest else separator ++ (separated separator pieces ++ rest) := by
  cases pieces with
  | nil => rfl
  | cons next pieces =>
    rw [separated, if_neg (List.cons_ne_nil _ _), List.append_assoc, List.append_assoc]
    exact List.cons_ne_nil _ _

/-- **A list can be told from the text that it begins**: its elements by what they are themselves,
and its end because what closes it begins neither a separator nor an element. -/
theorem separated_append_inj {α : Type} {write : α → List Char} {c e : Char}
    {separator : List Char} (hne : e ≠ c) (hc : Decimal.isDigit c = false)
    (he : Decimal.isDigit e = false) {as bs : List α}
    (has : ∀ a ∈ as, ∃ d ds, write a = d :: ds ∧ d ≠ e)
    (hbs : ∀ b ∈ bs, ∃ d ds, write b = d :: ds ∧ d ≠ e)
    (happart : ∀ a ∈ as, ∀ b ∈ bs, TellsApart write a b)
    (h : separated (c :: separator) (as.map write) ++ e :: rest =
      separated (c :: separator) (bs.map write) ++ e :: rest') :
    as = bs ∧ rest = rest' := by
  have hstops : ∀ (rest : List Char) (xs : List α), Text.Stops Decimal.isDigit
      (if xs.map write = [] then e :: rest
        else c :: separator ++ (separated (c :: separator) (xs.map write) ++ e :: rest)) := by
    intro rest xs
    split
    · exact Text.stops_cons he
    · exact Text.stops_cons hc
  induction as generalizing bs with
  | nil =>
    cases bs with
    | nil => exact ⟨rfl, (List.cons.inj h).2⟩
    | cons b bs =>
      obtain ⟨d, ds, hb, hd⟩ := hbs b List.mem_cons_self
      rw [List.map_cons, separated_cons_append, hb] at h
      exact absurd (List.cons.inj h).1.symm hd
  | cons a as ih =>
    cases bs with
    | nil =>
      obtain ⟨d, ds, ha, hd⟩ := has a List.mem_cons_self
      rw [List.map_cons, separated_cons_append, ha] at h
      exact absurd (List.cons.inj h).1 hd
    | cons b bs =>
      rw [List.map_cons, List.map_cons, separated_cons_append, separated_cons_append] at h
      obtain ⟨rfl, hbehind⟩ := happart a List.mem_cons_self b List.mem_cons_self _ _
        (hstops rest as) (hstops rest' bs) h
      -- what stands behind the first element tells whether there are more
      split_ifs at hbehind with hnil hnil' hnil'
      · rw [List.map_eq_nil_iff.1 hnil, List.map_eq_nil_iff.1 hnil']
        exact ⟨rfl, (List.cons.inj hbehind).2⟩
      · exact absurd (List.cons.inj hbehind).1 hne
      · exact absurd (List.cons.inj hbehind).1.symm hne
      · obtain ⟨rfl, rfl⟩ := ih (fun a ha => has a (List.mem_cons_of_mem _ ha))
          (fun b hb => hbs b (List.mem_cons_of_mem _ hb))
          (fun a ha b hb => happart a (List.mem_cons_of_mem _ ha) b (List.mem_cons_of_mem _ hb))
          (List.append_cancel_left hbehind)
        exact ⟨rfl, rfl⟩

end Json

/-! ### Values -/

namespace Value

/-- A value is whole: no number in it is a double. -/
inductive Whole : Value → Prop
  | null : Whole .null
  | boolean (b : Bool) : Whole (.boolean b)
  | integer (i : Integer) : Whole (.number (.integer i))
  | string (s : String) : Whole (.string s)
  | array {items : List Value} (hitems : ∀ v ∈ items, Whole v) : Whole (.array items)
  | object {fields : Fields} (hfields : ∀ f ∈ fields, Whole f.2) : Whole (.object fields)

/-- The kinds of values. -/
inductive Kind where
  | null | boolean | number | string | array | object

/-- The kind of a value. -/
def kind : Value → Kind
  | .null => .null
  | .boolean _ => .boolean
  | .number _ => .number
  | .string _ => .string
  | .array _ => .array
  | .object _ => .object

/-- The kind of value that begins with a character. -/
def kindOf? (c : Char) : Option Kind :=
  if c = '-' || Decimal.isDigit c then some .number
  else if c = 'n' then some .null
  else if c = 't' || c = 'f' then some .boolean
  else if c = '"' then some .string
  else if c = '[' then some .array
  else if c = '{' then some .object
  else none

/-- **The first character tells the kind.** -/
theorem Whole.exists_chars_eq_cons {v : Value} (h : v.Whole) :
    ∃ c cs, v.chars = c :: cs ∧ kindOf? c = some v.kind := by
  cases h with
  | null => exact ⟨_, _, rfl, rfl⟩
  | boolean b => cases b <;> exact ⟨_, _, rfl, rfl⟩
  | integer i =>
    obtain ⟨c, cs, hcs, hc⟩ := Decimal.exists_integerChars_eq_cons i.val
    refine ⟨c, cs, hcs, if_pos ?_⟩
    rw [Bool.or_eq_true, decide_eq_true_eq]
    exact hc.imp And.right And.right
  | string s => exact ⟨_, _, rfl, rfl⟩
  | array hitems => exact ⟨_, _, rfl, rfl⟩
  | object hfields => exact ⟨_, _, rfl, rfl⟩

variable {v w : Value} {rest rest' : List Char}

theorem Whole.kind_eq (hv : v.Whole) (hw : w.Whole) (h : v.chars ++ rest = w.chars ++ rest') :
    v.kind = w.kind := by
  obtain ⟨c, cs, hcs, hc⟩ := hv.exists_chars_eq_cons
  obtain ⟨d, ds, hds, hd⟩ := hw.exists_chars_eq_cons
  rw [hcs, hds] at h
  rw [(List.cons.inj h).1, hd] at hc
  exact (Option.some.inj hc).symm

/-- No value begins with what closes an array, nor with a blank. -/
theorem Whole.exists_chars_ne {e : Char} (h : v.Whole) (he : kindOf? e = none) :
    ∃ c cs, v.chars = c :: cs ∧ c ≠ e := by
  obtain ⟨c, cs, hcs, hc⟩ := h.exists_chars_eq_cons
  refine ⟨c, cs, hcs, ?_⟩
  rintro rfl
  rw [he] at hc
  cases hc

theorem Whole.chars_ne_cons {e : Char} (h : v.Whole) (he : kindOf? e = none) (cs : List Char) :
    v.chars ≠ e :: cs := by
  obtain ⟨c, ds, hds, hc⟩ := h.exists_chars_ne he
  intro heq
  rw [hds] at heq
  exact hc (List.cons.inj heq).1

theorem itemChars_eq_map (items : List Value) : itemChars items = items.map chars := by
  induction items with
  | nil => rfl
  | cons v rest ih => rw [itemChars, ih, List.map_cons]

/-- A field as it is written. -/
def fieldText (f : String × Value) : List Char :=
  Json.quote f.1 ++ ':' :: f.2.chars

theorem fieldChars_eq_map (fields : Fields) : fieldChars fields = fields.map fieldText := by
  induction fields with
  | nil => rfl
  | cons f rest ih => rw [fieldChars, ih, List.map_cons, fieldText]

/-- Fields can be told apart if their values can. -/
theorem fieldText_tellsApart {f g : String × Value} (h : Json.TellsApart chars f.2 g.2) :
    Json.TellsApart fieldText f g := by
  intro rest rest' hrest hrest' heq
  obtain ⟨m, v⟩ := f
  obtain ⟨n, w⟩ := g
  simp only [fieldText, List.append_assoc, List.cons_append] at heq
  obtain ⟨rfl, hbehind⟩ := Json.quote_append_inj heq
  obtain ⟨rfl, rfl⟩ := h _ _ hrest hrest' (List.cons.inj hbehind).2
  exact ⟨rfl, rfl⟩

/-! ### Values of one kind -/

/-- It is enough to tell apart values of one kind. -/
theorem Whole.tellsApart_of_kind_eq (hv : v.Whole) (hw : w.Whole)
    (h : v.kind = w.kind → Json.TellsApart chars v w) : Json.TellsApart chars v w :=
  fun rest rest' hrest hrest' heq => h (hv.kind_eq hw heq) rest rest' hrest hrest' heq

theorem boolean_tellsApart (b b' : Bool) : Json.TellsApart chars (.boolean b) (.boolean b') := by
  intro rest rest' hrest hrest' h
  cases b <;> cases b'
  · exact ⟨rfl, List.append_cancel_left h⟩
  · exact absurd (List.cons.inj h).1 (by decide)
  · exact absurd (List.cons.inj h).1 (by decide)
  · exact ⟨rfl, List.append_cancel_left h⟩

theorem integer_tellsApart (i j : Integer) :
    Json.TellsApart chars (.number (.integer i)) (.number (.integer j)) := by
  intro rest rest' hrest hrest' h
  obtain ⟨hval, hbehind⟩ := Decimal.integerChars_append_inj hrest hrest' h
  exact ⟨by rw [Integer.ext_val hval], hbehind⟩

theorem string_tellsApart (s t : String) : Json.TellsApart chars (.string s) (.string t) := by
  intro rest rest' hrest hrest' h
  obtain ⟨rfl, rfl⟩ := Json.quote_append_inj h
  exact ⟨rfl, rfl⟩

section

variable {items others : List Value} (hitems : ∀ v ∈ items, v.Whole)
  (hothers : ∀ v ∈ others, v.Whole)
  (happart : ∀ v ∈ items, ∀ w ∈ others, Json.TellsApart chars v w)

include hitems hothers happart

/-- Values between commas can be told from the text that they begin, whatever closes them, as long
as no value begins with it. -/
theorem separated_chars_append_inj {e : Char} {separator : List Char} (hne : e ≠ ',')
    (he : kindOf? e = none) (hdigit : Decimal.isDigit e = false)
    (h : Json.separated (',' :: separator) (items.map chars) ++ e :: rest =
      Json.separated (',' :: separator) (others.map chars) ++ e :: rest') :
    items = others ∧ rest = rest' :=
  Json.separated_append_inj hne (by decide) hdigit (fun v hv => (hitems v hv).exists_chars_ne he)
    (fun v hv => (hothers v hv).exists_chars_ne he) happart h

theorem array_tellsApart : Json.TellsApart chars (.array items) (.array others) := by
  intro rest rest' hrest hrest' h
  simp only [chars, itemChars_eq_map, List.cons_append, List.append_assoc, List.nil_append] at h
  obtain ⟨rfl, rfl⟩ := separated_chars_append_inj hitems hothers happart (by decide) rfl (by decide)
    (List.cons.inj h).2
  exact ⟨rfl, rfl⟩

end

theorem object_tellsApart {fields others : Fields}
    (happart : ∀ f ∈ fields, ∀ g ∈ others, Json.TellsApart chars f.2 g.2) :
    Json.TellsApart chars (.object fields) (.object others) := by
  intro rest rest' hrest hrest' h
  simp only [chars, fieldChars_eq_map, List.cons_append, List.append_assoc, List.nil_append] at h
  -- a field begins with the quote of its name, which closes no object
  obtain ⟨rfl, rfl⟩ := Json.separated_append_inj (by decide) (by decide) (by decide)
    (fun _ _ => ⟨_, _, rfl, by decide⟩) (fun _ _ => ⟨_, _, rfl, by decide⟩)
    (fun f hf g hg => fieldText_tellsApart (happart f hf g hg)) (List.cons.inj h).2
  exact ⟨rfl, rfl⟩

/-- **A value can be told from the text that it begins**, where no digit follows it. -/
theorem Whole.tellsApart (hv : v.Whole) (hw : w.Whole) : Json.TellsApart chars v w := by
  induction hv generalizing w with
  | null =>
    refine Whole.null.tellsApart_of_kind_eq hw fun hkind => ?_
    cases hw with
    | null => exact fun _ _ _ _ h => ⟨rfl, List.append_cancel_left h⟩
    | _ => cases hkind
  | boolean b =>
    refine (Whole.boolean b).tellsApart_of_kind_eq hw fun hkind => ?_
    cases hw with
    | boolean b' => exact boolean_tellsApart b b'
    | _ => cases hkind
  | integer i =>
    refine (Whole.integer i).tellsApart_of_kind_eq hw fun hkind => ?_
    cases hw with
    | integer j => exact integer_tellsApart i j
    | _ => cases hkind
  | string s =>
    refine (Whole.string s).tellsApart_of_kind_eq hw fun hkind => ?_
    cases hw with
    | string t => exact string_tellsApart s t
    | _ => cases hkind
  | array hitems ih =>
    refine (Whole.array hitems).tellsApart_of_kind_eq hw fun hkind => ?_
    cases hw with
    | array hothers =>
      exact array_tellsApart hitems hothers fun v hv w hw => ih v hv (hothers w hw)
    | _ => cases hkind
  | object hfields ih =>
    refine (Whole.object hfields).tellsApart_of_kind_eq hw fun hkind => ?_
    cases hw with
    | object hothers => exact object_tellsApart fun f hf g hg => ih f hf (hothers g hg)
    | _ => cases hkind

/-- **Different values are written differently.** -/
theorem Whole.eq_of_chars_eq (hv : v.Whole) (hw : w.Whole) (h : v.chars = w.chars) : v = w :=
  (hv.tellsApart hw [] [] Text.stops_nil Text.stops_nil (congrArg (· ++ []) h)).1

end Value

end ObjectQuery
