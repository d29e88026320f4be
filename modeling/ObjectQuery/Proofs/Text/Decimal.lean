import Mathlib.Data.List.TakeDrop
import Mathlib.Data.List.TakeWhile
import ObjectQuery.Text.Decimal

/-!
# Runs of digits

A run of characters is cut off a text as far as it goes: what follows it **stops** it, that is,
does not begin with another character of its kind (`Text.Stops`). Where a run ends is therefore
told by the text alone (`Text.span_eq_iff`), and a number in decimal can be told from the text
that it begins, as long as no digit follows (`Decimal.chars_append_inj`,
`Decimal.integerChars_append_inj`).
-/

namespace ObjectQuery

namespace Text

/-- What follows a run stops it: it does not begin with another character of its kind. -/
def Stops (kind : Char → Bool) (rest : List Char) : Prop :=
  ∀ c ∈ rest.head?, kind c = false

variable {kind : Char → Bool} {run run' rest rest' cs : List Char}

theorem stops_nil : Stops kind [] := nofun

theorem stops_cons {c : Char} (h : kind c = false) : Stops kind (c :: rest) := by
  rintro d hd
  cases hd
  exact h

theorem Stops.of_imp {narrower : Char → Bool} (h : Stops kind rest)
    (himp : ∀ c, narrower c = true → kind c = true) : Stops narrower rest := by
  intro c hc
  rw [Bool.eq_false_iff]
  intro hnarrower
  exact Bool.eq_false_iff.1 (h c hc) (himp c hnarrower)

theorem stops_dropWhile : Stops kind (cs.dropWhile kind) := by
  intro c hc
  have hhead := List.head?_dropWhile_not kind cs
  rwa [Option.mem_def.1 hc] at hhead

/-- **Where a run ends**: the text is cut in front of what stops it. -/
theorem span_eq_iff :
    cs.span kind = (run, rest) ↔
      cs = run ++ rest ∧ (∀ c ∈ run, kind c = true) ∧ Stops kind rest := by
  rw [List.span_eq_takeWhile_dropWhile]
  constructor
  · intro h
    obtain ⟨rfl, rfl⟩ := Prod.mk.inj h
    exact ⟨List.takeWhile_append_dropWhile.symm, fun c hc => List.mem_takeWhile_imp hc,
      stops_dropWhile⟩
  · rintro ⟨rfl, hrun, hrest⟩
    rw [List.takeWhile_append_of_pos hrun, List.dropWhile_append_of_pos hrun]
    cases rest with
    | nil => rw [List.takeWhile_nil, List.dropWhile_nil, List.append_nil]
    | cons c cs =>
      have hc : ¬kind c = true := Bool.eq_false_iff.1 (hrest c rfl)
      rw [List.takeWhile_cons_of_neg hc, List.dropWhile_cons_of_neg hc, List.append_nil]

/-- A run that is stopped can be told from the text that it begins. -/
theorem run_append_inj (hrun : ∀ c ∈ run, kind c = true) (hrun' : ∀ c ∈ run', kind c = true)
    (hrest : Stops kind rest) (hrest' : Stops kind rest') (h : run ++ rest = run' ++ rest') :
    run = run' ∧ rest = rest' := by
  have hspan := span_eq_iff.2 ⟨rfl, hrun, hrest⟩
  rw [span_eq_iff.2 ⟨h, hrun', hrest'⟩] at hspan
  exact ⟨(congrArg Prod.fst hspan).symm, (congrArg Prod.snd hspan).symm⟩

end Text

namespace Decimal

/-! ### Digits -/

theorem isDigit_digitChar {d : Nat} (h : d < 10) : isDigit (digitChar d) = true := by
  have hall : ∀ d < 10, isDigit (digitChar d) = true := by decide
  exact hall d h

theorem digitValue_digitChar {d : Nat} (h : d < 10) : digitValue (digitChar d) = d := by
  have hall : ∀ d < 10, digitValue (digitChar d) = d := by decide
  exact hall d h

/-- A run of digits is read as the number that it denotes, and nothing else is read. -/
theorem natural?_eq_some_iff {cs : List Char} {n : Nat} :
    natural? cs = some n ↔
      cs ≠ [] ∧ (∀ c ∈ cs, isDigit c = true) ∧ value (cs.map digitValue) = n := by
  rw [natural?, Option.ite_none_right_eq_some, Option.some.injEq, Bool.and_eq_true,
    List.all_eq_true, Bool.not_eq_true', List.isEmpty_eq_false_iff, and_assoc]

/-! ### Numbers -/

theorem isDigit_of_mem_chars {n : Nat} {c : Char} (h : c ∈ chars n) : isDigit c = true := by
  obtain ⟨d, hd, rfl⟩ := List.mem_map.1 h
  exact isDigit_digitChar (lt_ten_of_mem_digits hd)

theorem chars_ne_nil (n : Nat) : chars n ≠ [] := by
  rw [chars, Ne, List.map_eq_nil_iff]
  by_cases h : n < 10
  · rw [digits_of_lt h]
    exact List.cons_ne_nil _ _
  · rw [digits_of_le (Nat.le_of_not_lt h)]
    exact List.append_ne_nil_of_right_ne_nil _ (List.cons_ne_nil _ _)

/-- A number is what its digits denote. -/
theorem value_map_digitValue_chars (n : Nat) : value ((chars n).map digitValue) = n := by
  have hdigits : (digits n).map (digitValue ∘ digitChar) = digits n :=
    (List.map_congr_left fun d hd => digitValue_digitChar (lt_ten_of_mem_digits hd)).trans
      (List.map_id' _)
  rw [chars, List.map_map, hdigits, value_digits]

theorem chars_injective {m n : Nat} (h : chars m = chars n) : m = n := by
  rw [← value_map_digitValue_chars m, h, value_map_digitValue_chars]

variable {rest rest' : List Char}

/-- **A number can be told from the text that it begins**, where no digit follows it. -/
theorem chars_append_inj {m n : Nat} (hrest : Text.Stops isDigit rest)
    (hrest' : Text.Stops isDigit rest') (h : chars m ++ rest = chars n ++ rest') :
    m = n ∧ rest = rest' := by
  obtain ⟨hchars, rfl⟩ := Text.run_append_inj (fun _ => isDigit_of_mem_chars)
    (fun _ => isDigit_of_mem_chars) hrest hrest' h
  exact ⟨chars_injective hchars, rfl⟩

/-- What an integer in decimal begins with: the sign of a negative one, or else a digit. -/
theorem exists_integerChars_eq_cons (i : Int) :
    ∃ c cs, integerChars i = c :: cs ∧ ((i < 0 ∧ c = '-') ∨ (0 ≤ i ∧ isDigit c = true)) := by
  rw [integerChars]
  split
  · next hneg => exact ⟨_, _, rfl, .inl ⟨hneg, rfl⟩⟩
  · next hnonneg =>
    obtain ⟨c, cs, hcs⟩ := List.exists_cons_of_ne_nil (chars_ne_nil i.natAbs)
    refine ⟨c, cs, hcs, .inr ⟨Int.not_lt.1 hnonneg, isDigit_of_mem_chars (n := i.natAbs) ?_⟩⟩
    rw [hcs]
    exact List.mem_cons_self

/-- Where the text begins alike, the sign is the same. -/
theorem neg_of_integerChars_append {i j : Int}
    (h : integerChars i ++ rest = integerChars j ++ rest')
    (hi : i < 0) : j < 0 := by
  obtain ⟨c, cs, hcs, hc⟩ := exists_integerChars_eq_cons i
  obtain ⟨d, ds, hds, hd⟩ := exists_integerChars_eq_cons j
  rw [hcs, hds] at h
  obtain rfl : c = d := (List.cons.inj h).1
  rcases hd with ⟨hj, -⟩ | ⟨-, hdigit⟩
  · exact hj
  · rcases hc with ⟨-, rfl⟩ | ⟨hnonneg, -⟩
    · exact absurd hdigit (by decide)
    · exact absurd hi (Int.not_lt.2 hnonneg)

/-- **An integer can be told from the text that it begins**, where no digit follows it. -/
theorem integerChars_append_inj {i j : Int} (hrest : Text.Stops isDigit rest)
    (hrest' : Text.Stops isDigit rest') (h : integerChars i ++ rest = integerChars j ++ rest') :
    i = j ∧ rest = rest' := by
  have hsign : i < 0 ↔ j < 0 :=
    ⟨neg_of_integerChars_append h, neg_of_integerChars_append h.symm⟩
  -- behind the sign both are natural numbers
  by_cases hi : i < 0
  · rw [integerChars, integerChars, if_pos hi, if_pos (hsign.1 hi)] at h
    obtain ⟨habs, rfl⟩ := chars_append_inj hrest hrest' (List.cons.inj h).2
    exact ⟨by omega, rfl⟩
  · have hj : ¬j < 0 := mt hsign.2 hi
    rw [integerChars, integerChars, if_neg hi, if_neg hj] at h
    obtain ⟨habs, rfl⟩ := chars_append_inj hrest hrest' h
    exact ⟨by omega, rfl⟩

end Decimal

end ObjectQuery
