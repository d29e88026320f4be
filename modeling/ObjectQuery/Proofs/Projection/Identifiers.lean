import Mathlib.Data.List.Nodup
import ObjectQuery.Projection

/-!
# Identifiers of columns

What a column is called should lead back to it. An alias does, as long as no two columns are called
alike (`Projection.indexOfIdentifier?_of_alias`). A path is looked up among the paths of all
columns, also of those that are called by an alias: it leads to the first column that shows it
(`Projection.indexOfIdentifier?_of_no_alias`). So a column without an alias is **hidden** by a
column in front of it that shows the same path under an alias (`Projection.Hides`).
`Projection.indexOfIdentifier?_identifier` says that no other column is missed, and
`Projection.indexOfIdentifier?_misses_hidden` shows one that is.
-/

namespace ObjectQuery.Projection

variable {p : Projection} {i j : Nat} {c d : Column}

/-! ### The first of several columns -/

/-- Where the first column of some kind stands. -/
theorem findIdx?_eq_some_iff {kind : Column → Bool} :
    p.findIdx? kind = some j ↔
      (∃ d, p[j]? = some d ∧ kind d = true) ∧ ∀ k < j, ∀ e, p[k]? = some e → kind e ≠ true := by
  rw [List.findIdx?_eq_some_iff_getElem]
  constructor
  · rintro ⟨hj, hkind, hfirst⟩
    refine ⟨⟨p[j], List.getElem?_eq_getElem hj, hkind⟩, fun k hk e he => ?_⟩
    obtain ⟨hlt, rfl⟩ := List.getElem?_eq_some_iff.1 he
    exact hfirst k hk
  · rintro ⟨⟨d, hd, hkind⟩, hfirst⟩
    obtain ⟨hj, rfl⟩ := List.getElem?_eq_some_iff.1 hd
    exact ⟨hj, hkind, fun k hk => hfirst k hk p[k] (List.getElem?_eq_getElem _)⟩

theorem indexOf?_eq_some_iff {path : String} :
    p.indexOf? path = some j ↔
      (∃ d, p[j]? = some d ∧ d.path = path) ∧ ∀ k < j, ∀ e, p[k]? = some e → e.path ≠ path := by
  rw [indexOf?, findIdx?_eq_some_iff]
  simp only [beq_iff_eq, ne_eq]

/-! ### Columns called differently -/

section

variable (hnames : (p.map Column.identifier).Nodup) (hc : p[i]? = some c)

include hnames hc

/-- Where no two columns are called alike, a column is known by what it is called. -/
theorem position_eq (hd : p[j]? = some d) (h : d.identifier = c.identifier) : j = i := by
  have hi : (p.map Column.identifier)[i]? = some c.identifier := by
    rw [List.getElem?_map, hc, Option.map_some]
  have hj : (p.map Column.identifier)[j]? = some c.identifier := by
    rw [List.getElem?_map, hd, Option.map_some, h]
  have hlt : j < (p.map Column.identifier).length := (List.getElem?_eq_some_iff.1 hj).1
  exact (List.getElem?_inj hlt hnames).1 (hj.trans hi.symm)

/-- **An alias leads back to its column.** -/
theorem indexOfIdentifier?_of_alias {name : String} (halias : c.alias? = some name) :
    p.indexOfIdentifier? c.identifier = some i := by
  have hname : c.identifier = name := by rw [Column.identifier, halias, Option.getD_some]
  have hfirst : p.indexOfAlias? name = some i := by
    refine findIdx?_eq_some_iff.2 ⟨⟨c, hc, beq_iff_eq.2 halias⟩, fun j hj d hd hsame => ?_⟩
    have hidentifier : d.identifier = c.identifier := by
      rw [hname, Column.identifier, beq_iff_eq.1 hsame, Option.getD_some]
    exact absurd (position_eq hnames hc hd hidentifier) (Nat.ne_of_lt hj)
  rw [hname, indexOfIdentifier?, hfirst, Option.some_or]

/-- **A path leads to the first column that shows it**, if nothing has it for an alias. -/
theorem indexOfIdentifier?_of_no_alias (halias : c.alias? = none) :
    p.indexOfIdentifier? c.identifier = p.indexOf? c.path := by
  have hname : c.identifier = c.path := by rw [Column.identifier, halias, Option.getD_none]
  have hnone : p.indexOfAlias? c.path = none := by
    -- a column with the path for an alias would be called like this one
    refine List.findIdx?_eq_none_iff.2 fun d hd => beq_eq_false_iff_ne.2 fun hsame => ?_
    obtain ⟨j, hj⟩ := List.mem_iff_getElem?.1 hd
    have hidentifier : d.identifier = c.identifier := by
      rw [hname, Column.identifier, hsame, Option.getD_some]
    obtain rfl := position_eq hnames hc hj hidentifier
    rw [hc, Option.some.injEq] at hj
    rw [← hj, halias] at hsame
    cases hsame
  rw [hname, indexOfIdentifier?, hnone, Option.none_or]

end

/-! ### Hidden columns -/

/-- A column hides one behind it that shows its path without an alias, if it is the first to show
that path. -/
inductive Hides (p : Projection) (j i : Nat) : Prop
  | intro {c d : Column} (hc : p[i]? = some c) (hd : p[j]? = some d) (hlt : j < i)
    (halias : c.alias? = none) (hpath : d.path = c.path)
    (hfirst : ∀ k < j, ∀ e, p[k]? = some e → e.path ≠ c.path)

theorem hides_iff (hc : p[i]? = some c) :
    Hides p j i ↔ c.alias? = none ∧ j < i ∧ p.indexOf? c.path = some j := by
  rw [indexOf?_eq_some_iff]
  constructor
  · rintro ⟨hc', hd, hlt, halias, hpath, hfirst⟩
    rw [hc, Option.some.injEq] at hc'
    subst hc'
    exact ⟨halias, hlt, ⟨_, hd, hpath⟩, hfirst⟩
  · rintro ⟨halias, hlt, ⟨d, hd, hpath⟩, hfirst⟩
    exact .intro hc hd hlt halias hpath hfirst

/-- A column that hides another one has an alias, or the two would be called alike. -/
theorem Hides.exists_alias (hnames : (p.map Column.identifier).Nodup) (h : Hides p j i) :
    ∃ d, p[j]? = some d ∧ d.alias? ≠ none := by
  obtain ⟨hc, hd, hlt, halias, hpath, -⟩ := h
  refine ⟨_, hd, fun hnone => Nat.ne_of_lt hlt (position_eq hnames hc hd ?_)⟩
  rw [Column.identifier, Column.identifier, halias, hnone, Option.getD_none, Option.getD_none,
    hpath]

/-- A path leads to a column that is not behind those that show it. -/
theorem exists_indexOf?_le (hc : p[i]? = some c) : ∃ k ≤ i, p.indexOf? c.path = some k := by
  cases hindex : p.indexOf? c.path with
  | none =>
    have hpath := List.findIdx?_eq_none_iff.1 hindex c (List.mem_of_getElem? hc)
    exact absurd (beq_self_eq_true c.path) (Bool.eq_false_iff.1 hpath)
  | some k =>
    refine ⟨k, Nat.le_of_not_lt fun hlt => ?_, rfl⟩
    exact (indexOf?_eq_some_iff.1 hindex).2 i hlt c hc rfl

/-- **An identifier leads back to its column** where no two columns are called alike, unless the
column is hidden. The identifier of a hidden column leads to the one that hides it, which has an
alias. -/
theorem indexOfIdentifier?_identifier (hnames : (p.map Column.identifier).Nodup)
    (hc : p[i]? = some c) :
    (p.indexOfIdentifier? c.identifier = some i ↔ ∀ j, ¬Hides p j i) ∧
      ∀ j, Hides p j i → p.indexOfIdentifier? c.identifier = some j ∧
        ∃ d, p[j]? = some d ∧ d.alias? ≠ none := by
  have hhides : ∀ j, Hides p j i → p.indexOfIdentifier? c.identifier = some j := by
    intro j h
    obtain ⟨halias, -, hindex⟩ := (hides_iff hc).1 h
    rw [indexOfIdentifier?_of_no_alias hnames hc halias, hindex]
  refine ⟨⟨fun hfound j h => ?_, fun hnone => ?_⟩, fun j h => ⟨hhides j h, h.exists_alias hnames⟩⟩
  · have hsame := hfound.symm.trans (hhides j h)
    exact Nat.ne_of_lt ((hides_iff hc).1 h).2.1 (Option.some.inj hsame).symm
  · cases halias : c.alias? with
    | some name => exact indexOfIdentifier?_of_alias hnames hc halias
    | none =>
      obtain ⟨k, hle, hindex⟩ := exists_indexOf?_le hc
      rw [indexOfIdentifier?_of_no_alias hnames hc halias, hindex]
      rcases Nat.lt_or_eq_of_le hle with hlt | rfl
      · exact absurd ((hides_iff hc).2 ⟨halias, hlt, hindex⟩) (hnone k)
      · rfl

/-! ### Columns of a register -/

/-- A register of names, with the family name shown twice, once under an alias. -/
def register : Projection :=
  [{ path := "family", alias? := some "name" }, { path := "given" }, { path := "family" }]

/-- The given name is found, and the family name is found in front of its own column. -/
theorem indexOfIdentifier?_identifier_register :
    (register.map Column.identifier).Nodup ∧ register[1]? = some { path := "given" } ∧
      register[2]? = some { path := "family" } ∧ register.indexOfIdentifier? "given" = some 1 ∧
      Hides register 0 2 ∧ register.indexOfIdentifier? "family" = some 0 := by
  have hnames : (register.map Column.identifier).Nodup := by decide
  have hgiven : register[1]? = some { path := "given" } := rfl
  have hfamily : register[2]? = some { path := "family" } := rfl
  have hshown : ∀ j, ¬Hides register j 1 := by
    intro j h
    obtain ⟨-, hlt, hindex⟩ := (hides_iff hgiven).1 h
    have hfirst : register.indexOf? "given" = some 1 := by decide
    rw [hfirst, Option.some.injEq] at hindex
    exact Nat.ne_of_lt hlt hindex.symm
  have hhidden : Hides register 0 2 := .intro hfamily rfl (by decide) rfl rfl nofun
  exact ⟨hnames, hgiven, hfamily, (indexOfIdentifier?_identifier hnames hgiven).1.2 hshown,
    hhidden, ((indexOfIdentifier?_identifier hnames hfamily).2 0 hhidden).1⟩

/-- Called differently, two columns of one path are still one to a lookup. -/
theorem indexOfIdentifier?_misses_hidden :
    let p : Projection := [{ path := "b", alias? := some "x" }, { path := "b" }]
    (p.map Column.identifier).Nodup ∧ (p[1]?.map Column.identifier) = some "b" ∧
      p.indexOfIdentifier? "b" = some 0 := by
  decide

end ObjectQuery.Projection
