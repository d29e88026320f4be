import Mathlib.Data.List.Forall2
import ObjectQuery.Proofs.Pipeline.Passes
import ObjectQuery.Proofs.Pipeline.Sort
import ObjectQuery.Proofs.Sorting.Successive

/-!
# Sorting steps one after another

A sorting step by several keys looks at the first key, and at the others only where the first
one leaves a tie. Sorting by the keys one at a time does the same if the last key goes first:
a stable sort leaves ties as the sorts before it have put them
(`Stage.sortedRows_eq_foldr`).

What sorting steps make of a stream of projected rows is found by an induction over the steps
(`Pipeline.rowsOf_sorts`): each of them sorts what the one in front of it has left, and leaves
projected rows and their projection to the next. So a pipeline of sorting steps is known by what
it does to a list of rows, and there the steps of a sort by several keys come together to one
(`Pipeline.rowsOf_sort_keys`). A stream that is sorted stays as it is.
-/

namespace ObjectQuery

/-! ### Sorting rows -/

namespace Sorting

/-- Several keys compare by the first one, and then by the others. -/
theorem compareColumns_cons (noneFirst : Bool) (key : Nat × Direction)
    (rest : List (Nat × Direction)) (a b : List Found) :
    compareColumns noneFirst (key :: rest) a b =
      (compareColumns noneFirst [key] a b).then (compareColumns noneFirst rest a b) := by
  simp only [compareColumns, Ordering.then_eq]

/-- The position of a single key. -/
theorem positions_singleton {p : Projection} {key : SortKey} {i : Nat}
    (h : Projection.indexOfIdentifier? p key.identifier = some i) :
    positions p [key] = .ok [(i, key.direction)] := by
  rw [positions, h]
  rfl

/-- The positions of keys are those of the single keys. -/
theorem forall₂_positions {p : Projection} {keys : List SortKey} {found : List (Nat × Direction)}
    (h : positions p keys = .ok found) :
    List.Forall₂ (fun key position => positions p [key] = .ok [position]) keys found := by
  induction keys generalizing found with
  | nil =>
    cases h
    exact .nil
  | cons key rest ih =>
    obtain ⟨i, found', hi, hrest, rfl⟩ := positions_cons_eq_ok h
    exact .cons (positions_singleton hi) (ih hrest)

end Sorting

namespace Stage

variable {p : Projection} {rows : List ProjectedRow}

/-- **Sorting by several keys** is sorting by the last one, then by the one in front of it, and
so on to the first, if no double among the values under a key blurs two integers. -/
theorem sortedRows_eq_foldr {keys : List SortKey} {found : List (Nat × Direction)}
    (hfound : Sorting.positions p keys = .ok found) (noneFirst : Bool)
    (h : ¬Sorting.BlursUnder p keys rows) :
    sortedRows noneFirst found rows =
      found.foldr (fun position sorted => sortedRows noneFirst [position] sorted) rows := by
  induction keys generalizing found with
  | nil =>
    rw [sortedRows_eq_stableSort hfound noneFirst h]
    cases hfound
    exact Sorting.stableSort_of_ascending (List.pairwise_of_forall nofun)
  | cons key rest ih =>
    obtain ⟨i, found', hi, hrest, rfl⟩ := Sorting.positions_cons_eq_ok hfound
    have hsingle := Sorting.positions_singleton hi
    have hlater : ¬Sorting.BlursUnder p rest rows := fun hblurs =>
      h (hblurs.mono (List.subset_cons_self key rest) (List.Subset.refl rows))
    have hfirst : ∀ {rows' : List ProjectedRow}, rows' ⊆ rows →
        ¬Sorting.BlursUnder p [key] rows' := fun hrows hblurs =>
      h (hblurs.mono (List.cons_subset_cons key (List.nil_subset rest)) hrows)
    have hsubset : sortedRows noneFirst found' rows ⊆ rows := fun _ => mem_of_mem_sortedRows
    calc sortedRows noneFirst ((i, key.direction) :: found') rows
      _ = sortedRows noneFirst [(i, key.direction)] (sortedRows noneFirst found' rows) := by
        rw [sortedRows_eq_stableSort hfound noneFirst h,
          sortedRows_eq_stableSort hsingle noneFirst (hfirst hsubset),
          sortedRows_eq_stableSort hrest noneFirst hlater]
        simp only [Sorting.compareColumns_cons noneFirst _ found']
        exact Sorting.stableSort_then
          (Sorting.transCmp_rows hsingle noneFirst (hfirst (List.Subset.refl rows)))
          (Sorting.transCmp_rows hrest noneFirst hlater)
      _ = sortedRows noneFirst [(i, key.direction)]
          (found'.foldr (fun position sorted => sortedRows noneFirst [position] sorted) rows) := by
        rw [ih hrest hlater]

/-- Rows in order are left alone. -/
theorem sortedRows_of_ascending {keys : List SortKey} {found : List (Nat × Direction)}
    (hfound : Sorting.positions p keys = .ok found) {noneFirst : Bool}
    (hblurs : ¬Sorting.BlursUnder p keys rows)
    (h : rows.Pairwise fun a b => ¬Sorting.RowPrecedes p noneFirst b a keys) :
    sortedRows noneFirst found rows = rows := by
  rw [sortedRows_eq_stableSort hfound noneFirst hblurs]
  refine Sorting.stableSort_of_ascending (h.imp fun hab hlt => hab ?_)
  exact (Sorting.compareColumns_eq_lt_iff hfound _ _).1 (beq_iff_eq.1 hlt)

end Stage

namespace Pipeline

variable {p : Projection} {rows : List ProjectedRow}

/-! ### Sorting streams -/

/-- **Sorting steps sort one after another**, each of them what the one in front of it has
left. -/
theorem rowsOf_sorts (examiner : Examiner) (noneFirst : Bool) {sorts : List (List SortKey)}
    {founds : List (List (Nat × Direction))}
    (hfounds : List.Forall₂ (fun keys found => Sorting.positions p keys = .ok found) sorts founds)
    {input : Stream} (hprojection : input.projection? = some p)
    (hrows : input.rows = rows.map .projected) (l : Lookups) :
    rowsOf examiner noneFirst (sorts.map .sort) input l =
      .ok ((founds.foldl (fun rows found => Stage.sortedRows noneFirst found rows) rows).map
        .projected) := by
  induction hfounds generalizing input rows l with
  | nil =>
    rw [List.foldl_nil, ← hrows]
    rfl
  | @cons keys found sorts founds hfound _ ih =>
    have hs : stage input.projection? (.sort keys) = .ok (.sort found p) := by
      rw [hprojection, stage, hfound]
    rw [List.map_cons, rowsOf_cons hs, List.foldl_cons]
    exact ih (Stage.projection?_sortStream noneFirst found p input)
      (Stage.rows_sortStream noneFirst found p hrows) l

/-- Sorting steps by one key each, of which the last key goes first. -/
theorem rowsOf_sort_singles (examiner : Examiner) (noneFirst : Bool) {keys : List SortKey}
    {found : List (Nat × Direction)} (hfound : Sorting.positions p keys = .ok found)
    {input : Stream} (hprojection : input.projection? = some p)
    (hrows : input.rows = rows.map .projected) (l : Lookups) :
    rowsOf examiner noneFirst (keys.reverse.map fun key => .sort [key]) input l =
      .ok ((found.foldr (fun position sorted => Stage.sortedRows noneFirst [position] sorted)
        rows).map .projected) := by
  have hfounds : List.Forall₂ (fun keys found => Sorting.positions p keys = .ok found)
      (keys.reverse.map ([·])) (found.reverse.map ([·])) := by
    rw [List.forall₂_map_left_iff, List.forall₂_map_right_iff, List.forall₂_reverse_iff]
    exact Sorting.forall₂_positions hfound
  have hsorts := rowsOf_sorts examiner noneFirst hfounds hprojection hrows l
  rw [List.map_map, List.foldl_map, List.foldl_reverse] at hsorts
  exact hsorts

/-- **A sort by several keys is a sequence of sorts by one key**, of which that by the last key
goes first; and sorting what has been sorted by the same keys leaves it as it is, and so does
sorting rows that are in order from the start. -/
theorem rowsOf_sort_keys {keys : List SortKey} {input : Stream} (examiner : Examiner)
    (noneFirst : Bool) (l : Lookups)
    (hkeys : ∀ key ∈ keys, (Projection.indexOfIdentifier? p key.identifier).isSome = true)
    (hnumbers : ∀ key ∈ keys, Found.NumbersAgree (rows.map (·.under p key)))
    (hprojection : input.projection? = some p) (hrows : input.rows = rows.map .projected) :
    ∃ sorted : List ProjectedRow,
      rowsOf examiner noneFirst [.sort keys] input l = .ok (sorted.map .projected) ∧
      rowsOf examiner noneFirst (keys.reverse.map fun key => .sort [key]) input l =
        .ok (sorted.map .projected) ∧
      rowsOf examiner noneFirst [.sort keys, .sort keys] input l = .ok (sorted.map .projected) ∧
      ((rows.Pairwise fun a b => ¬Sorting.RowPrecedes p noneFirst b a keys) → sorted = rows) := by
  obtain ⟨found, hfound⟩ := Execute.positions_eq_ok hkeys
  have hblurs := Sorting.not_blursUnder hnumbers
  have hsorted := (Stage.stablySorts_sortedRows hfound noneFirst hblurs).ascending
  have hblurs' : ¬Sorting.BlursUnder p keys (Stage.sortedRows noneFirst found rows) := fun h =>
    hblurs (h.mono (List.Subset.refl keys) fun _ => Stage.mem_of_mem_sortedRows)
  refine ⟨Stage.sortedRows noneFirst found rows, ?once, ?singles, ?twice,
    Stage.sortedRows_of_ascending hfound hblurs⟩
  case once => exact rowsOf_sorts examiner noneFirst (.cons hfound .nil) hprojection hrows l
  case singles =>
    rw [Stage.sortedRows_eq_foldr hfound noneFirst hblurs]
    exact rowsOf_sort_singles examiner noneFirst hfound hprojection hrows l
  case twice =>
    have htwice := rowsOf_sorts examiner noneFirst (.cons hfound (.cons hfound .nil))
      hprojection hrows l
    rw [List.foldl_cons, List.foldl_cons, List.foldl_nil,
      Stage.sortedRows_of_ascending hfound hblurs' hsorted] at htwice
    exact htwice

/-! ### Lamps of the same power by name -/

/-- No lamp has a name that is a number. -/
theorem numbersAgree_names (direction : Direction) :
    Found.NumbersAgree (lampRows.map (·.under lampColumns ⟨"name", direction⟩)) := by
  have hnames : lampRows.map (·.under lampColumns ⟨"name", direction⟩) =
      ["desk", "hall", "ceiling", "street"].map fun name => .primitive (.string name) := rfl
  rw [hnames]
  exact .inl (by simp)

/-- The strongest lamp first, and lamps of the same power by name; the last key names the power
again. -/
def byPowerAndName : List SortKey :=
  [⟨"watts", .descending⟩, ⟨"name", .ascending⟩, ⟨"watts", .ascending⟩]

theorem rowsOf_sort_keys_byPowerAndName :
    ((∀ key ∈ byPowerAndName,
        (Projection.indexOfIdentifier? lampColumns key.identifier).isSome = true) ∧
      (∀ key ∈ byPowerAndName, Found.NumbersAgree (lampRows.map (·.under lampColumns key))) ∧
      lampStream.projection? = some lampColumns ∧ lampStream.rows = lampRows.map .projected) ∧
    ∃ sorted : List ProjectedRow,
      rowsOf (fun _ _ => .ok .noValue) true [.sort byPowerAndName] lampStream {} =
        .ok (sorted.map .projected) ∧
      rowsOf (fun _ _ => .ok .noValue) true
          (byPowerAndName.reverse.map fun key => .sort [key]) lampStream {} =
        .ok (sorted.map .projected) ∧
      rowsOf (fun _ _ => .ok .noValue) true [.sort byPowerAndName, .sort byPowerAndName]
          lampStream {} =
        .ok (sorted.map .projected) ∧
      ((lampRows.Pairwise fun a b => ¬Sorting.RowPrecedes lampColumns true b a byPowerAndName) →
        sorted = lampRows) := by
  have hkeys : ∀ key ∈ byPowerAndName,
      (Projection.indexOfIdentifier? lampColumns key.identifier).isSome = true := by
    decide
  have hnumbers : ∀ key ∈ byPowerAndName,
      Found.NumbersAgree (lampRows.map (·.under lampColumns key)) := by
    intro key hkey
    simp only [byPowerAndName, List.mem_cons, List.not_mem_nil, or_false] at hkey
    rcases hkey with rfl | rfl | rfl
    · exact numbersAgree_watts .descending
    · exact numbersAgree_names .ascending
    · exact numbersAgree_watts .ascending
  exact ⟨⟨hkeys, hnumbers, rfl, rfl⟩, rowsOf_sort_keys _ true {} hkeys hnumbers rfl rfl⟩

/-- The name decides between lamps of the same power only. -/
example :
    rowsOf (fun _ _ => .ok .noValue) true [.sort byPowerAndName] lampStream {} =
      .ok ([lampRow "hall" none, lampRow "street" (some (.ofNat 100)),
        lampRow "ceiling" (some (.ofNat 40)), lampRow "desk" (some (.ofNat 40))].map .projected) :=
  rfl

end Pipeline

end ObjectQuery
