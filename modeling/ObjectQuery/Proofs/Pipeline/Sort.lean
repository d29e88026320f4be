import ObjectQuery.Proofs.Pipeline.Ordered
import ObjectQuery.Proofs.Sorting.Keys

/-!
# The rows that a sort stage passes on

A row belongs in front of another one if its value does under the first key that tells
the two apart (`Sorting.RowPrecedes`). Keys name columns by identifier, and a row that is
too short to have the column has no value under the key (`ProjectedRow.under`).

The stage of a sorting step compares by position, and says the same
(`Sorting.compareColumns_eq_lt_iff`). So it passes on the rows of its input sorted stably
(`Pipeline.stage_sort_stablySorts`), if no column that a key names mixes integers with
doubles. Where one does, a double may be equal to two integers that are not equal
(`Sorting.BlursUnder`). Comparing is no order then; sorting by it means nothing, and it may
break off.
-/

namespace ObjectQuery

/-- The value of a row in the column that a key names. -/
def ProjectedRow.under (p : Projection) (key : SortKey) (r : ProjectedRow) : Found :=
  ((Projection.indexOfIdentifier? p key.identifier).bind fun i => r.columns[i]?).getD .noValue

namespace Sorting

/-- A row belongs in front of another one under several keys. -/
inductive RowPrecedes (p : Projection) (noneFirst : Bool) (a b : ProjectedRow) :
    List SortKey → Prop
  | decided {key : SortKey} {rest : List SortKey}
    (h : Precedes key.direction noneFirst (a.under p key) (b.under p key)) :
    RowPrecedes p noneFirst a b (key :: rest)
  | tied {key : SortKey} {rest : List SortKey}
    (hab : ¬Precedes key.direction noneFirst (a.under p key) (b.under p key))
    (hba : ¬Precedes key.direction noneFirst (b.under p key) (a.under p key))
    (hrest : RowPrecedes p noneFirst a b rest) : RowPrecedes p noneFirst a b (key :: rest)

variable {p : Projection} {noneFirst : Bool}

theorem rowPrecedes_cons_iff {key : SortKey} {rest : List SortKey} {a b : ProjectedRow} :
    RowPrecedes p noneFirst a b (key :: rest) ↔
      Precedes key.direction noneFirst (a.under p key) (b.under p key) ∨
        (¬Precedes key.direction noneFirst (a.under p key) (b.under p key) ∧
          ¬Precedes key.direction noneFirst (b.under p key) (a.under p key)) ∧
        RowPrecedes p noneFirst a b rest := by
  constructor
  · rintro (h | ⟨hab, hba, hrest⟩)
    · exact .inl h
    · exact .inr ⟨⟨hab, hba⟩, hrest⟩
  · rintro (h | ⟨⟨hab, hba⟩, hrest⟩)
    · exact .decided h
    · exact .tied hab hba hrest

/-- The positions of sort keys are those of the first one and those of the others. -/
theorem positions_cons_eq_ok {key : SortKey} {rest : List SortKey}
    {found : List (Nat × Direction)} (h : positions p (key :: rest) = .ok found) :
    ∃ i found', Projection.indexOfIdentifier? p key.identifier = some i ∧
      positions p rest = .ok found' ∧ found = (i, key.direction) :: found' := by
  rw [positions] at h
  cases hi : Projection.indexOfIdentifier? p key.identifier with
  | none =>
    rw [hi] at h
    cases h
  | some i =>
    rw [hi] at h
    cases hrest : positions p rest with
    | error name =>
      rw [hrest] at h
      cases h
    | ok found' =>
      rw [hrest] at h
      cases h
      exact ⟨i, found', rfl, rfl, rfl⟩

/-- Every key position is that of a key, and gives the value of a row under it. -/
theorem exists_under_of_mem_positions {keys : List SortKey} {found : List (Nat × Direction)}
    (h : positions p keys = .ok found) {position : Nat × Direction} (hmem : position ∈ found) :
    ∃ key ∈ keys, ∀ r : ProjectedRow, columnValue r.columns position.1 = r.under p key := by
  induction keys generalizing found with
  | nil =>
    cases h
    cases hmem
  | cons key rest ih =>
    obtain ⟨i, found', hi, hrest, rfl⟩ := positions_cons_eq_ok h
    rcases List.mem_cons.1 hmem with rfl | hmem
    · exact ⟨key, List.mem_cons_self, fun r => by rw [ProjectedRow.under, hi]; rfl⟩
    · obtain ⟨key', hkey', hunder⟩ := ih hrest hmem
      exact ⟨key', List.mem_cons_of_mem _ hkey', hunder⟩

/-- **Comparing the columns at the positions of the keys decides which row belongs in
front.** -/
theorem compareColumns_eq_lt_iff {keys : List SortKey} {found : List (Nat × Direction)}
    (h : positions p keys = .ok found) (a b : ProjectedRow) :
    compareColumns noneFirst found a.columns b.columns = .lt ↔
      RowPrecedes p noneFirst a b keys := by
  induction keys generalizing found with
  | nil =>
    cases h
    exact iff_of_false (by rintro ⟨⟩) (by rintro ⟨⟩)
  | cons key rest ih =>
    obtain ⟨i, found', hi, hrest, rfl⟩ := positions_cons_eq_ok h
    have hunder : ∀ r : ProjectedRow, r.under p key = columnValue r.columns i := fun r => by
      rw [ProjectedRow.under, hi]
      rfl
    rw [compareColumns, Ordering.then_eq_lt, rowPrecedes_cons_iff, ← hunder, ← hunder,
      compareValues_eq_lt_iff, compareValues_eq_eq_iff, ih hrest]

/-- Among the values of rows under one of the keys, a double blurs two integers. -/
def BlursUnder (p : Projection) (keys : List SortKey) (rows : List ProjectedRow) : Prop :=
  ∃ key ∈ keys, ∃ a ∈ rows, ∃ b ∈ rows, ∃ c ∈ rows,
    Found.Blurs (a.under p key) (b.under p key) (c.under p key)

theorem BlursUnder.mono {keys keys' : List SortKey} {rows rows' : List ProjectedRow}
    (h : BlursUnder p keys rows) (hkeys : keys ⊆ keys') (hrows : rows ⊆ rows') :
    BlursUnder p keys' rows' := by
  obtain ⟨key, hkey, a, ha, b, hb, c, hc, hblurs⟩ := h
  exact ⟨key, hkeys hkey, a, hrows ha, b, hrows hb, c, hrows hc, hblurs⟩

/-- Where the numbers under each key are of one kind, no double blurs two integers. -/
theorem not_blursUnder {keys : List SortKey} {rows : List ProjectedRow}
    (h : ∀ key ∈ keys, Found.NumbersAgree (rows.map (·.under p key))) :
    ¬BlursUnder p keys rows := by
  rintro ⟨key, hkey, a, ha, b, hb, c, -, hblurs⟩
  exact (h key hkey).not_blurs (List.mem_map_of_mem ha) (List.mem_map_of_mem hb) hblurs

/-- **Comparing rows by keys is an order** on rows among whose values under a key no double
blurs two integers. -/
theorem transCmp_rows {keys : List SortKey} {found : List (Nat × Direction)}
    (hfound : positions p keys = .ok found) (noneFirst : Bool) {rows : List ProjectedRow}
    (h : ¬BlursUnder p keys rows) :
    Std.TransCmp fun a b : { r // r ∈ rows } =>
      compareColumns noneFirst found a.1.columns b.1.columns := by
  refine transCmp_compareColumns noneFirst _ fun position hposition a b c hblurs => h ?_
  obtain ⟨key, hkey, hunder⟩ := exists_under_of_mem_positions hfound hposition
  rw [hunder, hunder, hunder] at hblurs
  exact ⟨key, hkey, _, a.2, _, b.2, _, c.2, hblurs⟩

end Sorting

namespace Stage

variable {p : Projection} {keys : List SortKey} {found : List (Nat × Direction)}
  {rows : List ProjectedRow}

/-- **Sorting rows by keys does not break off**, if no double among the values under a key blurs
two integers. -/
theorem sortRows_eq_stableSort (hfound : Sorting.positions p keys = .ok found) (noneFirst : Bool)
    (h : ¬Sorting.BlursUnder p keys rows) :
    sortRows noneFirst found rows = some (Sorting.stableSort
      (fun a b => Sorting.compareColumns noneFirst found a.columns b.columns == .lt) rows) :=
  Sorting.sort_eq_stableSort (Sorting.transCmp_rows hfound noneFirst h)

/-- **What makes sorting break off**: among the values under a key a double blurs two integers. -/
theorem blursUnder_of_sortRows_eq_none (hfound : Sorting.positions p keys = .ok found)
    {noneFirst : Bool} (h : sortRows noneFirst found rows = none) :
    Sorting.BlursUnder p keys rows := by
  by_contra hblurs
  rw [sortRows_eq_stableSort hfound noneFirst hblurs] at h
  cases h

theorem sortedRows_eq_stableSort (hfound : Sorting.positions p keys = .ok found)
    (noneFirst : Bool) (h : ¬Sorting.BlursUnder p keys rows) :
    sortedRows noneFirst found rows = Sorting.stableSort
      (fun a b => Sorting.compareColumns noneFirst found a.columns b.columns == .lt) rows := by
  rw [sortedRows, sortRows_eq_stableSort hfound noneFirst h, Option.getD_some]

/-- **Sorting rows by keys is stable**, if no double among the values under a key blurs
two integers. -/
theorem stablySorts_sortedRows (hfound : Sorting.positions p keys = .ok found) (noneFirst : Bool)
    (h : ¬Sorting.BlursUnder p keys rows) :
    Sorting.StablySorts (fun a b => Sorting.RowPrecedes p noneFirst a b keys) rows
      (sortedRows noneFirst found rows) := by
  have hsorts : Sorting.StablySorts
      (fun a b => Sorting.compareColumns noneFirst found a.columns b.columns = .lt) rows
      (sortedRows noneFirst found rows) := by
    rw [sortedRows_eq_stableSort hfound noneFirst h]
    exact Sorting.stablySorts_stableSort (Sorting.transCmp_rows hfound noneFirst h)
  simp only [Sorting.compareColumns_eq_lt_iff hfound] at hsorts
  exact hsorts

end Stage

/-- **The sort stage sorts stably.** -/
theorem Pipeline.stage_sort_stablySorts {p : Projection} {keys : List SortKey}
    {input : Stream} {rows : List ProjectedRow} (examiner : Examiner) (noneFirst : Bool)
    (hkeys : ∀ key ∈ keys, (Projection.indexOfIdentifier? p key.identifier).isSome = true)
    (hnumbers : ∀ key ∈ keys, Found.NumbersAgree (rows.map (·.under p key)))
    (hprojection : input.projection? = some p) (hrows : input.rows = rows.map .projected) :
    ∃ s, stage input.projection? (.sort keys) = .ok s ∧
      ∀ lookups, ∃ out sorted, (s.run examiner noneFirst input).run lookups = (out, lookups) ∧
        out.rows = sorted.map .projected ∧
        Sorting.StablySorts (fun a b => Sorting.RowPrecedes p noneFirst a b keys) rows sorted := by
  obtain ⟨found, hfound⟩ := Execute.positions_eq_ok hkeys
  refine ⟨.sort found p, ?_, fun lookups => ?_⟩
  · rw [hprojection, stage, hfound]
  · exact ⟨_, _, rfl, Stage.rows_sortStream noneFirst found p hrows,
      Stage.stablySorts_sortedRows hfound noneFirst (Sorting.not_blursUnder hnumbers)⟩

/-! ### Lamps by power -/

/-- The name and the power of a lamp. -/
def lampColumns : Projection :=
  [{ path := "name" }, { path := "power", alias? := some "watts" }]

/-- The row of a lamp; the power of a lamp that is not known to have one is missing. -/
def lampRow (name : String) (power? : Option Integer) : ProjectedRow :=
  ⟨none, .primitive (.string name) :: power?.toList.map fun i => .primitive (.number (.integer i))⟩

/-- Four lamps, two of them of the same power. -/
def lampRows : List ProjectedRow :=
  [lampRow "desk" (some (.ofNat 40)), lampRow "hall" none, lampRow "ceiling" (some (.ofNat 40)),
    lampRow "street" (some (.ofNat 100))]

/-- The lamps as a stream. -/
def lampStream : Stream where
  rows := lampRows.map .projected
  projection? := some lampColumns

/-- No lamp has a power that is a double. -/
theorem numbersAgree_watts (direction : Direction) :
    Found.NumbersAgree (lampRows.map (·.under lampColumns ⟨"watts", direction⟩)) := by
  have hpowers : lampRows.map (·.under lampColumns ⟨"watts", direction⟩) =
      [.primitive (.number (.integer (.ofNat 40))), .noValue,
        .primitive (.number (.integer (.ofNat 40))),
        .primitive (.number (.integer (.ofNat 100)))] := rfl
  rw [hpowers]
  exact .inl (by simp)

/-- The strongest lamp first. -/
def byPower : List SortKey :=
  [⟨"watts", .descending⟩]

theorem Pipeline.stage_sort_stablySorts_byPower :
    ((∀ key ∈ byPower,
        (Projection.indexOfIdentifier? lampColumns key.identifier).isSome = true) ∧
      (∀ key ∈ byPower, Found.NumbersAgree (lampRows.map (·.under lampColumns key))) ∧
      lampStream.projection? = some lampColumns ∧ lampStream.rows = lampRows.map .projected) ∧
    ∃ s, stage lampStream.projection? (.sort byPower) = .ok s ∧
      ∀ lookups, ∃ out sorted,
        (s.run (fun _ _ => .ok .noValue) true lampStream).run lookups = (out, lookups) ∧
        out.rows = sorted.map .projected ∧
        Sorting.StablySorts (fun a b => Sorting.RowPrecedes lampColumns true a b byPower)
          lampRows sorted := by
  have hkeys : ∀ key ∈ byPower,
      (Projection.indexOfIdentifier? lampColumns key.identifier).isSome = true := by
    decide
  have hnumbers : ∀ key ∈ byPower,
      Found.NumbersAgree (lampRows.map (·.under lampColumns key)) := by
    intro key hkey
    rw [List.mem_singleton.1 hkey]
    exact numbersAgree_watts .descending
  exact ⟨⟨hkeys, hnumbers, rfl, rfl⟩, stage_sort_stablySorts _ true hkeys hnumbers rfl rfl⟩

/-- The lamp without a power comes first, in spite of the direction, and lamps of the same
power stay as they are. -/
example :
    (((Stage.sort [(1, .descending)] lampColumns).run (fun _ _ => .ok .noValue) true
        lampStream).run {}).1.rows =
      [lampRow "hall" none, lampRow "street" (some (.ofNat 100)),
        lampRow "desk" (some (.ofNat 40)), lampRow "ceiling" (some (.ofNat 40))].map .projected :=
  rfl

/-! ### Where sorting breaks off -/

/-- The weights of twenty-two things, in the order in which they were weighed. All but one are
integers, and the double is the nearest one to either. -/
def blurredWeights : List Number :=
  let light := .integer (.ofNat 9007199254740992)
  let heavy := .integer (.ofNat 9007199254740993)
  heavy :: light :: List.replicate 9 heavy ++
    .double (Double.ofInt 9007199254740992) :: List.replicate 10 light

/-- The row of a thing that has been weighed. -/
def weightRow (weight : Number) : ProjectedRow :=
  ⟨none, [.primitive (.number weight)]⟩

/-- **Sorting does break off** where numbers blur. With fewer rows it would go on and put them in
an order that means nothing. -/
theorem Stage.sortRows_blurredWeights :
    sortRows true [(0, .ascending)] (blurredWeights.map weightRow) = none := by
  decide +kernel

end ObjectQuery
