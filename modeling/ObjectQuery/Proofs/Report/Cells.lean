import ObjectQuery.Proofs.Condition.Verdict
import ObjectQuery.Proofs.Placing
import ObjectQuery.Report.Cell

/-!
# The cells of a row

Cells are put under their titles one after another, and the last one put under a title
stays. `Cells.Shows` says what that comes to for the columns of a row: the titles ascend,
so that each has one cell; they are the titles of the columns; and under each stands what
the last column of that title shows. A lookup that fails shows as an empty cell.
-/

namespace ObjectQuery

/-- What is shown for an answer; a failure is shown as *not found*. -/
def shown : Except Failure Found → Found
  | .ok found => found
  | .error failure => .notFound failure.message

/-- The cell for an answer; a failure leaves it empty. -/
def Cell.ofAnswer : Except Failure Found → Cell
  | .ok found => Cell.ofFound found
  | .error _ => ⟨false, ""⟩

@[simp] theorem Cell.ofFound_shown (answer : Except Failure Found) :
    Cell.ofFound (shown answer) = Cell.ofAnswer answer := by
  cases answer <;> rfl

/-- What columns show of an entry that a view answers for. -/
def shownColumns (columns : List ResultColumn) (view : View) : List (String × Found) :=
  columns.map fun c => (c.title, shown (view c.path))

/-- The row of an entry that a view answers for. -/
def shownRow (columns : List ResultColumn) (view : Examiner) (e : Entry) : ResultRow :=
  ⟨e, Cells.ofFound (shownColumns columns (view e))⟩

namespace Cells

/-! ### One title after another -/

theorem lookup_insert (cells : Cells) (title : String) (cell : Cell) (t : String) :
    (insert cells title cell).lookup t = if t = title then some cell else cells.lookup t := by
  induction cells with
  | nil => rw [insert, lookup_cons_eq_ite]
  | cons first rest ih =>
    obtain ⟨t', c⟩ := first
    rw [insert]
    split
    · rw [lookup_cons_eq_ite]
    · split
      · next heq =>
        subst heq
        rw [lookup_cons_eq_ite, lookup_cons_eq_ite]
        split <;> rfl
      · next hne =>
        rw [lookup_cons_eq_ite, lookup_cons_eq_ite, ih]
        by_cases h : t = t'
        · rw [if_pos h, if_neg (h ▸ Ne.symm hne), if_pos h]
        · rw [if_neg h, if_neg h]

theorem insert_eq_place (cells : Cells) (title : String) (cell : Cell) :
    insert cells title cell = Placing.place Prod.fst (title, cell) cells := by
  induction cells with
  | nil => rfl
  | cons first rest ih =>
    obtain ⟨t, c⟩ := first
    rw [insert, Placing.place, ih]

/-! ### All titles -/

theorem lookup_foldl_insert (pairs : List (String × Found)) (cells : Cells) (t : String) :
    (pairs.foldl (fun cells (title, found) => insert cells title (Cell.ofFound found)) cells).lookup
        t = ((pairs.reverse.lookup t).map Cell.ofFound).or (cells.lookup t) := by
  induction pairs generalizing cells with
  | nil => simp
  | cons first rest ih =>
    obtain ⟨title, found⟩ := first
    rw [List.foldl_cons, ih, List.reverse_cons, List.lookup_append, lookup_insert,
      lookup_cons_eq_ite]
    by_cases h : t = title
    · cases rest.reverse.lookup t <;> simp [h]
    · cases rest.reverse.lookup t <;> simp [h]

/-- **The last value of a title stays.** -/
theorem lookup_ofFound (pairs : List (String × Found)) (t : String) :
    (ofFound pairs).lookup t = (pairs.reverse.lookup t).map Cell.ofFound := by
  rw [ofFound, lookup_foldl_insert]
  simp

/-- The titles of cells ascend. -/
theorem pairwise_ofFound (pairs : List (String × Found)) :
    (ofFound pairs).Pairwise fun p q => p.1 < q.1 := by
  have hplaced : ofFound pairs =
      Placing.placeAll Prod.fst [] (pairs.map fun p => (p.1, Cell.ofFound p.2)) := by
    simp only [ofFound, Placing.placeAll, List.foldl_map, insert_eq_place]
  rw [hplaced]
  exact Placing.Ascends.placeAll .nil _

/-- A title has a cell exactly if a value was put under it. -/
theorem mem_titles_ofFound {pairs : List (String × Found)} {t : String} :
    t ∈ (ofFound pairs).map Prod.fst ↔ t ∈ pairs.map Prod.fst := by
  have hkeys : ∀ {β : Type} (xs : List (String × β)),
      t ∈ xs.map Prod.fst ↔ (xs.lookup t).isSome = true := by
    intro β xs
    rw [List.lookup_isSome_iff]
    simp
  rw [hkeys, lookup_ofFound, Option.isSome_map, ← hkeys, List.map_reverse, List.mem_reverse]

/-! ### Columns -/

/-- Further columns do not change what stands under titles that are not theirs. -/
theorem lookup_shownColumns_append {columns further : List ResultColumn} {title : String}
    (h : ∀ d ∈ further, d.title ≠ title) (view : View) :
    (ofFound (shownColumns (columns ++ further) view)).lookup title =
      (ofFound (shownColumns columns view)).lookup title := by
  have hnone : (shownColumns further view).reverse.lookup title = none := by
    rw [List.lookup_eq_none_iff]
    intro p hp
    obtain ⟨d, hd, rfl⟩ := List.mem_map.1 (List.mem_reverse.1 hp)
    simpa using Ne.symm (h d hd)
  have hsplit : (shownColumns (columns ++ further) view).reverse =
      (shownColumns further view).reverse ++ (shownColumns columns view).reverse := by
    simp [shownColumns]
  rw [lookup_ofFound, lookup_ofFound, hsplit, List.lookup_append, hnone, Option.none_or]

/-- The cells of a row show columns of what a view answers: one cell for each title, with
what the last column of that title shows. -/
structure Shows (cells : Cells) (columns : List ResultColumn) (view : View) : Prop where
  ascending : cells.Pairwise fun p q => p.1 < q.1
  titles : ∀ title, title ∈ cells.map Prod.fst ↔ ∃ c ∈ columns, c.title = title
  last : ∀ before c after, columns = before ++ c :: after → (∀ d ∈ after, d.title ≠ c.title) →
    cells.lookup c.title = some (Cell.ofAnswer (view c.path))

theorem shows_ofFound (columns : List ResultColumn) (view : View) :
    (ofFound (shownColumns columns view)).Shows columns view := by
  refine ⟨pairwise_ofFound _, fun title => ?_, ?_⟩
  · rw [mem_titles_ofFound, shownColumns, List.map_map]
    exact List.mem_map
  · rintro before c after rfl hafter
    have hsplit : before ++ c :: after = (before ++ [c]) ++ after := by simp
    rw [hsplit, lookup_shownColumns_append hafter, lookup_ofFound, shownColumns, List.map_append,
      List.reverse_append]
    simp

/-- A row has a cell under each of its titles. -/
theorem Shows.exists_cell {cells : Cells} {columns : List ResultColumn} {view : View}
    (h : cells.Shows columns view) {c : ResultColumn} (hc : c ∈ columns) :
    ∃ cell, cells.lookup c.title = some cell := by
  obtain ⟨p, hp, htitle⟩ := List.mem_map.1 ((h.titles c.title).2 ⟨c, hc, rfl⟩)
  refine Option.isSome_iff_exists.1 (List.lookup_isSome_iff.2 ⟨p, hp, ?_⟩)
  simp [htitle]

/-- No title stands twice in a row. -/
theorem Shows.nodup_titles {cells : Cells} {columns : List ResultColumn} {view : View}
    (h : cells.Shows columns view) : (cells.map Prod.fst).Nodup := by
  refine List.pairwise_map.2 (h.ascending.imp fun hlt heq => ?_)
  rw [heq] at hlt
  exact Std.lt_irrefl hlt

end Cells

end ObjectQuery
