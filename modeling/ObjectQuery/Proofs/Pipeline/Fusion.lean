import ObjectQuery.Proofs.Pipeline.Passes

/-!
# Two filters in one

A filter behind another one passes on the rows that fulfil both conditions, and so does a single
filter by the two conditions nested side by side (`Condition.nestedAnd`). The two ways are not
the same run: two filters ask everything about the first condition before anything about the
second, and one filter asks about both of them row by row. Nor does either of them ask about the
second condition where the first one is false or fails, so that a failure in the second is
missed by both.

What makes them agree is that every row is answered as at the start, whatever has been asked in
between, if the examiner does not tell entries of one number apart
(`Lookups.answeredBy_of_answersByNumber`). Then a row is passed on or not for itself
(`Stage.fulfils`), and the fold over the nested conditions comes to the conjunction of the two
(`Stage.fulfils_nestedAnd`). Entries that the examiner tells apart in spite of their number are
answered one for the other, as what is kept is kept by number, and then the order of the
questions shows (`Pipeline.rowsOf_filter_mixedUpParcels`).
-/

namespace ObjectQuery

/-! ### Conditions side by side -/

namespace Condition

/-- Two conditions, nested, the second one behind `AND`. The relation in front of the first one
has no part in it. -/
def nestedAnd (relation : Relation) (c c' : Condition) : Condition :=
  [⟨relation, .condition c⟩, ⟨.and, .condition c'⟩]

/-- **The verdict of nested conditions**: that of the second if the first one holds. -/
theorem verdict_nestedAnd (view : View) (relation : Relation) (c c' : Condition) :
    verdict view (nestedAnd relation c c') =
      (verdict view c).bind fun holds => if holds then verdict view c' else .ok false := by
  rw [nestedAnd, verdict, elementVerdict]
  cases verdict view c with
  | error failure => rfl
  | ok holds =>
    change restVerdict view holds [⟨.and, .condition c'⟩] =
      if holds then verdict view c' else .ok false
    cases holds with
    | false => rfl
    | true =>
      rw [restVerdict, elementVerdict, if_neg (by decide), if_pos rfl]
      cases verdict view c' <;> rfl

end Condition

namespace Stage

/-! ### Rows that fulfil a condition -/

/-- A row has something to evaluate a condition against, and the condition comes to true. -/
def fulfils (view : Examiner) (c : Condition) (declared? : Option Projection) (row : Row) : Bool :=
  match subject declared? row with
  | .ok s => (Condition.verdict (s.seen view) c).toOption.getD false
  | .error _ => false

theorem passedOn_filterAnswer (view : Examiner) (c : Condition) (declared? : Option Projection)
    (row : Row) :
    passedOn (filterAnswer view c declared? row) =
      Option.guard (fulfils view c declared?) row := by
  rw [filterAnswer, Option.guard, fulfils]
  cases subject declared? row with
  | error failure => rfl
  | ok s =>
    change passedOn ((Condition.verdict (s.seen view) c).bind _) =
      if (Condition.verdict (s.seen view) c).toOption.getD false = true then some row else none
    cases Condition.verdict (s.seen view) c with
    | error failure => rfl
    | ok holds => cases holds <;> rfl

/-- **A row fulfils nested conditions if it fulfils both.** -/
theorem fulfils_nestedAnd (view : Examiner) (relation : Relation) (c c' : Condition)
    (declared? : Option Projection) (row : Row) :
    fulfils view (c.nestedAnd relation c') declared? row =
      (fulfils view c declared? row && fulfils view c' declared? row) := by
  rw [fulfils, fulfils, fulfils]
  cases subject declared? row with
  | error failure => rfl
  | ok s =>
    simp only [Condition.verdict_nestedAnd]
    cases Condition.verdict (s.seen view) c with
    | error failure => rfl
    | ok holds => cases holds <;> rfl

section Evaluation

variable {P : Lookups → Prop} {examiner view : Examiner} {entries : List Entry} {input : Stream}

/-- **Filtering passes on the rows that fulfil the condition**, of any kind. -/
theorem gives_run_fulfils (h : AnsweredBy P examiner view entries)
    (hinput : ∀ row ∈ input.rows, ∀ e, row.backing? = some e → e ∈ entries) (noneFirst : Bool)
    (c : Condition) (declared? : Option Projection) :
    ∃ out, Gives P (run examiner noneFirst input (.filter c declared?)) out ∧
      out.rows = input.rows.filter (fulfils view c declared?) := by
  refine ⟨_, gives_treatAll (fun row hrow => gives_filterRow h c declared? (hinput row hrow)) _, ?_⟩
  rw [rows_foldl_treated]
  simp only [passedOn_filterAnswer, List.filterMap_eq_filter, List.nil_append]

end Evaluation

end Stage

namespace Pipeline

section Fusion

variable {examiner view : Examiner} {P : Lookups → Prop} {entries : List Entry} {input : Stream}
  {l : Lookups}

theorem rowsOf_filter (h : AnsweredBy P examiner view entries)
    (hinput : ∀ row ∈ input.rows, ∀ e, row.backing? = some e → e ∈ entries) (hl : P l)
    (noneFirst : Bool) (c : Condition) :
    rowsOf examiner noneFirst [.filter c] input l =
      .ok (input.rows.filter (Stage.fulfils view c input.projection?)) := by
  obtain ⟨out, hout, hrows⟩ := Stage.gives_run_fulfils h hinput noneFirst c input.projection?
  rw [rowsOf_singleton rfl, (hout l hl).1, hrows]

theorem rowsOf_filter_filter (h : AnsweredBy P examiner view entries)
    (hinput : ∀ row ∈ input.rows, ∀ e, row.backing? = some e → e ∈ entries) (hl : P l)
    (noneFirst : Bool) (c c' : Condition) :
    rowsOf examiner noneFirst [.filter c, .filter c'] input l =
      .ok (input.rows.filter fun row => Stage.fulfils view c input.projection? row &&
        Stage.fulfils view c' input.projection? row) := by
  obtain ⟨out, hout, hrows⟩ := Stage.gives_run_fulfils h hinput noneFirst c input.projection?
  have hleft : ∀ row ∈ out.rows, ∀ e, row.backing? = some e → e ∈ entries := by
    intro row hrow
    rw [hrows] at hrow
    exact hinput row (List.mem_filter.1 hrow).1
  obtain ⟨out', hout', hrows'⟩ := Stage.gives_run_fulfils h hleft noneFirst c' input.projection?
  have hsecond : stage (Stage.filter c input.projection?).declares (.filter c') =
      .ok (.filter c' input.projection?) := rfl
  obtain ⟨hfirst, hstate⟩ := hout l hl
  rw [rowsOf_pair rfl hsecond, hfirst, (hout' _ hstate).1, hrows', hrows, List.filter_filter]
  exact congrArg Except.ok (List.filter_congr fun row _ => Bool.and_comm ..)

/-- **Two filters are one**: filtering by two conditions one after the other passes on the same
rows, in the same order, as filtering by both nested side by side. A row of any kind is passed
on if both conditions come to true for it; it is dropped if one of them is false or fails, or if
there is nothing to evaluate them against. -/
theorem rowsOf_filter_nestedAnd (noneFirst : Bool) (input : Stream) (l : Lookups)
    (relation : Relation) (c c' : Condition)
    (hanswers : AnswersByNumber examiner (input.rows.filterMap Row.backing?)) :
    let rows := input.rows.filter fun row =>
      Stage.fulfils (l.answer examiner) c input.projection? row &&
        Stage.fulfils (l.answer examiner) c' input.projection? row
    rowsOf examiner noneFirst [.filter c, .filter c'] input l = .ok rows ∧
      rowsOf examiner noneFirst [.filter (c.nestedAnd relation c')] input l = .ok rows := by
  have hview := Lookups.answeredBy_of_answersByNumber hanswers l
  have hinput : ∀ row ∈ input.rows, ∀ e, row.backing? = some e →
      e ∈ input.rows.filterMap Row.backing? :=
    fun row hrow e he => List.mem_filterMap.2 ⟨row, hrow, he⟩
  refine ⟨rowsOf_filter_filter hview hinput (fun _ _ _ => rfl) noneFirst c c', ?_⟩
  rw [rowsOf_filter hview hinput (fun _ _ _ => rfl) noneFirst]
  exact congrArg Except.ok
    (List.filter_congr fun row _ => Stage.fulfils_nestedAnd _ relation c c' _ row)

end Fusion

/-! ### Parcels -/

/-- A parcel has a receiver, and all but the second one have been weighed. -/
def parcelExaminer : Examiner := fun e path =>
  if path = "receiver" then .ok (.primitive (.string "ann"))
  else if path = "weight" then
    if e.id = 2 then .error (.discovery path "not weighed")
    else .ok (.primitive (.number (.integer (.ofNat e.id))))
  else .error (.discovery path "unreachable")

/-- Parcels with and without an entry behind them, one of them of another receiver, and one that
nobody has looked at, which is that of the first row. -/
def parcels : Stream where
  projection? := some [{ path := "receiver" }]
  rows :=
    [.projected ⟨some ⟨1, "parcels/1", "post", "Parcel"⟩, [.primitive (.string "ann")]⟩,
      .projected ⟨some ⟨2, "parcels/2", "post", "Parcel"⟩, [.primitive (.string "ann")]⟩,
      .projected ⟨some ⟨2, "parcels/2", "post", "Parcel"⟩, [.primitive (.string "zoe")]⟩,
      .projected ⟨none, [.primitive (.string "ann")]⟩,
      .entry ⟨1, "parcels/1", "post", "Parcel"⟩]

/-- For Ann. -/
def forAnn : Condition :=
  [⟨.and, .assertion "receiver" (.predicate (.is (.string "ann")))⟩]

/-- Weighed. -/
def weighed : Condition :=
  [⟨.and, .assertion "weight" (.predicate .isPresent)⟩]

theorem rowsOf_filter_nestedAnd_parcels :
    AnswersByNumber parcelExaminer (parcels.rows.filterMap Row.backing?) ∧
    let rows := parcels.rows.filter fun row =>
      Stage.fulfils (({} : Lookups).answer parcelExaminer) forAnn parcels.projection? row &&
        Stage.fulfils (({} : Lookups).answer parcelExaminer) weighed parcels.projection? row
    rowsOf parcelExaminer true [.filter forAnn, .filter weighed] parcels {} = .ok rows ∧
      rowsOf parcelExaminer true [.filter (forAnn.nestedAnd .or weighed)] parcels {} =
        .ok rows := by
  have hanswers : AnswersByNumber parcelExaminer (parcels.rows.filterMap Row.backing?) := by
    intro e _ e' _ hid
    funext path
    rw [parcelExaminer, parcelExaminer, hid]
  exact ⟨hanswers, rowsOf_filter_nestedAnd true parcels {} .or forAnn weighed hanswers⟩

/-- An examiner that tells entries apart by where they are found, whatever their number. -/
def uriExaminer : Examiner := fun e _ =>
  .ok (.primitive (.string e.uri))

/-- A parcel that is paid and one that is not, which have been given one number. -/
def mixedUpParcels : Stream where
  projection? := some [{ path := "paid" }]
  rows :=
    [.projected ⟨some ⟨1, "x", "post", "Parcel"⟩, [.primitive (.boolean true)]⟩,
      .projected ⟨some ⟨1, "y", "post", "Parcel"⟩, [.primitive (.boolean false)]⟩]

/-- Paid, or found at `y`. -/
def paidOrAtY : Condition :=
  [⟨.and, .assertion "paid" (.predicate (.is (.boolean true)))⟩,
    ⟨.or, .assertion "place" (.predicate (.is (.string "y")))⟩]

/-- Found at `x`. -/
def atX : Condition :=
  [⟨.and, .assertion "place" (.predicate (.is (.string "x")))⟩]

/-- **Where two entries of one number are told apart, the order of the questions shows.** The
place of the second parcel is asked first by the filter for paid ones, and then the first parcel
is taken to be there too; nested side by side, the conditions ask for the place of the first
parcel first. -/
theorem rowsOf_filter_mixedUpParcels :
    ¬AnswersByNumber uriExaminer (mixedUpParcels.rows.filterMap Row.backing?) ∧
    rowsOf uriExaminer true [.filter paidOrAtY, .filter atX] mixedUpParcels {} = .ok [] ∧
    rowsOf uriExaminer true [.filter (paidOrAtY.nestedAnd .and atX)] mixedUpParcels {} =
      .ok (mixedUpParcels.rows.take 1) ∧
    rowsOf uriExaminer true [.filter paidOrAtY, .filter atX] mixedUpParcels {} ≠
      rowsOf uriExaminer true [.filter (paidOrAtY.nestedAnd .and atX)] mixedUpParcels {} := by
  have hapart : ¬AnswersByNumber uriExaminer (mixedUpParcels.rows.filterMap Row.backing?) := by
    intro hanswers
    have hsame := hanswers ⟨1, "x", "post", "Parcel"⟩ (by simp [mixedUpParcels, Row.backing?])
      ⟨1, "y", "post", "Parcel"⟩ (by simp [mixedUpParcels, Row.backing?]) rfl
    have hplace := congrFun hsame "place"
    simp [uriExaminer] at hplace
  have htwo : rowsOf uriExaminer true [.filter paidOrAtY, .filter atX] mixedUpParcels {} =
      .ok [] := rfl
  have hone : rowsOf uriExaminer true [.filter (paidOrAtY.nestedAnd .and atX)]
      mixedUpParcels {} = .ok (mixedUpParcels.rows.take 1) := rfl
  refine ⟨hapart, htwo, hone, fun h => ?_⟩
  rw [htwo, hone] at h
  cases h

end Pipeline

end ObjectQuery
