import ObjectQuery.Proofs.Condition.Verdict

/-!
# How a subject reads

Before a condition is evaluated a subject answers every path in some way, some paths from
what is kept and others from the examiner. `Subject.view` is that way as a view. Reading
one path does not change it (`Subject.view_read`), whatever is kept and whatever the
subject is, so that a condition comes to its verdict over the view that the subject has
when the evaluation starts (`Condition.fst_holds`).

Where the entry behind a subject is answered for by a view of entries, the subject reads
as `Subject.seen` says, and no state is left in the description
(`Subject.gives_read_seen`).
-/

namespace ObjectQuery

namespace Subject

variable (examiner : Examiner)

/-- How a subject answers paths in a state. -/
def view (s : Subject) (l : Lookups) : View :=
  fun path => ((s.read examiner path).run.run l).1

@[simp] theorem view_entry (e : Entry) (l : Lookups) :
    (Subject.entry e).view examiner l = l.answer examiner e :=
  funext fun path => Lookups.fst_discover examiner e path l

/-- The column of a row that a path names. -/
def column? (r : ProjectedRow) (projection : Projection) (path : String) : Option Found :=
  (Projection.indexOf? projection path).bind (r.columns[·]?)

variable {examiner} {r : ProjectedRow} {projection : Projection} {path : String}

theorem read_row_of_some {found : Found} (h : column? r projection path = some found) :
    (Subject.row r projection).read examiner path = pure found := by
  rw [column?] at h
  rw [read, h]

theorem read_row_of_none (h : column? r projection path = none) :
    (Subject.row r projection).read examiner path = readBehind examiner r path := by
  rw [column?] at h
  rw [read, h]

/-- Reading behind a row does not change what the entry there answers. -/
theorem fst_readBehind (path' : String) (l : Lookups) :
    ((readBehind examiner r path').run.run
        ((readBehind examiner r path).run.run l).2).1 =
      ((readBehind examiner r path').run.run l).1 := by
  simp only [readBehind]
  cases r.backing? with
  | none => rfl
  | some e =>
    rw [Lookups.fst_discover, Lookups.fst_discover]
    exact Lookups.answer_discover (fun _ => rfl) path path' l

/-- **Reading a path does not change how a subject reads.** -/
theorem view_read (s : Subject) (path : String) (l : Lookups) :
    s.view examiner ((s.read examiner path).run.run l).2 = s.view examiner l := by
  cases s with
  | entry e =>
    rw [view_entry, view_entry]
    exact funext fun path' => Lookups.answer_discover (fun _ => rfl) path path' l
  | value found => rfl
  | row r projection =>
    cases h : column? r projection path with
    | some found =>
      rw [read_row_of_some h]
      rfl
    | none =>
      rw [read_row_of_none h]
      funext path'
      cases h' : column? r projection path' with
      | some found => simp only [view, read_row_of_some h']; rfl
      | none => simp only [view, read_row_of_none h', fst_readBehind]

/-- How a subject reads is an invariant of reading it. -/
theorem gives_read (s : Subject) (view : View) (path : String) :
    Gives (fun l => s.view examiner l = view) (s.read examiner path).run (view path) := by
  intro l hl
  subst hl
  exact ⟨rfl, view_read s path l⟩

/-! ### Subjects over a view of entries -/

/-- The entry behind a subject, if there is one. -/
def backing? : Subject → Option Entry
  | .entry e => some e
  | .value _ => none
  | .row r _ => r.backing?

/-- How a subject reads where its entry is answered for by a view. -/
def seen (view : Examiner) : Subject → View
  | .entry e => view e
  | .value found => found.view
  | .row r projection => fun path =>
    match column? r projection path, r.backing? with
    | some found, _ => .ok found
    | none, some e => view e path
    | none, none => .ok (notProjected path)

/-- **A subject reads as it is seen**, under an invariant under which its entry is answered
for. -/
theorem gives_read_seen {P : Lookups → Prop} {view : Examiner} {entries : List Entry}
    (h : AnsweredBy P examiner view entries) {s : Subject}
    (hs : ∀ e, s.backing? = some e → e ∈ entries) (path : String) :
    Gives P (s.read examiner path).run (s.seen view path) := by
  cases s with
  | entry e => exact h e (hs e rfl) path
  | value found => exact Gives.pure _
  | row r projection =>
    cases hcolumn : column? r projection path with
    | some found =>
      rw [read_row_of_some hcolumn]
      simp only [seen, hcolumn]
      exact Gives.pure _
    | none =>
      rw [read_row_of_none hcolumn]
      simp only [seen, readBehind, hcolumn]
      cases hbacking : r.backing? with
      | none => exact Gives.pure _
      | some e => exact h e (hs e hbacking) path

end Subject

/-- **A condition comes to its verdict** over the view that its subject has at the
start. -/
theorem Condition.fst_holds (examiner : Examiner) (s : Subject) (c : Condition) (l : Lookups) :
    ((holds examiner s c).run.run l).1 = verdict (s.view examiner l) c :=
  (gives_holds c s (s.view examiner l) (s.gives_read _) l rfl).1

end ObjectQuery
