import ObjectQuery.Proofs.Condition.Reading
import ObjectQuery.Session.Execute

/-!
# Runs are made of lookups

Whatever a run learns of an examiner, for a condition, a cell or a projected column, it learns by
`LookupM.discover`. This is what `LooksUp` says of a computation that is given an examiner: it is
put together of lookups and of what needs no examiner. It also says which entries the lookups are
about. A session has a store as well, which an instruction may change without looking anything up
(`LooksUpWithin`).

The functions of the program are gone through once, from conditions up to whole scripts
(`Script.looksUp_execute`). What holds of a single lookup is then carried over by induction on how
a computation is put together; nothing more need be known of the functions. Nothing is said here
about what they come to, either. So there is no need for entries to be told apart by their
numbers, for what is kept to be right, or for anything to succeed.
-/

namespace ObjectQuery

/-- A computation is put together of lookups, about entries of a kind. -/
inductive LooksUp (about : Entry → Prop) : {α : Type} → (Examiner → StateM Lookups α) → Prop
  | pure {α : Type} (a : α) : LooksUp about fun _ => pure a
  | discover {e : Entry} (h : about e) (path : String) :
    LooksUp about fun examiner => (LookupM.discover examiner e path).run
  | bind {α β : Type} {f : Examiner → StateM Lookups α} {g : α → Examiner → StateM Lookups β}
    (hf : LooksUp about f) (hg : ∀ a, LooksUp about (g a)) :
    LooksUp about fun examiner => f examiner >>= fun a => g a examiner

namespace LooksUp

variable {about about' : Entry → Prop} {α β : Type}

theorem mono {f : Examiner → StateM Lookups α} (hf : LooksUp about f)
    (h : ∀ e, about e → about' e) : LooksUp about' f := by
  induction hf with
  | pure a => exact pure a
  | discover he path => exact discover (h _ he) path
  | bind _ _ ihf ihg => exact ihf.bind ihg

/-- A sequence of computations that may fail. -/
theorem bindExcept {f : Examiner → LookupM α} {g : α → Examiner → LookupM β}
    (hf : LooksUp about fun examiner => (f examiner).run)
    (hg : ∀ a, LooksUp about fun examiner => (g a examiner).run) :
    LooksUp about fun examiner => (f examiner >>= fun a => g a examiner).run := by
  refine bind hf (g := fun r examiner => ExceptT.bindCont (fun a => g a examiner) r) fun r => ?_
  cases r with
  | ok a => exact hg a
  | error failure => exact pure _

/-- A computation that cannot fail, as one that may. -/
theorem lift {f : Examiner → StateM Lookups α} (hf : LooksUp about f) :
    LooksUp about fun examiner => (liftM (f examiner) : LookupM α).run := by
  have hrun : LooksUp about fun examiner => f examiner >>= fun a => Pure.pure (Except.ok a) :=
    hf.bind fun a => pure (Except.ok a : Except Failure α)
  exact hrun

end LooksUp

/-! ### Conditions -/

/-- Reading a subject looks up nothing but the entry behind it. -/
theorem Subject.looksUp_read (s : Subject) (path : String) :
    LooksUp (s.backing? = some ·) fun examiner => (s.read examiner path).run := by
  cases s with
  | entry e =>
    have hbehind : (Subject.entry e).backing? = some e := rfl
    exact .discover hbehind path
  | value found => exact .pure _
  | row r projection =>
    simp only [read]
    split
    · exact .pure _
    · unfold readBehind
      split
      case h_1 e he => exact .discover he path
      case h_2 => exact .pure _

theorem Quantifier.looksUp_over {about : Entry → Prop} (q : Quantifier)
    {holds : Examiner → Found → LookupM Bool}
    (h : ∀ element, LooksUp about fun examiner => (holds examiner element).run)
    (elements : List Found) :
    LooksUp about fun examiner => (q.over (holds examiner) elements).run := by
  induction elements with
  | nil => exact .pure _
  | cons element rest ih =>
    refine (h element).bindExcept fun b => ?_
    split
    · exact .pure _
    · exact ih

namespace Condition

mutual

theorem looksUp_holdsElement (s : Subject) : ∀ element : Element,
    LooksUp (s.backing? = some ·) fun examiner => (holdsElement examiner s element).run
  | .assertion path check => by
    simp only [holdsElement]
    exact (s.looksUp_read path).bindExcept fun found => looksUp_holdsCheck found check
  | .condition clauses => by
    simp only [holdsElement]
    exact looksUp_holds s clauses

/-- A check looks nothing up, under a quantifier either. -/
theorem looksUp_holdsCheck {about : Entry → Prop} (found : Found) : ∀ check : Check,
    LooksUp about fun examiner => (holdsCheck examiner found check).run
  | .predicate p => by
    simp only [holdsCheck]
    exact .pure _
  | .quantified q clauses => by
    simp only [holdsCheck]
    split
    · refine q.looksUp_over (fun element => ?_) _
      -- there is no entry behind an element
      exact (looksUp_holds (.value element) clauses).mono nofun
    · exact .pure _

/-- **Evaluating a condition** looks up nothing but the entry behind the subject. -/
theorem looksUp_holds (s : Subject) : ∀ clauses : List Clause,
    LooksUp (s.backing? = some ·) fun examiner => (holds examiner s clauses).run
  | [] => by
    simp only [holds]
    exact .pure _
  | ⟨_, element⟩ :: rest => by
    simp only [holds]
    exact (looksUp_holdsElement s element).bindExcept fun state =>
      looksUp_holdsRest s state rest

theorem looksUp_holdsRest (s : Subject) (state : Bool) : ∀ clauses : List Clause,
    LooksUp (s.backing? = some ·) fun examiner => (holdsRest examiner s state clauses).run
  | [] => by
    simp only [holdsRest]
    exact .pure _
  | ⟨relation, element⟩ :: rest => by
    simp only [holdsRest]
    split
    · exact looksUp_holdsRest s state rest
    · exact (looksUp_holdsElement s element).bindExcept fun state =>
        looksUp_holdsRest s state rest

end

end Condition

/-! ### Matching entries -/

namespace Matching

theorem looksUp_showColumns {about : Entry → Prop} {e : Entry} (he : about e)
    (columns : List ResultColumn) :
    LooksUp about fun examiner => showColumns examiner e columns := by
  induction columns with
  | nil => exact .pure _
  | cons c rest ih =>
    refine (LooksUp.discover he c.path).bind fun r => ?_
    cases r <;> exact ih.bind fun _ => .pure _

theorem looksUp_row? {about : Entry → Prop} {e : Entry} (he : about e) (r : Request) :
    LooksUp about fun examiner => row? examiner r e := by
  have hholds : LooksUp about fun examiner =>
      (Condition.holds examiner (.entry e) r.condition).run := by
    refine (Condition.looksUp_holds (.entry e) r.condition).mono ?_
    rintro _ ⟨⟩
    exact he
  refine hholds.bind fun verdict => ?_
  rcases verdict with failure | - | -
  · exact .pure _
  · exact .pure _
  · exact (looksUp_showColumns he r.columns).bind fun _ => .pure _

/-- **Matching entries** looks up nothing but these. -/
theorem looksUp_collect (r : Request) (kept : List ResultRow) (entries : List Entry) :
    LooksUp (· ∈ entries) fun examiner => collect examiner r kept entries := by
  induction entries generalizing kept with
  | nil => exact .pure _
  | cons e rest ih =>
    have hrest : ∀ kept, LooksUp (· ∈ e :: rest) fun examiner => collect examiner r kept rest :=
      fun kept => (ih kept).mono fun _ he' => List.mem_cons_of_mem _ he'
    simp only [collect]
    split
    · exact .pure _
    · refine (looksUp_row? List.mem_cons_self r).bind fun row? => ?_
      cases row? with
      | some row => exact hrest _
      | none => exact hrest _

end Matching

/-! ### Stages and pipelines -/

theorem LookupM.looksUp_examine {about : Entry → Prop} {e : Entry} (he : about e)
    (p : Projection) : LooksUp about fun examiner => examine examiner e p := by
  induction p with
  | nil => exact .pure _
  | cons c rest ih =>
    have hcolumn : LooksUp about fun examiner => examineColumn examiner e c :=
      (LooksUp.discover he c.path).bind fun r => by cases r <;> exact .pure _
    exact hcolumn.bind fun _ => ih.bind fun _ => .pure _

namespace Stage

theorem looksUp_filterRow (c : Condition) (declared? : Option Projection) (row : Row) :
    LooksUp (fun _ => True) fun examiner => (filterRow examiner c declared? row).run := by
  have hsubject : LooksUp (fun _ => True) fun _ =>
      (ExceptT.mk (pure (subject declared? row)) : LookupM Subject).run := .pure _
  refine hsubject.bindExcept fun s => ?_
  exact ((Condition.looksUp_holds s c).mono fun _ _ => trivial).bindExcept fun _ => .pure _

theorem looksUp_examineMissing (columns : Projection) (backing? : Option Entry) :
    LooksUp (fun _ => True) fun examiner => (examineMissing examiner columns backing?).run := by
  unfold examineMissing
  split
  · exact .pure _
  · split
    · exact (LookupM.looksUp_examine trivial columns).lift
    · exact .pure _

theorem looksUp_projectRow (target : Projection) (declared? : Option Projection) (row : Row) :
    LooksUp (fun _ => True) fun examiner => (projectRow examiner target declared? row).run := by
  cases row with
  | entry e => exact (LookupM.looksUp_examine trivial target).lift.bindExcept fun _ => .pure _
  | projected r =>
    cases declared? with
    | none => exact .pure _
    | some declared => exact (looksUp_examineMissing _ _).bindExcept fun _ => .pure _

theorem looksUp_treatAll {about : Entry → Prop} {f : Examiner → Row → LookupM (Option Row)}
    (h : ∀ row, LooksUp about fun examiner => (f examiner row).run) (out : Stream)
    (rows : List Row) : LooksUp about fun examiner => treatAll (f examiner) out rows := by
  induction rows generalizing out with
  | nil => exact .pure _
  | cons row rest ih =>
    have htreat : LooksUp about fun examiner => treat (f examiner) out row := by
      refine (h row).bind fun r => ?_
      rcases r with failure | - | made <;> exact .pure _
    exact htreat.bind fun out => ih out

/-- **Running a stage.** Sorting looks nothing up. -/
theorem looksUp_run (noneFirst : Bool) (input : Stream) (s : Stage) :
    LooksUp (fun _ => True) fun examiner => s.run examiner noneFirst input := by
  cases s with
  | filter c declared? => exact looksUp_treatAll (looksUp_filterRow c declared?) _ _
  | project target declared? => exact looksUp_treatAll (looksUp_projectRow target declared?) _ _
  | sort keys declared => exact .pure _

end Stage

namespace Pipeline

theorem looksUp_outputs (noneFirst : Bool) (input : Stream) (ss : List Stage) :
    LooksUp (fun _ => True) fun examiner => outputs examiner noneFirst input ss := by
  induction ss generalizing input with
  | nil => exact .pure _
  | cons s rest ih =>
    exact (Stage.looksUp_run noneFirst input s).bind fun out => (ih out).bind fun _ => .pure _

/-- **Running a pipeline**, be it refused or not. -/
theorem looksUp_collect (noneFirst : Bool) (steps : List Step)
    (source : List (Except Failure Entry)) :
    LooksUp (fun _ => True) fun examiner => (collect examiner noneFirst steps source).run := by
  have hstages : LooksUp (fun _ => True) fun _ =>
      (ExceptT.mk (pure (stages none steps)) : LookupM (List Stage)).run := .pure _
  exact hstages.bindExcept fun ss =>
    (looksUp_outputs noneFirst (Stream.scan source) ss).lift.bindExcept fun _ => .pure _

end Pipeline

/-- **A query**, with an order or without one. -/
theorem Execute.looksUp_resultOf (settings : Settings) (q : QueryInstruction)
    (entries : List Entry) :
    LooksUp (fun _ => True) fun examiner => (resultOf examiner settings q entries).run := by
  simp only [resultOf]
  split
  · have hcollect : LooksUp (fun _ => True) fun examiner =>
        Matching.collect examiner (requestOf q) [] entries :=
      (Matching.looksUp_collect (requestOf q) [] entries).mono fun _ _ => trivial
    have hrun : LooksUp (fun _ => True) fun examiner => runUnordered examiner q entries :=
      hcollect.bind fun _ => .pure _
    exact hrun.lift
  · exact (Pipeline.looksUp_collect settings.nullsFirst _ _).bindExcept fun _ => .pure _

/-! ### Sessions -/

/-- A computation in a session is put together of lookups and of what leaves alone what has been
looked up. -/
inductive LooksUpWithin : {α : Type} → (Examiner → StateM Session α) → Prop
  | quiet {α : Type} {x : StateM Session α} (h : ∀ s, (x.run s).2.lookups = s.lookups) :
    LooksUpWithin fun _ => x
  | onLookups {α : Type} {f : Examiner → StateM Lookups α} (h : LooksUp (fun _ => True) f) :
    LooksUpWithin fun examiner => SessionM.onLookups (f examiner)
  | bind {α β : Type} {f : Examiner → StateM Session α} {g : α → Examiner → StateM Session β}
    (hf : LooksUpWithin f) (hg : ∀ a, LooksUpWithin (g a)) :
    LooksUpWithin fun examiner => f examiner >>= fun a => g a examiner

namespace LooksUpWithin

variable {α β : Type}

theorem pure (a : α) : LooksUpWithin fun _ => (pure a : StateM Session α) :=
  quiet fun _ => rfl

/-- A sequence of computations that may fail. -/
theorem bindExcept {f : Examiner → SessionM α} {g : α → Examiner → SessionM β}
    (hf : LooksUpWithin fun examiner => (f examiner).run)
    (hg : ∀ a, LooksUpWithin fun examiner => (g a examiner).run) :
    LooksUpWithin fun examiner => (f examiner >>= fun a => g a examiner).run := by
  refine bind hf (g := fun r examiner => ExceptT.bindCont (fun a => g a examiner) r) fun r => ?_
  cases r with
  | ok a => exact hg a
  | error failure => exact pure _

end LooksUpWithin

namespace Execute

variable (refuse : Refusal) (settings : Settings)

/-- **One instruction.** Indexing looks nothing up. -/
theorem looksUp_runInstruction (i : Instruction) :
    LooksUpWithin fun examiner => (runInstruction ⟨examiner, refuse⟩ settings i).run := by
  cases i with
  | index i =>
    have hrefresh : LooksUpWithin fun examiner =>
        (SessionM.refresh ⟨examiner, refuse⟩ i.strategy i.target).run := by
      simp only [SessionM.refresh]
      split
      · exact .pure _
      · exact .quiet fun _ => rfl
    exact hrefresh.bindExcept fun _ => .pure _
  | query q =>
    have hget : LooksUpWithin fun _ => (get : SessionM Session).run := .quiet fun _ => rfl
    refine hget.bindExcept fun session => ?_
    have hresult : LooksUpWithin fun examiner =>
        SessionM.onLookups (resultOf examiner settings q (session.store.get q.target)).run :=
      .onLookups (looksUp_resultOf settings q _)
    exact LooksUpWithin.bindExcept (f := fun _ => ExceptT.mk _) hresult fun _ => .pure _
  | update u => exact .pure _

/-- **A plan**, up to its end or up to an instruction that fails. -/
theorem looksUp_runPlan (plan : Plan) :
    LooksUpWithin fun examiner => (runPlan ⟨examiner, refuse⟩ settings plan).run := by
  induction plan with
  | nil => exact .pure _
  | cons i rest ih =>
    exact (looksUp_runInstruction refuse settings i).bindExcept fun _ =>
      ih.bindExcept fun _ => .pure _

end Execute

/-- **A script is made of lookups**; one that is refused looks nothing up. -/
theorem Script.looksUp_execute (refuse : Refusal) (settings : Settings) (script : Script) :
    LooksUpWithin fun examiner => script.execute ⟨examiner, refuse⟩ settings := by
  simp only [execute]
  split
  · exact .pure _
  · refine (Execute.looksUp_runPlan refuse settings _).bind fun r => ?_
    cases r <;> exact .pure _

end ObjectQuery
