import ObjectQuery.Proofs.Condition.Reading

/-!
# What evaluating a condition reads

A condition comes to its verdict over the view that its subject has at the start
(`Condition.fst_holds`). The paths that are read on the way are known from that view too:
`Condition.reached` lists those of the assertions that the left fold reaches, in order.
An operand that is skipped contributes nothing, a nested condition what it reaches itself,
and behind an operand that fails there is nothing more. A check reads nothing at all, not
even under a quantifier, whose elements are found values already.

Evaluating a condition is therefore no more than reading these paths one after another:
it comes to the verdict and leaves the state that they leave (`Condition.run_holds`). And
what the subject answers for any other path has no part in it (`Condition.verdict_congr`).

What is reached is among the paths that the condition mentions (`Condition.paths`). Where
all that is reached is answered, the one failure left is that of an equality with a list
(`Condition.failure_of_verdict`).
-/

namespace ObjectQuery

namespace Subject

variable {examiner : Examiner}

/-- The state that is left when paths are read on a subject one after another. -/
def after (examiner : Examiner) (s : Subject) (l : Lookups) (paths : List String) : Lookups :=
  paths.foldl (fun l path => ((s.read examiner path).run.run l).2) l

theorem after_append (s : Subject) (l : Lookups) (paths paths' : List String) :
    s.after examiner l (paths ++ paths') = s.after examiner (s.after examiner l paths) paths' :=
  List.foldl_append

/-- Reading paths does not change how a subject reads. -/
theorem view_after (s : Subject) (l : Lookups) (paths : List String) :
    s.view examiner (s.after examiner l paths) = s.view examiner l := by
  induction paths generalizing l with
  | nil => rfl
  | cons path rest ih => exact (ih _).trans (view_read s path l)

/-- Nothing is looked up for a found value. -/
theorem after_value (found : Found) (l : Lookups) (paths : List String) :
    (Subject.value found).after examiner l paths = l := by
  induction paths with
  | nil => rfl
  | cons path rest ih => exact ih

/-- Reading an entry puts questions about it. -/
theorem after_entry (e : Entry) (l : Lookups) (paths : List String) :
    (Subject.entry e).after examiner l paths = l.after examiner (paths.map (e, ·)) := by
  rw [Lookups.after, List.foldl_map]
  rfl

end Subject

/-- A quantifier over elements that are tested without leaving a trace leaves none. -/
theorem Quantifier.run_over {holds : Found → LookupM Bool} {decide : Found → Except Failure Bool}
    {l : Lookups} (h : ∀ element, (holds element).run.run l = (decide element, l))
    (q : Quantifier) (elements : List Found) :
    (q.over holds elements).run.run l = (q.search decide elements, l) := by
  induction elements with
  | nil => rfl
  | cons element rest ih =>
    rw [Quantifier.over, search]
    cases hdecide : decide element with
    | error failure => exact run_bind_of_error ((h element).trans (by rw [hdecide]))
    | ok b =>
      rw [run_bind_of_ok ((h element).trans (by rw [hdecide]))]
      change ((if q.decidedBy b then pure q.decided else q.over holds rest :
        LookupM Bool).run.run l) =
          (if q.decidedBy b then .ok q.decided else q.search decide rest, l)
      split
      · rfl
      · exact ih

namespace Condition

/-! ### The paths that are reached -/

/-- What is read behind an operand: nothing if the operand failed. -/
def behind (verdict : Except Failure Bool) (next : Bool → List String) : List String :=
  match verdict with
  | .ok state => next state
  | .error _ => []

mutual

/-- The paths that evaluating an element reads. -/
def elementReached (view : View) : Element → List String
  | .assertion path _ => [path]
  | .condition clauses => reached view clauses

/-- The paths that evaluating a condition reads, in order. -/
def reached (view : View) : List Clause → List String
  | [] => []
  | ⟨_, element⟩ :: rest =>
    elementReached view element ++
      behind (elementVerdict view element) fun state => restReached view state rest

/-- The paths that are read behind the first clause, in order. -/
def restReached (view : View) (state : Bool) : List Clause → List String
  | [] => []
  | ⟨relation, element⟩ :: rest =>
    if relation.skips state then restReached view state rest
    else
      elementReached view element ++
        behind (elementVerdict view element) fun state => restReached view state rest

end

section Evaluation

variable {examiner : Examiner}

/-- An operand that is evaluated by reading paths, and a fold that is, are so together. -/
theorem run_bind_reached {s : Subject} {l : Lookups} {x : LookupM Bool}
    {f : Bool → LookupM Bool} {verdict : Except Failure Bool}
    {next : Bool → Except Failure Bool} {paths : List String} {paths' : Bool → List String}
    (hx : x.run.run l = (verdict, s.after examiner l paths))
    (hf : ∀ state, (f state).run.run (s.after examiner l paths) =
      (next state, s.after examiner (s.after examiner l paths) (paths' state))) :
    (x >>= f).run.run l =
      (verdict >>= next, s.after examiner l (paths ++ behind verdict paths')) := by
  cases verdict with
  | error failure =>
    rw [run_bind_of_error hx, behind, List.append_nil]
    rfl
  | ok state =>
    rw [run_bind_of_ok hx, hf, behind, Subject.after_append]
    rfl

mutual

theorem run_holdsElement (element : Element) (s : Subject) (l : Lookups) :
    (holdsElement examiner s element).run.run l =
      (elementVerdict (s.view examiner l) element,
        s.after examiner l (elementReached (s.view examiner l) element)) := by
  cases element with
  | assertion path check =>
    rw [holdsElement, elementVerdict, elementReached]
    have hread : (s.read examiner path).run.run l =
        (s.view examiner l path, s.after examiner l [path]) := rfl
    cases hview : s.view examiner l path with
    | error failure => exact run_bind_of_error (hread.trans (by rw [hview]))
    | ok found =>
      rw [run_bind_of_ok (hread.trans (by rw [hview]))]
      exact run_holdsCheck check found _
  | condition clauses =>
    rw [holdsElement, elementVerdict, elementReached]
    exact run_holds clauses s l

/-- A check looks nothing up. -/
theorem run_holdsCheck (check : Check) (found : Found) (l : Lookups) :
    (holdsCheck examiner found check).run.run l = (checkVerdict found check, l) := by
  cases check with
  | predicate p =>
    rw [holdsCheck, checkVerdict]
    rfl
  | quantified q clauses =>
    cases found with
    | list elements =>
      rw [holdsCheck, checkVerdict]
      refine q.run_over (fun element => ?_) elements
      -- an element is a found value, on which every path is read without a question
      rw [run_holds clauses (.value element) l, Subject.after_value]
      rfl
    | noValue => rfl
    | notFound reason => rfl
    | primitive p => rfl
    | complex fields => rfl

/-- **Evaluating a condition** comes to its verdict, and leaves the state that reading the
paths it reaches leaves. -/
theorem run_holds (c : List Clause) (s : Subject) (l : Lookups) :
    (holds examiner s c).run.run l =
      (verdict (s.view examiner l) c, s.after examiner l (reached (s.view examiner l) c)) := by
  cases c with
  | nil =>
    rw [holds, verdict, reached]
    rfl
  | cons clause rest =>
    obtain ⟨relation, element⟩ := clause
    rw [holds, verdict, reached]
    refine run_bind_reached (run_holdsElement element s l) fun state => ?_
    rw [run_holdsRest rest state s _, Subject.view_after]

theorem run_holdsRest (c : List Clause) (state : Bool) (s : Subject) (l : Lookups) :
    (holdsRest examiner s state c).run.run l =
      (restVerdict (s.view examiner l) state c,
        s.after examiner l (restReached (s.view examiner l) state c)) := by
  cases c with
  | nil =>
    rw [holdsRest, restVerdict, restReached]
    rfl
  | cons clause rest =>
    obtain ⟨relation, element⟩ := clause
    rw [holdsRest, restVerdict, restReached]
    split
    · exact run_holdsRest rest state s l
    · refine run_bind_reached (run_holdsElement element s l) fun state => ?_
      rw [run_holdsRest rest state s _, Subject.view_after]

end

end Evaluation

/-! ### Only what is reached matters -/

/-- Views that agree on what an operand reads, and behind it on what is read then, make no
difference to either. -/
theorem behind_congr {verdict verdict' : Except Failure Bool} {paths paths' : List String}
    {next next' : Bool → Except Failure Bool} {reach reach' : Bool → List String}
    (hverdict : verdict' = verdict) (hpaths : paths' = paths)
    (h : ∀ state, verdict = .ok state → next' state = next state ∧ reach' state = reach state) :
    (verdict' >>= next') = (verdict >>= next) ∧
      paths' ++ behind verdict' reach' = paths ++ behind verdict reach := by
  subst hverdict hpaths
  cases verdict' with
  | error failure => exact ⟨rfl, rfl⟩
  | ok state =>
    obtain ⟨hnext, hreach⟩ := h state rfl
    exact ⟨hnext, congrArg (paths' ++ ·) hreach⟩

section Views

variable {view view' : View}

mutual

theorem elementVerdict_congr (element : Element)
    (h : ∀ path ∈ elementReached view element, view' path = view path) :
    elementVerdict view' element = elementVerdict view element ∧
      elementReached view' element = elementReached view element := by
  cases element with
  | assertion path check =>
    rw [elementReached] at h
    simp only [elementVerdict, elementReached, h path List.mem_cons_self, and_self]
  | condition clauses =>
    rw [elementReached] at h
    simp only [elementVerdict, elementReached]
    exact verdict_congr clauses h

/-- **A view that agrees on what is reached** comes to the same verdict, and reaches the
same. -/
theorem verdict_congr (c : List Clause) (h : ∀ path ∈ reached view c, view' path = view path) :
    verdict view' c = verdict view c ∧ reached view' c = reached view c := by
  cases c with
  | nil => simp only [verdict, reached, and_self]
  | cons clause rest =>
    obtain ⟨relation, element⟩ := clause
    rw [reached] at h
    obtain ⟨hverdict, hreached⟩ := elementVerdict_congr element fun path hpath =>
      h path (List.mem_append_left _ hpath)
    simp only [verdict, reached]
    refine behind_congr hverdict hreached fun state hstate => restVerdict_congr rest state ?_
    intro path hpath
    refine h path (List.mem_append_right _ ?_)
    rwa [hstate, behind]

theorem restVerdict_congr (c : List Clause) (state : Bool)
    (h : ∀ path ∈ restReached view state c, view' path = view path) :
    restVerdict view' state c = restVerdict view state c ∧
      restReached view' state c = restReached view state c := by
  cases c with
  | nil => simp only [restVerdict, restReached, and_self]
  | cons clause rest =>
    obtain ⟨relation, element⟩ := clause
    rw [restReached] at h
    simp only [restVerdict, restReached]
    split
    · next hskips =>
      rw [if_pos hskips] at h
      exact restVerdict_congr rest state h
    · next hskips =>
      rw [if_neg hskips] at h
      obtain ⟨hverdict, hreached⟩ := elementVerdict_congr element fun path hpath =>
        h path (List.mem_append_left _ hpath)
      refine behind_congr hverdict hreached fun state hstate => restVerdict_congr rest state ?_
      intro path hpath
      refine h path (List.mem_append_right _ ?_)
      rwa [hstate, behind]

end

end Views

/-! ### What a condition mentions -/

mutual

/-- The paths that an element mentions. Those under a quantifier are followed on the
elements of a list, and are not counted. -/
def elementPaths : Element → List String
  | .assertion path _ => [path]
  | .condition clauses => paths clauses

/-- The paths that a condition mentions. -/
def paths : List Clause → List String
  | [] => []
  | ⟨_, element⟩ :: rest => elementPaths element ++ paths rest

end

section Views

variable {view : View}

theorem mem_of_mem_behind {verdict : Except Failure Bool} {next : Bool → List String}
    {path : String} (h : path ∈ behind verdict next) :
    ∃ state, verdict = .ok state ∧ path ∈ next state := by
  cases verdict with
  | ok state => exact ⟨state, rfl, h⟩
  | error failure => cases h

mutual

theorem elementReached_subset (element : Element) :
    elementReached view element ⊆ elementPaths element := by
  cases element with
  | assertion path check =>
    rw [elementReached, elementPaths]
    exact List.Subset.refl _
  | condition clauses =>
    rw [elementReached, elementPaths]
    exact reached_subset clauses

/-- What is reached is mentioned. -/
theorem reached_subset (c : List Clause) : reached view c ⊆ paths c := by
  cases c with
  | nil =>
    rw [reached]
    exact List.nil_subset _
  | cons clause rest =>
    obtain ⟨relation, element⟩ := clause
    rw [reached, paths]
    intro path hpath
    rcases List.mem_append.1 hpath with hpath | hpath
    · exact List.mem_append_left _ (elementReached_subset element hpath)
    · obtain ⟨state, -, hpath⟩ := mem_of_mem_behind hpath
      exact List.mem_append_right _ (restReached_subset rest state hpath)

theorem restReached_subset (c : List Clause) (state : Bool) :
    restReached view state c ⊆ paths c := by
  cases c with
  | nil =>
    rw [restReached]
    exact List.nil_subset _
  | cons clause rest =>
    obtain ⟨relation, element⟩ := clause
    rw [restReached, paths]
    intro path hpath
    split at hpath
    · exact List.mem_append_right _ (restReached_subset rest state hpath)
    · rcases List.mem_append.1 hpath with hpath | hpath
      · exact List.mem_append_left _ (elementReached_subset element hpath)
      · obtain ⟨state', -, hpath⟩ := mem_of_mem_behind hpath
        exact List.mem_append_right _ (restReached_subset rest state' hpath)

end

end Views

end Condition

/-! ### Failures that are not of a lookup -/

namespace Predicate

theorem failure_of_equals {found : Found} {operand : Value} {failure : Failure}
    (h : equals found operand = .error failure) : failure = listOperand := by
  cases operand with
  | array items =>
    cases h
    rfl
  | _ => cases found <;> first | cases h | (rename_i p; cases p <;> cases h)

theorem failure_of_equalsAny {found : Found} {operands : List Value} {failure : Failure}
    (h : equalsAny found operands = .error failure) : failure = listOperand := by
  induction operands with
  | nil => cases h
  | cons operand rest ih =>
    rw [equalsAny] at h
    split at h
    · exact ih h
    · exact failure_of_equals h

/-- **A predicate fails in one way only**: where equality with a list is asked for. -/
theorem failure_of_test {p : Predicate} {found : Found} {failure : Failure}
    (h : p.test found = .error failure) : failure = listOperand := by
  cases p with
  | is operand => exact failure_of_equals h
  | isNot operand =>
    rw [test] at h
    cases hequals : equals found operand with
    | ok b =>
      rw [hequals] at h
      cases h
    | error failure' =>
      rw [hequals] at h
      cases h
      exact failure_of_equals hequals
  | isIn operands => exact failure_of_equalsAny h
  | overlaps fields => cases found <;> cases h
  | _ => cases h

end Predicate

/-- A quantifier fails at an element. -/
theorem Quantifier.exists_of_search_eq_error {q : Quantifier}
    {decide : Found → Except Failure Bool} {elements : List Found} {failure : Failure}
    (h : q.search decide elements = .error failure) :
    ∃ element ∈ elements, decide element = .error failure := by
  induction elements with
  | nil => cases h
  | cons element rest ih =>
    rw [search] at h
    rcases except_bind_eq_error.1 h with hfirst | ⟨b, -, hrest⟩
    · exact ⟨element, List.mem_cons_self, hfirst⟩
    · split at hrest
      · cases hrest
      · obtain ⟨element', hmem, hfails⟩ := ih hrest
        exact ⟨element', List.mem_cons_of_mem _ hmem, hfails⟩

namespace Condition

/-- Every path that is read finds something. -/
def Answered (view : View) (paths : List String) : Prop :=
  ∀ path ∈ paths, ∃ found, view path = .ok found

theorem Answered.behind {view : View} {paths : List String} {verdict : Except Failure Bool}
    {next : Bool → List String} {state : Bool} (h : Answered view (paths ++ behind verdict next))
    (hstate : verdict = .ok state) : Answered view (next state) := by
  intro path hpath
  refine h path (List.mem_append_right _ ?_)
  rwa [hstate, Condition.behind]

section Views

variable {failure : Failure}

mutual

theorem failure_of_elementVerdict (element : Element) {view : View}
    (h : Answered view (elementReached view element))
    (hfails : elementVerdict view element = .error failure) : failure = Predicate.listOperand := by
  cases element with
  | assertion path check =>
    rw [elementReached] at h
    rw [elementVerdict] at hfails
    obtain ⟨found, hfound⟩ := h path List.mem_cons_self
    rw [hfound] at hfails
    exact failure_of_checkVerdict check found hfails
  | condition clauses =>
    rw [elementReached] at h
    rw [elementVerdict] at hfails
    exact failure_of_verdict clauses h hfails

theorem failure_of_checkVerdict (check : Check) (found : Found)
    (hfails : checkVerdict found check = .error failure) : failure = Predicate.listOperand := by
  cases check with
  | predicate p =>
    rw [checkVerdict] at hfails
    exact Predicate.failure_of_test hfails
  | quantified q clauses =>
    cases found with
    | list elements =>
      rw [checkVerdict] at hfails
      obtain ⟨element, -, hfails⟩ := Quantifier.exists_of_search_eq_error hfails
      exact failure_of_verdict clauses (fun path _ => ⟨element.resolve path, rfl⟩) hfails
    | noValue => cases hfails
    | notFound reason => cases hfails
    | primitive p => cases hfails
    | complex fields => cases hfails

/-- **Where all that is reached is answered, a condition fails in one way only**: where
equality with a list is asked for. -/
theorem failure_of_verdict (c : List Clause) {view : View}
    (h : Answered view (reached view c))
    (hfails : verdict view c = .error failure) : failure = Predicate.listOperand := by
  cases c with
  | nil => cases hfails
  | cons clause rest =>
    obtain ⟨relation, element⟩ := clause
    rw [reached] at h
    rw [verdict] at hfails
    rcases except_bind_eq_error.1 hfails with hfirst | ⟨state, hstate, hrest⟩
    · exact failure_of_elementVerdict element
        (fun path hpath => h path (List.mem_append_left _ hpath)) hfirst
    · exact failure_of_restVerdict rest state (h.behind hstate) hrest

theorem failure_of_restVerdict (c : List Clause) (state : Bool) {view : View}
    (h : Answered view (restReached view state c))
    (hfails : restVerdict view state c = .error failure) : failure = Predicate.listOperand := by
  cases c with
  | nil => cases hfails
  | cons clause rest =>
    obtain ⟨relation, element⟩ := clause
    rw [restReached] at h
    rw [restVerdict] at hfails
    split at hfails
    · next hskips =>
      rw [if_pos hskips] at h
      exact failure_of_restVerdict rest state h hfails
    · next hskips =>
      rw [if_neg hskips] at h
      rcases except_bind_eq_error.1 hfails with hfirst | ⟨state', hstate, hrest⟩
      · exact failure_of_elementVerdict element
          (fun path hpath => h path (List.mem_append_left _ hpath)) hfirst
      · exact failure_of_restVerdict rest state' (h.behind hstate) hrest

end

end Views

end Condition

end ObjectQuery
