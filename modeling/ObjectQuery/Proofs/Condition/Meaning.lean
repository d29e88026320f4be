import ObjectQuery.Proofs.Condition.Reading

/-!
# Skipping does not change what a condition means

Two readings of a condition that evaluate **all** of its operands stand beside the
evaluator, which skips the ones that cannot change the running truth value and leaves a
quantifier at the first element that decides it:

* `Condition.meaning` is the plain meaning as a truth value. It is the left fold of the
  values of all operands under plain `and` and `or`, the first relation without a part
  in it; a quantifier says that some, all or no elements of a list fulfil its condition,
  and anything but a list fulfils none. It is meant where every assertion evaluates,
  which `Condition.Evaluates` says;
* `Condition.strict` evaluates all operands in order and fails with the first assertion
  that does.

The evaluator comes to the meaning wherever every assertion evaluates, and it fails only
where the strict reading does (`Condition.holds_meaning`). The step behind this is that a
skipped operand leaves the running truth value alone (`Relation.join_of_skips`), and the
same for the elements behind the one that decides a quantifier
(`Quantifier.among_cons_of_decidedBy`). The converse fails: the evaluator comes to an
answer also where the one failing assertion is skipped.
-/

namespace ObjectQuery

/-! ### Relations and quantifiers without skipping -/

/-- A relation as a plain connective. -/
def Relation.join : Relation → Bool → Bool → Bool
  | .and, a, b => a && b
  | .or, a, b => a || b

namespace Relation

/-- An operand that is skipped would not have changed the running truth value. -/
theorem join_of_skips {r : Relation} {state : Bool} (h : r.skips state = true) (b : Bool) :
    r.join state b = state := by
  cases r <;> cases state <;> simp_all [skips, join]

/-- An operand that is not skipped decides the running truth value alone. -/
theorem join_of_not_skips {r : Relation} {state : Bool} (h : ¬r.skips state = true) (b : Bool) :
    r.join state b = b := by
  cases r <;> cases state <;> simp_all [skips, join]

end Relation

namespace Quantifier

/-- Whether some, all or none of a list are such. -/
def among {α : Type} (q : Quantifier) (holds : α → Bool) (xs : List α) : Bool :=
  match q with
  | .any => xs.any holds
  | .all => xs.all holds
  | .none => !xs.any holds

theorem among_map {α β : Type} (q : Quantifier) (holds : β → Bool) (f : α → β) (xs : List α) :
    q.among holds (xs.map f) = q.among (holds ∘ f) xs := by
  cases q <;> simp [among, Function.comp_def]

/-- An element that decides a quantifier does so whatever the others are. -/
theorem among_cons_of_decidedBy {q : Quantifier} {b : Bool} (h : q.decidedBy b = true)
    (values : List Bool) : q.among id (b :: values) = q.decided := by
  cases q <;> cases b <;> simp_all [decidedBy, among, decided]

/-- An element that does not decide a quantifier leaves it to the others. -/
theorem among_cons_of_not_decidedBy {q : Quantifier} {b : Bool} (h : ¬q.decidedBy b = true)
    (values : List Bool) : q.among id (b :: values) = q.among id values := by
  cases q <;> cases b <;> simp_all [decidedBy, among]

end Quantifier

/-! ### Reading all operands -/

namespace Condition

mutual

/-- Every assertion of an element evaluates. -/
def ElementEvaluates (view : View) : Element → Prop
  | .assertion path check => ∃ found, view path = .ok found ∧ CheckEvaluates found check
  | .condition clauses => Evaluates view clauses

/-- A check evaluates on a found value, and under a quantifier on every element. -/
def CheckEvaluates (found : Found) : Check → Prop
  | .predicate p => ∃ b, p.test found = .ok b
  | .quantified _ clauses =>
    match found with
    | .list elements => ∀ element ∈ elements, Evaluates element.view clauses
    | _ => True

/-- Every assertion of a condition evaluates: those of the operands that would be
skipped as well, and those under a quantifier on every element. -/
def Evaluates (view : View) : List Clause → Prop
  | [] => True
  | ⟨_, element⟩ :: rest => ElementEvaluates view element ∧ Evaluates view rest

end

mutual

/-- The meaning of an element. Where the lookup fails it is of no account. -/
def elementMeaning (view : View) : Element → Bool
  | .assertion path check =>
    match view path with
    | .ok found => checkMeaning found check
    | .error _ => false
  | .condition clauses => meaning view clauses

/-- The meaning of a check of a found value. Where the predicate fails it is of no
account. -/
def checkMeaning (found : Found) : Check → Bool
  | .predicate p =>
    match p.test found with
    | .ok b => b
    | .error _ => false
  | .quantified q clauses =>
    match found with
    | .list elements => q.among (fun element => meaning element.view clauses) elements
    | _ => false

/-- The plain meaning of a condition. -/
def meaning (view : View) : List Clause → Bool
  | [] => true
  | ⟨_, element⟩ :: rest => restMeaning view (elementMeaning view element) rest

/-- The left fold of the values of all clauses behind the first. -/
def restMeaning (view : View) (state : Bool) : List Clause → Bool
  | [] => state
  | ⟨relation, element⟩ :: rest =>
    restMeaning view (relation.join state (elementMeaning view element)) rest

end

mutual

/-- An element with all of its operands evaluated in order. -/
def elementStrict (view : View) : Element → Except Failure Bool
  | .assertion path check => do
    let found ← view path
    checkStrict found check
  | .condition clauses => strict view clauses

/-- A check of a found value, under a quantifier of every element in order. -/
def checkStrict (found : Found) : Check → Except Failure Bool
  | .predicate p => p.test found
  | .quantified q clauses =>
    match found with
    | .list elements => do
      let values ← elements.mapM fun element => strict element.view clauses
      return q.among id values
    | _ => .ok false

/-- A condition with all of its operands evaluated in order; the first that fails ends
it. -/
def strict (view : View) : List Clause → Except Failure Bool
  | [] => .ok true
  | ⟨_, element⟩ :: rest => do
    let state ← elementStrict view element
    restStrict view state rest

/-- All clauses behind the first, evaluated in order and folded. -/
def restStrict (view : View) (state : Bool) : List Clause → Except Failure Bool
  | [] => .ok state
  | ⟨relation, element⟩ :: rest => do
    let holds ← elementStrict view element
    restStrict view (relation.join state holds) rest

end

/-! ### Where everything evaluates, strict evaluation comes to the meaning -/

theorem mapM_eq_ok {α β : Type} {f : α → Except Failure β} {g : α → β} {xs : List α}
    (h : ∀ x ∈ xs, f x = .ok (g x)) : xs.mapM f = .ok (xs.map g) := by
  induction xs with
  | nil => rfl
  | cons x xs ih =>
    have htail := ih fun y hy => h y (List.mem_cons_of_mem _ hy)
    rw [List.mapM_cons, h x List.mem_cons_self, htail]
    rfl

mutual

theorem elementStrict_eq_ok (element : Element) (view : View)
    (h : ElementEvaluates view element) :
    elementStrict view element = .ok (elementMeaning view element) := by
  cases element with
  | assertion path check =>
    rw [ElementEvaluates] at h
    obtain ⟨found, hfound, hcheck⟩ := h
    rw [elementStrict, elementMeaning, hfound]
    exact checkStrict_eq_ok check found hcheck
  | condition clauses =>
    rw [ElementEvaluates] at h
    rw [elementStrict, elementMeaning]
    exact strict_eq_ok clauses view h

theorem checkStrict_eq_ok (check : Check) (found : Found) (h : CheckEvaluates found check) :
    checkStrict found check = .ok (checkMeaning found check) := by
  cases check with
  | predicate p =>
    rw [CheckEvaluates] at h
    obtain ⟨b, hb⟩ := h
    rw [checkStrict, checkMeaning, hb]
  | quantified q clauses =>
    cases found with
    | list elements =>
      rw [CheckEvaluates] at h
      have hvalues : elements.mapM (fun element => strict element.view clauses) =
          .ok (elements.map fun element => meaning element.view clauses) :=
        mapM_eq_ok fun element helement => strict_eq_ok clauses element.view (h element helement)
      rw [checkStrict, checkMeaning, hvalues]
      exact congrArg Except.ok (q.among_map id _ elements)
    | noValue => rfl
    | notFound reason => rfl
    | primitive p => rfl
    | complex fields => rfl

theorem strict_eq_ok (c : List Clause) (view : View) (h : Evaluates view c) :
    strict view c = .ok (meaning view c) := by
  cases c with
  | nil => rfl
  | cons clause rest =>
    obtain ⟨relation, element⟩ := clause
    rw [Evaluates] at h
    rw [strict, meaning, elementStrict_eq_ok element view h.1]
    exact restStrict_eq_ok rest _ view h.2

theorem restStrict_eq_ok (c : List Clause) (state : Bool) (view : View) (h : Evaluates view c) :
    restStrict view state c = .ok (restMeaning view state c) := by
  cases c with
  | nil => rfl
  | cons clause rest =>
    obtain ⟨relation, element⟩ := clause
    rw [Evaluates] at h
    rw [restStrict, restMeaning, elementStrict_eq_ok element view h.1]
    exact restStrict_eq_ok rest _ view h.2

end

/-! ### Where strict evaluation succeeds, skipping comes to the same -/

/-- A quantifier that stops at the element that decides it comes to what all elements
come to. -/
theorem search_eq_ok {strictly skipping : Found → Except Failure Bool}
    (h : ∀ element b, strictly element = .ok b → skipping element = .ok b) (q : Quantifier)
    {elements : List Found} {values : List Bool} (hvalues : elements.mapM strictly = .ok values) :
    q.search skipping elements = .ok (q.among id values) := by
  induction elements generalizing values with
  | nil =>
    cases hvalues
    cases q <;> rfl
  | cons element rest ih =>
    rw [List.mapM_cons] at hvalues
    obtain ⟨b, hb, hvalues⟩ := except_bind_eq_ok.1 hvalues
    obtain ⟨others, hothers, hvalues⟩ := except_bind_eq_ok.1 hvalues
    cases hvalues
    -- both look at this element, and only the strict reading always at the others
    rw [Quantifier.search, h element b hb]
    change (if q.decidedBy b then .ok q.decided else q.search skipping rest) = _
    split
    · next hdecided => rw [Quantifier.among_cons_of_decidedBy hdecided]
    · next hopen => rw [Quantifier.among_cons_of_not_decidedBy hopen, ih hothers]

mutual

theorem elementVerdict_eq_ok (element : Element) (view : View) {b : Bool}
    (h : elementStrict view element = .ok b) : elementVerdict view element = .ok b := by
  cases element with
  | assertion path check =>
    rw [elementStrict] at h
    obtain ⟨found, hfound, hcheck⟩ := except_bind_eq_ok.1 h
    rw [elementVerdict, hfound]
    exact checkVerdict_eq_ok check found hcheck
  | condition clauses =>
    rw [elementStrict] at h
    rw [elementVerdict]
    exact verdict_eq_ok clauses view h

theorem checkVerdict_eq_ok (check : Check) (found : Found) {b : Bool}
    (h : checkStrict found check = .ok b) : checkVerdict found check = .ok b := by
  cases check with
  | predicate p =>
    rw [checkStrict] at h
    rw [checkVerdict, h]
  | quantified q clauses =>
    cases found with
    | list elements =>
      rw [checkStrict] at h
      obtain ⟨values, hvalues, hb⟩ := except_bind_eq_ok.1 h
      cases hb
      rw [checkVerdict]
      exact search_eq_ok (fun element b => verdict_eq_ok clauses element.view) q hvalues
    | noValue => exact h
    | notFound reason => exact h
    | primitive p => exact h
    | complex fields => exact h

theorem verdict_eq_ok (c : List Clause) (view : View) {b : Bool} (h : strict view c = .ok b) :
    verdict view c = .ok b := by
  cases c with
  | nil => exact h
  | cons clause rest =>
    obtain ⟨relation, element⟩ := clause
    rw [strict] at h
    obtain ⟨state, hstate, hrest⟩ := except_bind_eq_ok.1 h
    rw [verdict, elementVerdict_eq_ok element view hstate]
    exact restVerdict_eq_ok rest state view hrest

theorem restVerdict_eq_ok (c : List Clause) (state : Bool) (view : View) {b : Bool}
    (h : restStrict view state c = .ok b) : restVerdict view state c = .ok b := by
  cases c with
  | nil => exact h
  | cons clause rest =>
    obtain ⟨relation, element⟩ := clause
    rw [restStrict] at h
    obtain ⟨holds, hholds, hrest⟩ := except_bind_eq_ok.1 h
    rw [restVerdict]
    split
    · next hskips =>
      -- the strict fold goes on from the truth value that the skipping one kept
      rw [Relation.join_of_skips hskips] at hrest
      exact restVerdict_eq_ok rest state view hrest
    · next hskips =>
      rw [Relation.join_of_not_skips hskips] at hrest
      rw [elementVerdict_eq_ok element view hholds]
      exact restVerdict_eq_ok rest holds view hrest

end

/-- **The skipping evaluator computes the plain meaning of a condition**: where every
assertion evaluates, those of skipped operands and of all elements under a quantifier
included, it comes to the meaning; and where it fails, evaluating all operands in order
fails too. -/
theorem holds_meaning (examiner : Examiner) (s : Subject) (c : Condition) (l : Lookups) :
    (Evaluates (s.view examiner l) c →
      ((holds examiner s c).run.run l).1 = .ok (meaning (s.view examiner l) c)) ∧
    ∀ failure, ((holds examiner s c).run.run l).1 = .error failure →
      ∃ other, strict (s.view examiner l) c = .error other := by
  rw [fst_holds]
  constructor
  · intro h
    exact verdict_eq_ok c _ (strict_eq_ok c _ h)
  · intro failure hfails
    cases hstrict : strict (s.view examiner l) c with
    | ok b =>
      rw [verdict_eq_ok c _ hstrict] at hfails
      cases hfails
    | error other => exact ⟨other, rfl⟩

/-! ### A lamp -/

/-- A lamp has a name and two colours; no other path can be looked up on it. -/
def lampExaminer : Examiner := fun _ path =>
  if path = "name" then .ok (.primitive (.string "lamp"))
  else if path = "colours" then
    .ok (.list [.primitive (.string "red"), .primitive (.string "blue")])
  else .error (.discovery path "unreachable")

/-- The lamp as a subject. -/
def lamp : Subject := .entry ⟨1, "lamps/1", "house", "Lamp"⟩

/-- Of a colour: it is blue. -/
def isBlue : Condition :=
  [⟨.and, .assertion "" (.predicate (.is (.string "blue")))⟩]

/-- Named `lamp`, or blue in all colours, and blue in one of them. The second operand is
skipped. -/
def lampCondition : Condition :=
  [⟨.and, .assertion "name" (.predicate (.is (.string "lamp")))⟩,
   ⟨.or, .assertion "colours" (.quantified .all isBlue)⟩,
   ⟨.and, .condition [⟨.or, .assertion "colours" (.quantified .any isBlue)⟩]⟩]

/-- Named `lamp`, and of a weight that cannot be looked up. -/
def weighedCondition : Condition :=
  [⟨.and, .assertion "name" (.predicate (.is (.string "lamp")))⟩,
   ⟨.and, .assertion "weight" (.predicate .isPresent)⟩]

theorem evaluates_isBlue (s : String) : Evaluates (Found.primitive (.string s)).view isBlue := by
  rw [isBlue, Evaluates, ElementEvaluates]
  refine ⟨⟨_, rfl, ?_⟩, ?_⟩
  · rw [CheckEvaluates]
    exact ⟨_, rfl⟩
  · trivial

theorem evaluates_lampCondition : Evaluates (lamp.view lampExaminer {}) lampCondition := by
  have hcolours : ∀ q, ElementEvaluates (lamp.view lampExaminer {})
      (.assertion "colours" (.quantified q isBlue)) := by
    intro q
    rw [ElementEvaluates]
    refine ⟨.list [.primitive (.string "red"), .primitive (.string "blue")], rfl, ?_⟩
    rw [CheckEvaluates]
    simp [evaluates_isBlue]
  have hname : ElementEvaluates (lamp.view lampExaminer {})
      (.assertion "name" (.predicate (.is (.string "lamp")))) := by
    rw [ElementEvaluates]
    refine ⟨.primitive (.string "lamp"), rfl, ?_⟩
    rw [CheckEvaluates]
    exact ⟨true, rfl⟩
  simp only [lampCondition, Evaluates, ElementEvaluates, and_true]
  rw [ElementEvaluates] at hname
  simp only [ElementEvaluates] at hcolours
  exact ⟨hname, hcolours _, hcolours _⟩

/-- The lamp fulfils the one condition, and the other fails. -/
theorem holds_meaning_lamp :
    (Evaluates (lamp.view lampExaminer {}) lampCondition ∧
      ((holds lampExaminer lamp lampCondition).run.run {}).1 = .ok true) ∧
    ((holds lampExaminer lamp weighedCondition).run.run {}).1 =
        .error (.discovery "weight" "unreachable") ∧
      ∃ other, strict (lamp.view lampExaminer {}) weighedCondition = .error other :=
  ⟨⟨evaluates_lampCondition, (holds_meaning lampExaminer lamp lampCondition {}).1
      evaluates_lampCondition⟩,
    rfl, (holds_meaning lampExaminer lamp weighedCondition {}).2 _ rfl⟩

/-- Where only a skipped operand fails, the evaluator does not. -/
example :
    ((holds lampExaminer lamp (weighedCondition.map ({ · with relation := .or }))).run.run {}).1 =
      .ok true :=
  rfl

end Condition

end ObjectQuery
