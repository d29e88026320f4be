import Mathlib.Data.List.Induction
import ObjectQuery.Proofs.Condition.Reached
import ObjectQuery.Proofs.Lookup.Questions

/-!
# What evaluating a condition asks

What is read of an entry is not always asked of the examiner: an answer is kept, and serves
whenever the same path is read again. Read one after another, with nothing kept before and
no failure but at the end, paths are therefore asked **once each**, in the order in which they
first occur (`Lookups.after_entry`).

A condition reads the paths of the operands that its left fold goes on to
(`Condition.reached_eq_flatMap`), and a lookup that fails ends the evaluation, so that there
is nothing read behind it (`Condition.endsWith_reached`). Together they say exactly which
questions an evaluation puts, and in which order (`Condition.holds_asks`).
-/

namespace ObjectQuery

/-! ### Paths read one after another -/

/-- **Paths read of an entry are asked once each**, and only if nothing is kept for them,
unless one of them fails before the end. -/
theorem Lookups.after_entry {examiner : Examiner} {e : Entry} {paths : List String}
    (h : ∀ path ∈ paths.dropLast, ∃ found, examiner e path = .ok found) (l : Lookups) :
    let asked := (paths.filter fun path => (l.get? e.id path).isNone).eraseDups
    (l.after examiner (paths.map (e, ·))).calls = l.calls ++ asked.map (e, ·) ∧
      (l.after examiner (paths.map (e, ·))).loads = l.loads + asked.length := by
  induction paths generalizing l with
  | nil => simp [after]
  | cons path rest ih =>
    have hrest : ∀ path' ∈ rest.dropLast, ∃ found, examiner e path' = .ok found := by
      intro path' hpath'
      cases rest with
      | nil => exact absurd hpath' List.not_mem_nil
      | cons next rest => exact h path' (List.mem_cons_of_mem _ hpath')
    have hafter : l.after examiner ((path :: rest).map (e, ·)) =
        (((LookupM.discover examiner e path).run.run l).2).after examiner (rest.map (e, ·)) := rfl
    rw [hafter]
    rcases LookupM.discover_cases examiner e path l with
      ⟨hit, hget, hrun⟩ | ⟨found, hget, -, hrun⟩ | ⟨failure, hget, ha, hrun⟩
    · -- a path that is kept is not asked
      rw [hrun, List.filter_cons_of_neg (by simp [hget])]
      exact ih hrest l
    · -- a path that is asked is kept from then on
      have hkept : (rest.filter fun path' => ((l.asked e path
          (l.kept ++ [((e.id, path), found)])).get? e.id path').isNone) =
          (rest.filter fun path' => (l.get? e.id path').isNone).filter fun path' =>
            !path' == path := by
        rw [List.filter_filter]
        refine List.filter_congr fun path' _ => ?_
        rw [get?_asked_append]
        by_cases hpath : path' = path <;> simp [hpath]
      obtain ⟨hcalls, hloads⟩ := ih hrest (l.asked e path (l.kept ++ [((e.id, path), found)]))
      rw [hrun, List.filter_cons_of_pos (by simp [hget]), List.eraseDups_cons, ← hkept, hcalls,
        hloads]
      exact ⟨by simp [asked], by simp only [asked, List.length_cons]; omega⟩
    · -- a path that fails is the last one
      have hlast : rest = [] := by
        cases rest with
        | nil => rfl
        | cons next rest =>
          obtain ⟨found, hfound⟩ := h path List.mem_cons_self
          rw [ha] at hfound
          cases hfound
      rw [hrun, hlast, List.filter_cons_of_pos (by simp [hget])]
      exact ⟨rfl, rfl⟩

namespace Condition

variable {view : View}

/-! ### The operands that the left fold goes on to -/

/-- Whether the left fold goes on to an operand behind some clauses: always to the first, and
else behind true if it is joined by AND, and behind false if it is joined by OR. -/
def goesOn (view : View) (before : List Clause) (relation : Relation) : Bool :=
  before.isEmpty ||
    match verdict view before with
    | .ok state => if relation = .and then state else !state
    | .error _ => false

theorem behind_bind (verdict : Except Failure Bool) (next : Bool → Except Failure Bool)
    (paths paths' : Bool → List String) :
    behind verdict paths ++ behind (verdict >>= next) paths' =
      behind verdict fun state => paths state ++ behind (next state) paths' := by
  cases verdict <;> rfl

/-- What is read of the last clause, behind the first. -/
theorem restReached_append_singleton (rest : List Clause) (state : Bool) (relation : Relation)
    (element : Element) :
    restReached view state (rest ++ [⟨relation, element⟩]) =
      restReached view state rest ++ behind (restVerdict view state rest) fun state =>
        if relation.skips state then [] else elementReached view element := by
  induction rest generalizing state with
  | nil =>
    simp only [List.nil_append, restReached, restVerdict, behind]
    split
    · rfl
    · cases elementVerdict view element <;> simp
  | cons clause rest ih =>
    obtain ⟨relation', element'⟩ := clause
    rw [List.cons_append, restReached, restReached, restVerdict]
    split
    · exact ih state
    · simp only [ih]
      rw [List.append_assoc, behind_bind]

/-- **What is read of the last clause.** -/
theorem reached_append_singleton (before : List Clause) (relation : Relation)
    (element : Element) :
    reached view (before ++ [⟨relation, element⟩]) =
      reached view before ++
        if goesOn view before relation then elementReached view element else [] := by
  cases before with
  | nil =>
    simp only [List.nil_append, reached, restReached]
    cases elementVerdict view element <;> simp [behind, goesOn]
  | cons first rest =>
    obtain ⟨relation', element'⟩ := first
    -- the last clause is read if what stands in front of it neither fails nor decides
    have hgoes : (behind (verdict view (⟨relation', element'⟩ :: rest)) fun state =>
        if relation.skips state then [] else elementReached view element) =
        if goesOn view (⟨relation', element'⟩ :: rest) relation then
          elementReached view element
        else [] := by
      rw [goesOn]
      cases verdict view (⟨relation', element'⟩ :: rest) with
      | error failure => cases relation <;> rfl
      | ok state => cases relation <;> cases state <;> rfl
    rw [← hgoes, List.cons_append, reached, reached, verdict]
    simp only [restReached_append_singleton]
    rw [List.append_assoc, behind_bind]

/-- **A condition reads the paths of the operands that the left fold goes on to**, one operand
after another. -/
theorem reached_eq_flatMap (view : View) (c : List Clause) :
    reached view c =
      (c.zipIdx.filter fun (clause, i) => goesOn view (c.take i) clause.relation).flatMap
        fun (clause, _) => elementReached view clause.element := by
  induction c using List.reverseRecOn with
  | nil => rfl
  | append_singleton before last ih =>
    have hfront : (before.zipIdx.filter fun (clause, i) =>
        goesOn view ((before ++ [last]).take i) clause.relation) =
        before.zipIdx.filter fun (clause, i) => goesOn view (before.take i) clause.relation := by
      refine List.filter_congr fun (clause, i) hmem => ?_
      have hi : i ≤ before.length := Nat.le_of_lt (List.snd_lt_of_mem_zipIdx hmem)
      simp only [List.take_append_of_le_length hi]
    obtain ⟨relation, element⟩ := last
    rw [reached_append_singleton, ih, List.zipIdx_append, List.filter_append, hfront,
      List.flatMap_append]
    congr 1
    by_cases hgoes : goesOn view before relation = true <;> simp [hgoes]

/-! ### A lookup that fails is the last one -/

/-- Either every path finds something, or the last one is the first to fail, and its failure
is what the paths come to. -/
def EndsWith (view : View) (paths : List String) (verdict : Except Failure Bool) : Prop :=
  Answered view paths ∨ ∃ before path failure, paths = before ++ [path] ∧ Answered view before ∧
    view path = .error failure ∧ verdict = .error failure

theorem Answered.append {paths paths' : List String} (h : Answered view paths)
    (h' : Answered view paths') : Answered view (paths ++ paths') := by
  intro path hpath
  rcases List.mem_append.1 hpath with hpath | hpath
  · exact h path hpath
  · exact h' path hpath

/-- Behind an operand that ends with a failure nothing is read. -/
theorem EndsWith.behind {verdict : Except Failure Bool} {next : Bool → Except Failure Bool}
    {paths : List String} {paths' : Bool → List String} (h : EndsWith view paths verdict)
    (h' : ∀ state, EndsWith view (paths' state) (next state)) :
    EndsWith view (paths ++ behind verdict paths') (verdict >>= next) := by
  cases verdict with
  | error failure =>
    rw [Condition.behind, List.append_nil]
    exact h
  | ok state =>
    rcases h with h | ⟨_, _, _, _, _, _, hverdict⟩
    · rcases h' state with h' | ⟨before, path, failure, hpaths, hbefore, hpath, hverdict⟩
      · exact .inl (h.append h')
      · refine .inr ⟨paths ++ before, path, failure, ?_, h.append hbefore, hpath, hverdict⟩
        rw [Condition.behind, hpaths, List.append_assoc]
    · cases hverdict

mutual

theorem endsWith_elementReached (element : Element) :
    EndsWith view (elementReached view element) (elementVerdict view element) := by
  cases element with
  | assertion path check =>
    rw [elementReached, elementVerdict]
    cases hpath : view path with
    | ok found =>
      refine .inl fun path' hpath' => ?_
      obtain rfl := List.mem_singleton.1 hpath'
      exact ⟨found, hpath⟩
    | error failure => exact .inr ⟨[], path, failure, rfl, nofun, hpath, rfl⟩
  | condition clauses =>
    rw [elementReached, elementVerdict]
    exact endsWith_reached clauses

/-- **A condition reads nothing behind a lookup that fails**, and comes to its failure. -/
theorem endsWith_reached (c : List Clause) : EndsWith view (reached view c) (verdict view c) := by
  cases c with
  | nil =>
    rw [reached]
    exact .inl nofun
  | cons clause rest =>
    obtain ⟨relation, element⟩ := clause
    rw [reached, verdict]
    exact (endsWith_elementReached element).behind (endsWith_restReached rest)

theorem endsWith_restReached (c : List Clause) (state : Bool) :
    EndsWith view (restReached view state c) (restVerdict view state c) := by
  cases c with
  | nil =>
    rw [restReached]
    exact .inl nofun
  | cons clause rest =>
    obtain ⟨relation, element⟩ := clause
    rw [restReached, restVerdict]
    split
    · exact endsWith_restReached rest state
    · exact (endsWith_elementReached element).behind (endsWith_restReached rest)

end

theorem EndsWith.answered_dropLast {paths : List String} {verdict : Except Failure Bool}
    (h : EndsWith view paths verdict) : Answered view paths.dropLast := by
  rcases h with h | ⟨before, path, failure, rfl, hbefore, -, -⟩
  · exact fun path hpath => h path (List.dropLast_subset _ hpath)
  · rwa [List.dropLast_concat]

/-- A path that fails is the last of the paths, and of what is left of them without
repeats. -/
theorem EndsWith.getLast?_eraseDups {paths : List String} {verdict : Except Failure Bool}
    (h : EndsWith view paths verdict) {path : String} (hpath : path ∈ paths) {failure : Failure}
    (hfails : view path = .error failure) :
    paths.eraseDups.getLast? = some path ∧ verdict = .error failure := by
  have hne : ∀ {answered}, Answered view answered → path ∉ answered := by
    intro answered hanswered hmem
    obtain ⟨found, hfound⟩ := hanswered path hmem
    rw [hfails] at hfound
    cases hfound
  rcases h with h | ⟨before, last, failure', rfl, hbefore, hlast, hverdict⟩
  · exact absurd hpath (hne h)
  · obtain rfl : path = last :=
      List.mem_singleton.1 ((List.mem_append.1 hpath).resolve_left (hne hbefore))
    obtain rfl := Except.error.inj (hfails.symm.trans hlast)
    have hkept : [path].removeAll before = [path] := by
      simp [List.removeAll, hne hbefore]
    rw [List.eraseDups_append, hkept]
    exact ⟨by simp [List.eraseDups_cons], hverdict⟩

/-! ### The questions of an evaluation -/

/-- **What evaluating a condition on an entry asks**, with nothing kept before: the paths of
the assertions that the left fold goes on to, each of them once, where it is first met. A
lookup that fails is the last one, and the evaluation fails with it. As many loads are
counted as questions are put. -/
theorem holds_asks (examiner : Examiner) (e : Entry) (c : Condition) {l : Lookups}
    (h : l.isEmpty = true) :
    let view := examiner e
    let asked := (reached view c).eraseDups
    let run := (holds examiner (.entry e) c).run.run l
    (reached view c =
      (c.zipIdx.filter fun (clause, i) => goesOn view (c.take i) clause.relation).flatMap
        fun (clause, _) => elementReached view clause.element) ∧
    run.2.calls = l.calls ++ asked.map (e, ·) ∧
    run.2.loads = l.loads + asked.length ∧
    ∀ path ∈ asked, ∀ failure, view path = .error failure →
      asked.getLast? = some path ∧ run.1 = .error failure := by
  intro view asked run
  have hget : ∀ path, l.get? e.id path = none := by
    intro path
    rw [Lookups.get?, List.isEmpty_iff.1 h, List.lookup_nil]
  have hview : (Subject.entry e).view examiner l = view := by
    rw [Subject.view_entry]
    exact funext fun path => Lookups.answer_of_none (hget path)
  have hrun : run = (verdict view c, l.after examiner ((reached view c).map (e, ·))) := by
    rw [← hview, ← Subject.after_entry]
    exact run_holds c (.entry e) l
  have hends : EndsWith view (reached view c) (verdict view c) := endsWith_reached c
  obtain ⟨hcalls, hloads⟩ := Lookups.after_entry hends.answered_dropLast l
  -- nothing is kept, so nothing is left out but repeats
  have hasked : ((reached view c).filter fun path => (l.get? e.id path).isNone).eraseDups =
      asked := by
    rw [List.filter_eq_self.2 fun path _ => by rw [hget]; rfl]
  rw [hasked] at hcalls hloads
  refine ⟨reached_eq_flatMap view c, ?_, ?_, fun path hpath failure hfails => ?_⟩
  · rw [hrun, hcalls]
  · rw [hrun, hloads]
  · rw [hrun]
    exact hends.getLast?_eraseDups (List.mem_eraseDups.1 hpath) hfails

/-! ### A chest -/

/-- A chest has a colour and two drawers; no other path can be looked up on it. -/
def chestExaminer : Examiner := fun _ path =>
  if path = "colour" then .ok (.primitive (.string "red"))
  else if path = "drawers" then
    .ok (.list [.primitive (.string "nails"), .primitive (.string "screws")])
  else .error (.discovery path "unreachable")

def chest : Entry := ⟨1, "chests/1", "house", "Chest"⟩

/-- Of a colour or of a weight, which is skipped; with nails in a drawer and, once more, of a
colour; and of a weight after all. The room comes too late. -/
def chestCondition : Condition :=
  [⟨.and, .assertion "colour" (.predicate .isPresent)⟩,
   ⟨.or, .assertion "weight" (.predicate .isPresent)⟩,
   ⟨.and, .condition
      [⟨.and, .assertion "drawers" (.quantified .any
          [⟨.and, .assertion "" (.predicate (.is (.string "nails")))⟩])⟩,
       ⟨.and, .assertion "colour" (.predicate .isPresent)⟩]⟩,
   ⟨.and, .assertion "weight" (.predicate .isPresent)⟩,
   ⟨.and, .assertion "room" (.predicate .isPresent)⟩]

theorem holds_asks_chest :
    ({} : Lookups).isEmpty = true ∧
    let asked := (reached (chestExaminer chest) chestCondition).eraseDups
    let run := (holds chestExaminer (.entry chest) chestCondition).run.run {}
    asked = ["colour", "drawers", "weight"] ∧
    run.2.calls = asked.map (chest, ·) ∧ run.2.loads = 3 ∧
    run.1 = .error (.discovery "weight" "unreachable") := by
  have hasked : (reached (chestExaminer chest) chestCondition).eraseDups =
      ["colour", "drawers", "weight"] := rfl
  obtain ⟨-, hcalls, hloads, hfails⟩ :=
    holds_asks chestExaminer chest chestCondition (l := {}) rfl
  refine ⟨rfl, hasked, hcalls, ?_, (hfails "weight" ?_ _ rfl).2⟩
  · rw [hloads, hasked]
    rfl
  · rw [hasked]
    decide

end Condition

end ObjectQuery
