import Mathlib.Data.List.Infix
import ObjectQuery.Proofs.Pipeline.Columns
import ObjectQuery.Proofs.Pipeline.Ordered

/-!
# Which pipelines are accepted

A sorting step names columns, and only the projection in front of it says which columns there
are. That projection is the one of the nearest projecting step before it, or the one that the
input declares if there is none (`Pipeline.inEffect`); filters and sorts leave it alone. A
pipeline is **well formed** if every sorting step has a projection in front of it and names its
columns only (`Pipeline.WellFormed`), and what is reported of a pipeline that is not is the
first sorting step at fault (`Pipeline.FirstRefusal`).

Both are said of the steps as they are written. That the stages are worked out before any row
moves, one from what the other declares, comes to the same (`Pipeline.stages_cases`,
`Pipeline.stages_append`), and the streams that are then made declare the projections that were
taken for granted (`Pipeline.map_projection?_outputs`). So a pipeline is accepted exactly if it
is well formed, whatever rows it is fed and whatever is found on them
(`Pipeline.rowsOf_accepts`).
-/

namespace ObjectQuery

/-! ### Names of columns -/

/-- A column goes by the name, as its alias or as its path. -/
def Projection.Knows (p : Projection) (name : String) : Prop :=
  ∃ c ∈ p, c.alias? = some name ∨ c.path = name

theorem Projection.isSome_indexOfIdentifier?_iff {p : Projection} {name : String} :
    (p.indexOfIdentifier? name).isSome = true ↔ p.Knows name := by
  rw [indexOfIdentifier?, Option.isSome_or, Bool.or_eq_true, indexOfAlias?, indexOf?,
    List.findIdx?_isSome, List.findIdx?_isSome, List.any_eq_true, List.any_eq_true]
  simp only [beq_iff_eq, Knows, and_or_left, exists_or]

/-- The first sort key that names no column is reported. -/
theorem Sorting.positions_eq_error {p : Projection} {before after : List SortKey} {key : SortKey}
    (hbefore : ∀ key' ∈ before, p.Knows key'.identifier) (hkey : ¬p.Knows key.identifier) :
    positions p (before ++ key :: after) = .error key.identifier := by
  induction before with
  | nil =>
    rw [← Projection.isSome_indexOfIdentifier?_iff, Bool.not_eq_true, Option.isSome_eq_false_iff,
      Option.isNone_iff_eq_none] at hkey
    rw [List.nil_append, positions, hkey]
  | cons first rest ih =>
    obtain ⟨hfirst, hrest⟩ := List.forall_mem_cons.1 hbefore
    obtain ⟨i, hi⟩ := Option.isSome_iff_exists.1
      (Projection.isSome_indexOfIdentifier?_iff.2 hfirst)
    rw [List.cons_append, positions, hi, ih hrest]
    rfl

/-- The projection that a step puts in place of the one in front of it. -/
def Step.target? : Step → Option Projection
  | .project target => some target
  | _ => none

namespace Pipeline

/-! ### Well-formed pipelines -/

/-- The projection in effect behind steps: that of the last one that projects, or else the one
that is declared in front of them. -/
def inEffect (declared? : Option Projection) (before : List Step) : Option Projection :=
  (before.reverse.findSome? Step.target?).or declared?

/-- There is a projection, and columns of it go by the names of all keys. -/
def Sortable (declared? : Option Projection) (keys : List SortKey) : Prop :=
  ∃ p, declared? = some p ∧ ∀ key ∈ keys, p.Knows key.identifier

/-- Every sorting step names columns of the projection in effect in front of it. -/
def WellFormed (declared? : Option Projection) (steps : List Step) : Prop :=
  ∀ before keys after, steps = before ++ .sort keys :: after →
    Sortable (inEffect declared? before) keys

/-- Why a sorting step is refused. -/
inductive Refuses : Option Projection → List SortKey → Failure → Prop
  /-- There is no projection. -/
  | noProjection {keys : List SortKey} : Refuses none keys noProjection
  /-- This is the first key that names no column. -/
  | unknown {p : Projection} {before after : List SortKey} {key : SortKey}
    (hbefore : ∀ key' ∈ before, p.Knows key'.identifier) (hkey : ¬p.Knows key.identifier) :
    Refuses (some p) (before ++ key :: after) (unknownIdentifier key.identifier)

/-- The failure is that of the first sorting step that is at fault. -/
def FirstRefusal (declared? : Option Projection) (steps : List Step) (failure : Failure) : Prop :=
  ∃ before keys after, steps = before ++ .sort keys :: after ∧ WellFormed declared? before ∧
    Refuses (inEffect declared? before) keys failure

theorem Refuses.not_sortable {declared? : Option Projection} {keys : List SortKey}
    {failure : Failure} (h : Refuses declared? keys failure) : ¬Sortable declared? keys := by
  rintro ⟨p, hp, hkeys⟩
  cases h with
  | noProjection => cases hp
  | unknown _ hkey =>
    cases hp
    exact hkey (hkeys _ (List.mem_append_right _ List.mem_cons_self))

/-- A sorting step that is not refused names columns only. -/
theorem sortable_or_refuses (declared? : Option Projection) (keys : List SortKey) :
    Sortable declared? keys ∨ ∃ failure, Refuses declared? keys failure := by
  rcases declared? with - | p
  · exact .inr ⟨_, .noProjection⟩
  · induction keys with
    | nil => exact .inl ⟨p, rfl, fun key hkey => absurd hkey List.not_mem_nil⟩
    | cons key rest ih =>
      by_cases hkey : p.Knows key.identifier
      · rcases ih with ⟨p', hp, hrest⟩ | ⟨failure, hrest⟩
        · cases hp
          exact .inl ⟨p, rfl, List.forall_mem_cons.2 ⟨hkey, hrest⟩⟩
        · cases hrest with
          | unknown hbefore hunknown =>
            exact .inr ⟨_, .unknown (List.forall_mem_cons.2 ⟨hkey, hbefore⟩) hunknown⟩
      · exact .inr ⟨_, .unknown (fun key' hkey' => absurd hkey' List.not_mem_nil) hkey⟩

theorem inEffect_cons (declared? : Option Projection) (step : Step) (rest : List Step) :
    inEffect declared? (step :: rest) = inEffect (step.target?.or declared?) rest := by
  rw [inEffect, inEffect, List.reverse_cons, List.findSome?_append, Option.or_assoc]
  congr 2
  cases step <;> rfl

theorem inEffect_append_singleton (declared? : Option Projection) (before : List Step)
    (step : Step) :
    inEffect declared? (before ++ [step]) = step.target?.or (inEffect declared? before) := by
  rw [inEffect, inEffect, List.reverse_append, List.findSome?_append, Option.or_assoc]
  congr 1
  cases step <;> rfl

/-- A pipeline is well formed if its first step is, and the others behind it. -/
theorem WellFormed.cons {declared? : Option Projection} {step : Step} {rest : List Step}
    (hstep : ∀ keys, step = .sort keys → Sortable declared? keys)
    (hrest : WellFormed (step.target?.or declared?) rest) :
    WellFormed declared? (step :: rest) := by
  intro before keys after heq
  rcases List.cons_eq_append_iff.1 heq with ⟨rfl, hsort⟩ | ⟨before, rfl, hafter⟩
  · exact hstep keys (List.cons.inj hsort).1.symm
  · rw [inEffect_cons]
    exact hrest before keys after hafter

/-! ### The stages of a pipeline -/

theorem stage_sort_eq_ok {declared? : Option Projection} {keys : List SortKey}
    (h : Sortable declared? keys) :
    ∃ s, stage declared? (.sort keys) = .ok s := by
  obtain ⟨p, rfl, hkeys⟩ := h
  obtain ⟨found, hfound⟩ := Execute.positions_eq_ok fun key hkey =>
    Projection.isSome_indexOfIdentifier?_iff.2 (hkeys key hkey)
  exact ⟨.sort found p, by rw [stage, hfound]⟩

theorem stage_sort_eq_error {declared? : Option Projection} {keys : List SortKey}
    {failure : Failure} (h : Refuses declared? keys failure) :
    stage declared? (.sort keys) = .error failure := by
  cases h with
  | noProjection => rfl
  | unknown hbefore hkey => rw [stage, Sorting.positions_eq_error hbefore hkey]

/-- **A step has a stage**, unless it is a sorting step that is refused. -/
theorem stage_cases (declared? : Option Projection) (step : Step) :
    (∃ s, stage declared? step = .ok s) ∧ (∀ keys, step = .sort keys → Sortable declared? keys) ∨
      ∃ keys failure, step = .sort keys ∧ Refuses declared? keys failure := by
  cases step with
  | filter condition => exact .inl ⟨⟨_, rfl⟩, nofun⟩
  | project target => exact .inl ⟨⟨_, rfl⟩, nofun⟩
  | sort keys =>
    rcases sortable_or_refuses declared? keys with hsortable | ⟨failure, hrefuses⟩
    · refine .inl ⟨stage_sort_eq_ok hsortable, ?_⟩
      rintro _ ⟨⟩
      exact hsortable
    · exact .inr ⟨keys, failure, rfl, hrefuses⟩

/-- A stage declares what its step puts into effect. -/
theorem declares_of_stage {declared? : Option Projection} {step : Step} {s : Stage}
    (h : stage declared? step = .ok s) : s.declares = step.target?.or declared? := by
  cases step with
  | filter condition =>
    cases h
    rfl
  | project target =>
    cases h
    rfl
  | sort keys =>
    obtain ⟨positions, declared, rfl, -, rfl⟩ := exists_of_stage_sort h
    rfl

/-- The stages of steps in two parts: the second part is worked out from the projection that is
in effect behind the first. -/
theorem stages_append {declared? : Option Projection} {before : List Step} {ss : List Stage}
    (h : stages declared? before = .ok ss) (after : List Step) :
    stages declared? (before ++ after) =
      (stages (inEffect declared? before) after).map (ss ++ ·) := by
  induction before generalizing declared? ss with
  | nil =>
    cases h
    change stages declared? after = (stages declared? after).map ([] ++ ·)
    cases stages declared? after <;> rfl
  | cons step rest ih =>
    obtain ⟨s, ss', hs, hss', rfl⟩ := exists_of_stages_cons h
    have hdeclares := declares_of_stage hs
    rw [List.cons_append, stages_cons_eq_map hs, inEffect_cons, ← hdeclares, ih hss']
    cases stages (inEffect s.declares rest) after <;> rfl

/-- **The stages of a well-formed pipeline**, or why there are none. -/
theorem stages_cases (declared? : Option Projection) (steps : List Step) :
    (∃ ss, stages declared? steps = .ok ss) ∧ WellFormed declared? steps ∨
      ∃ failure, stages declared? steps = .error failure ∧
        FirstRefusal declared? steps failure := by
  induction steps generalizing declared? with
  | nil => exact .inl ⟨⟨[], rfl⟩, fun before keys after heq => by simp at heq⟩
  | cons step rest ih =>
    rcases stage_cases declared? step with ⟨⟨s, hs⟩, hstep⟩ | ⟨keys, failure, rfl, hrefuses⟩
    · have hrest := ih s.declares
      rw [declares_of_stage hs] at hrest
      rcases hrest with ⟨⟨ss, hss⟩, hwell⟩ | ⟨failure, hfails, hrefusal⟩
      · rw [← declares_of_stage hs] at hss
        exact .inl ⟨⟨s :: ss, stages_cons hs hss⟩, hwell.cons hstep⟩
      · obtain ⟨before, keys, after, rfl, hbefore, hrefuses⟩ := hrefusal
        refine .inr ⟨failure, ?_, step :: before, keys, after, rfl, hbefore.cons hstep, ?_⟩
        · rw [stages_cons_eq_map hs, declares_of_stage hs, hfails]
          rfl
        · rwa [inEffect_cons]
    · refine .inr ⟨failure, ?_, [], keys, rest, rfl, fun before keys after heq => ?_, hrefuses⟩
      · rw [stages, stage_sort_eq_error hrefuses]
        rfl
      · simp at heq

/-- **A pipeline has stages exactly if it is well formed.** -/
theorem exists_stages_iff {declared? : Option Projection} {steps : List Step} :
    (∃ ss, stages declared? steps = .ok ss) ↔ WellFormed declared? steps := by
  rcases stages_cases declared? steps with ⟨hstages, hwell⟩ | ⟨failure, hfails, hrefusal⟩
  · exact iff_of_true hstages hwell
  · obtain ⟨before, keys, after, rfl, -, hrefuses⟩ := hrefusal
    refine iff_of_false ?_ fun hwell => hrefuses.not_sortable (hwell before keys after rfl)
    rintro ⟨ss, hss⟩
    rw [hfails] at hss
    cases hss

/-- **What is reported is the first sorting step at fault.** -/
theorem stages_eq_error_iff {declared? : Option Projection} {steps : List Step}
    {failure : Failure} :
    stages declared? steps = .error failure ↔ FirstRefusal declared? steps failure := by
  constructor
  · intro h
    rcases stages_cases declared? steps with ⟨⟨ss, hss⟩, -⟩ | ⟨failure', hfails, hrefusal⟩
    · rw [h] at hss
      cases hss
    · rw [h] at hfails
      cases hfails
      exact hrefusal
  · rintro ⟨before, keys, after, rfl, hbefore, hrefuses⟩
    obtain ⟨ss, hss⟩ := exists_stages_iff.2 hbefore
    rw [stages_append hss, stages, stage_sort_eq_error hrefuses]
    rfl

/-! ### The streams of a pipeline -/

/-- The stream of every stage declares the projection that is in effect behind its step. -/
theorem map_projection?_outputs {steps : List Step} {input : Stream} {ss : List Stage}
    (h : stages input.projection? steps = .ok ss) (examiner : Examiner) (noneFirst : Bool)
    (l : Lookups) :
    (input :: ((outputs examiner noneFirst input ss).run l).1).map (·.projection?) =
      steps.inits.map (inEffect input.projection?) := by
  induction steps generalizing input ss l with
  | nil =>
    cases h
    rfl
  | cons step rest ih =>
    obtain ⟨s, ss', hs, hss', rfl⟩ := exists_of_stages_cons h
    have hout : ((s.run examiner noneFirst input).run l).1.projection? = s.declares :=
      s.projection?_run input l
    rw [← hout] at hss'
    have hrest := ih hss' ((s.run examiner noneFirst input).run l).2
    have heffect : inEffect input.projection? ∘ List.cons step =
        inEffect ((s.run examiner noneFirst input).run l).1.projection? := by
      funext before
      rw [Function.comp_apply, inEffect_cons, hout, declares_of_stage hs]
    rw [List.inits_cons]
    change _ = inEffect input.projection? [] :: (rest.inits.map (List.cons step)).map _
    rw [List.map_map, heffect, ← hrest]
    rfl

/-! ### Accepting -/

theorem exists_rowsOf_iff {examiner : Examiner} {noneFirst : Bool} {steps : List Step}
    {input : Stream} {l : Lookups} :
    (∃ rows, rowsOf examiner noneFirst steps input l = .ok rows) ↔
      WellFormed input.projection? steps := by
  rw [← exists_stages_iff]
  constructor
  · rintro ⟨rows, hrows⟩
    obtain ⟨ss, hss, -⟩ := except_bind_eq_ok.1 hrows
    exact ⟨ss, hss⟩
  · rintro ⟨ss, hss⟩
    exact ⟨_, except_bind_eq_ok.2 ⟨ss, hss, rfl⟩⟩

theorem rowsOf_eq_error_iff {examiner : Examiner} {noneFirst : Bool} {steps : List Step}
    {input : Stream} {l : Lookups} {failure : Failure} :
    rowsOf examiner noneFirst steps input l = .error failure ↔
      FirstRefusal input.projection? steps failure := by
  rw [← stages_eq_error_iff]
  constructor
  · intro h
    rcases except_bind_eq_error.1 h with hfails | ⟨ss, -, hrows⟩
    · exact hfails
    · cases hrows
  · intro hfails
    exact except_bind_eq_error.2 (.inl hfails)

/-- **A pipeline is accepted exactly if it is well formed.** Otherwise the failure is that of
the first sorting step at fault. Neither depends on the rows of the input or on what is found on
them, but only on the steps and on the projection that the input declares. In front of every
step, and behind the last, stands a stream that declares the projection in effect there, which
filters and sorts do not change. -/
theorem rowsOf_accepts (examiner : Examiner) (noneFirst : Bool) (steps : List Step)
    (input : Stream) (l : Lookups) :
    ((∃ rows, rowsOf examiner noneFirst steps input l = .ok rows) ↔
        WellFormed input.projection? steps) ∧
      (∀ failure, rowsOf examiner noneFirst steps input l = .error failure ↔
        FirstRefusal input.projection? steps failure) ∧
      (∀ ss, stages input.projection? steps = .ok ss →
        (input :: ((outputs examiner noneFirst input ss).run l).1).map (·.projection?) =
          steps.inits.map (inEffect input.projection?)) ∧
      ∀ before,
        (∀ condition, inEffect input.projection? (before ++ [.filter condition]) =
          inEffect input.projection? before) ∧
        ∀ keys, inEffect input.projection? (before ++ [.sort keys]) =
          inEffect input.projection? before :=
  ⟨exists_rowsOf_iff, fun _ => rowsOf_eq_error_iff,
    fun _ hss => map_projection?_outputs hss examiner noneFirst l,
    fun before => ⟨fun _ => inEffect_append_singleton _ before _,
      fun _ => inEffect_append_singleton _ before _⟩⟩

/-! ### Tickets at the door -/

/-- Tickets for the door by their gates. -/
def gateSteps : List Step :=
  [.project ticketColumns, .filter [⟨.and, .assertion "seat" (.predicate .isPresent)⟩],
    .project doorColumns, .sort [⟨"place", .ascending⟩, ⟨"gate", .descending⟩]]

/-- The stages of the steps. -/
def gateStages : List Stage :=
  [.project ticketColumns none,
    .filter [⟨.and, .assertion "seat" (.predicate .isPresent)⟩] (some ticketColumns),
    .project doorColumns (some ticketColumns),
    .sort [(0, .ascending), (1, .descending)] doorColumns]

theorem rowsOf_accepts_gateSteps :
    stages none gateSteps = .ok gateStages ∧
    WellFormed none gateSteps ∧
      ((Stream.scan tickets) ::
          ((outputs ticketExaminer true (Stream.scan tickets) gateStages).run {}).1).map
          (·.projection?) =
        [none, some ticketColumns, some ticketColumns, some doorColumns, some doorColumns] := by
  have hstages : stages none gateSteps = .ok gateStages := rfl
  obtain ⟨haccepted, -, hdeclare, -⟩ :=
    rowsOf_accepts ticketExaminer true gateSteps (Stream.scan tickets) {}
  exact ⟨hstages, haccepted.1 ⟨_, rfl⟩, hdeclare gateStages hstages⟩

/-- The guests are no column any more where the second sorting step asks for them. -/
example :
    stages (some ticketColumns)
        [.sort [⟨"guests", .ascending⟩], .project doorColumns,
          .sort [⟨"place", .ascending⟩, ⟨"guests", .ascending⟩], .sort [⟨"row", .ascending⟩]] =
      .error (unknownIdentifier "guests") :=
  rfl

end Pipeline

end ObjectQuery
