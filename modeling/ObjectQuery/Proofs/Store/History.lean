import ObjectQuery.Proofs.Store.Growth

/-!
# What a history of versions shows

A path is looked up on all versions of an object, and the newest one that can follow it
shows what is found. So each version that is added goes on from what was found before it
(`Found.succeededBy`): it takes its place if it can follow the path, and leaves it as it is
if it cannot. The one thing that does change then is that a path is no longer *not found*:
an object with a single version says why a path cannot be followed, and one with more
versions only that there is no value. The law has to be carried over this switch, from a
history of one version to a history of two (`Store.resolveVersions_append_singleton`).

Which versions an object has after any steps is told by the steps
(`StoreStep.versions_takeAll`), and what is found on it then goes on through those that were
added, one by one (`StoreStep.takeAll_shows_newest`).
-/

namespace ObjectQuery

/-- What is found when there is a newer version: what the newer one shows, unless it cannot
follow the path. Then it is what was found before, with no value where nothing was found. -/
def Found.succeededBy (before newer : Found) : Found :=
  if newer.isNotFound then (if before.isNotFound then .noValue else before) else newer

namespace Found

/-- What is found on a path when there are newer versions, the oldest of them first. -/
def succeededByAll (before : Found) (path : String) (newer : List Value) : Found :=
  newer.foldl (fun found w => found.succeededBy (w.resolve path)) before

theorem succeededBy_of_isNotFound {before newer : Found} (hbefore : before.isNotFound = false)
    (hnewer : newer.isNotFound = true) : before.succeededBy newer = before := by
  rw [succeededBy, hnewer, hbefore]
  rfl

/-- Versions that cannot follow a path leave what was found before as it is. -/
theorem succeededByAll_of_isNotFound {before : Found} {path : String} {ws : List Value}
    (hbefore : before.isNotFound = false) (hws : ∀ w ∈ ws, (w.resolve path).isNotFound = true) :
    before.succeededByAll path ws = before := by
  induction ws with
  | nil => rfl
  | cons w rest ih =>
    rw [succeededByAll, List.foldl_cons,
      succeededBy_of_isNotFound hbefore (hws w List.mem_cons_self)]
    exact ih fun w' hw' => hws w' (List.mem_cons_of_mem _ hw')

end Found

namespace Store

/-! ### Histories -/

/-- What the newest version shows that can follow a path. -/
def newestShown? (versions : List Value) (path : String) : Option Found :=
  (versions.reverse.map (·.resolve path)).find? fun f => !f.isNotFound

theorem newestShown?_append_singleton (versions : List Value) (w : Value) (path : String) :
    newestShown? (versions ++ [w]) path =
      if (w.resolve path).isNotFound then newestShown? versions path
      else some (w.resolve path) := by
  rw [newestShown?, List.reverse_append, List.reverse_singleton, List.singleton_append,
    List.map_cons, List.find?_cons]
  cases (w.resolve path).isNotFound <;> rfl

/-- Several versions show what the newest one shows that can follow the path, or no value. -/
theorem resolveVersions_of_two_le {versions : List Value} (h : 2 ≤ versions.length)
    (path : String) :
    resolveVersions versions path = (newestShown? versions path).getD .noValue := by
  rcases versions with _ | ⟨first, _ | ⟨second, rest⟩⟩
  · exact absurd h (by simp)
  · exact absurd h (by simp)
  · rfl

/-- **Several versions never say that a path is not found.** -/
theorem isNotFound_resolveVersions {versions : List Value} (h : 2 ≤ versions.length)
    (path : String) : (resolveVersions versions path).isNotFound = false := by
  rw [resolveVersions_of_two_le h]
  cases hshown : newestShown? versions path with
  | none => rfl
  | some found => simpa using List.find?_some hshown

/-- A single version differs from several in nothing but what it says where it cannot follow
the path. -/
theorem getD_newestShown? {versions : List Value} (h : versions ≠ []) (path : String) :
    (newestShown? versions path).getD .noValue =
      if (resolveVersions versions path).isNotFound then .noValue
      else resolveVersions versions path := by
  rcases versions with _ | ⟨only, _ | ⟨second, rest⟩⟩
  · exact absurd rfl h
  · rw [← List.nil_append [only], newestShown?_append_singleton, List.nil_append, resolveVersions]
    cases (only.resolve path).isNotFound <;> rfl
  · have htwo : 2 ≤ (only :: second :: rest).length := by simp
    rw [isNotFound_resolveVersions htwo, resolveVersions_of_two_le htwo]
    rfl

/-- **One more version**: it goes on from what the versions before it showed, be it one or
several. -/
theorem resolveVersions_append_singleton {versions : List Value} (h : versions ≠ []) (w : Value)
    (path : String) : resolveVersions (versions ++ [w]) path =
      (resolveVersions versions path).succeededBy (w.resolve path) := by
  have htwo : 2 ≤ (versions ++ [w]).length := by
    have := List.length_pos_iff.2 h
    rw [List.length_append, List.length_singleton]
    omega
  rw [resolveVersions_of_two_le htwo, newestShown?_append_singleton, Found.succeededBy,
    ← getD_newestShown? h]
  cases (w.resolve path).isNotFound <;> rfl

/-- Any number of versions more. -/
theorem resolveVersions_append {versions : List Value} (h : versions ≠ []) (ws : List Value)
    (path : String) :
    resolveVersions (versions ++ ws) path =
      (resolveVersions versions path).succeededByAll path ws := by
  induction ws generalizing versions with
  | nil =>
    rw [List.append_nil]
    rfl
  | cons w rest ih =>
    rw [List.append_cons, ih (List.append_ne_nil_of_right_ne_nil _ (List.cons_ne_nil _ _)),
      resolveVersions_append_singleton h]
    rfl

/-! ### The versions of a stored object -/

/-- Every stored object has a version. -/
theorem Reachable.versions_ne_nil {s : Store} (h : s.Reachable) :
    ∀ o ∈ s.objects, o.versions ≠ [] := by
  induction h with
  | empty => exact fun o ho => absurd ho List.not_mem_nil
  | add uri schema type object _ ih =>
    intro o ho
    rcases List.mem_append.1 ho with ho | ho
    · exact ih o ho
    · rw [List.mem_singleton.1 ho]
      exact List.cons_ne_nil _ _
  | @addVersion s s' id object _ hs ih =>
    rw [Store.addVersion] at hs
    split at hs
    · cases hs
    · cases hs
      intro o ho
      obtain ⟨o', ho', rfl⟩ := List.mem_map.1 ho
      split
      · exact List.append_ne_nil_of_right_ne_nil _ (List.cons_ne_nil _ _)
      · exact ih o' ho'
  | refresh strategy t _ ih =>
    rw [objects_refresh]
    exact ih

/-- The versions of a stored entry can be had, and there is one at least. -/
theorem Reachable.exists_versions {s : Store} (h : s.Reachable) {e : Entry} (he : e ∈ s.entries) :
    ∃ versions, s.versions e = .ok versions ∧ versions ≠ [] := by
  obtain ⟨o, ho, -⟩ := Option.map_eq_some_iff.1 (h.wellNumbered.find?_entry he)
  refine ⟨o.versions, ?_, h.versions_ne_nil o (find?_eq_some ho).1⟩
  rw [versions, ho]

end Store

/-! ### Steps -/

namespace StoreStep

/-- The version that a step adds to the object of a number. -/
def version? (id : Nat) : StoreStep → Option Value
  | .add _ _ _ _ => none
  | .addVersion id' object => if id = id' then some object else none
  | .refresh _ _ => none

theorem mem_entries_take {s : Store} {e : Entry} (he : e ∈ s.entries) (step : StoreStep) :
    e ∈ (step.take s).entries := by
  rw [entries_take]
  exact List.mem_append_left _ he

theorem versions_eq_of_find?_eq {s s' : Store} {e : Entry} (h : s'.find? e.id = s.find? e.id) :
    s'.versions e = (s.versions e).map (· ++ []) := by
  rw [Store.versions, Store.versions, h]
  cases s.find? e.id with
  | none => rfl
  | some o => exact congrArg Except.ok (List.append_nil _).symm

/-- **One step** adds to the versions of a stored entry the version that is meant for it. -/
theorem versions_take {s : Store} {e : Entry} (he : e ∈ s.entries) (step : StoreStep) :
    (step.take s).versions e = (s.versions e).map (· ++ (step.version? e.id).toList) := by
  cases step with
  | add uri schema type object =>
    exact versions_eq_of_find?_eq (Store.find?_of_isPrefix (List.prefix_append _ _) he)
  | refresh strategy t =>
    have hobjects : s.objects ++ [] = (s.refresh strategy t).2.objects := by
      rw [Store.objects_refresh, List.append_nil]
    exact versions_eq_of_find?_eq (Store.find?_of_isPrefix ⟨[], hobjects⟩ he)
  | addVersion id object =>
    rw [take, version?]
    by_cases hknown : ∃ e' ∈ s.entries, e'.id = id
    · obtain ⟨s', hs', hgains⟩ := Store.exists_gains hknown object
      rw [hs']
      dsimp only
      rw [hgains.versions_eq]
      split
      · rfl
      · exact versions_eq_of_find?_eq rfl
    · -- the entry is stored, so the version is meant for another one
      rw [Store.addVersion_of_unknown hknown, if_neg fun hid => hknown ⟨e, he, hid⟩]
      exact versions_eq_of_find?_eq rfl

/-- **All steps** add to the versions of a stored entry those that are meant for it, in their
order. -/
theorem versions_takeAll {s : Store} {e : Entry} (he : e ∈ s.entries) (steps : List StoreStep) :
    (takeAll s steps).versions e = (s.versions e).map (· ++ steps.filterMap (version? e.id)) := by
  induction steps generalizing s with
  | nil => exact versions_eq_of_find?_eq rfl
  | cons step rest ih =>
    have hmore : (step :: rest).filterMap (version? e.id) =
        (step.version? e.id).toList ++ rest.filterMap (version? e.id) := by
      rw [List.filterMap_cons]
      cases step.version? e.id <;> rfl
    refine (ih (mem_entries_take he step)).trans ?_
    rw [versions_take he, hmore]
    cases s.versions e with
    | error failure => rfl
    | ok versions => exact congrArg Except.ok (List.append_assoc _ _ _)

/-- **What a stored entry shows on a path, as it gains versions.** A path can be looked up on it
at any time. A single version shows what the path finds on it. A version that is added goes on
from what was found before, and so do all the versions that further steps add, one after
another; those that cannot follow the path leave what was found as it is. From the second
version on, no path is reported as not found. -/
theorem takeAll_shows_newest (steps : List StoreStep) {e : Entry}
    (he : e ∈ (takeAll {} steps).entries) (path : String) :
    let s := takeAll {} steps
    ∃ versions before, s.versions e = .ok versions ∧ s.examine e path = .ok before ∧
      (∀ only, versions = [only] → before = only.resolve path) ∧
      (2 ≤ versions.length → before.isNotFound = false) ∧
      (∀ w, ∃ s', s.addVersion e.id w = .ok s' ∧
        s'.examine e path = .ok (before.succeededBy (w.resolve path))) ∧
      (∀ later, (takeAll s later).examine e path =
        .ok (before.succeededByAll path (later.filterMap (version? e.id)))) ∧
      ∀ later, before.isNotFound = false →
        (∀ w ∈ later.filterMap (version? e.id), (w.resolve path).isNotFound = true) →
        (takeAll s later).examine e path = .ok before := by
  intro s
  have hreachable : s.Reachable := reachable_takeAll .empty steps
  obtain ⟨versions, hversions, hne⟩ := hreachable.exists_versions he
  have hexamine : s.examine e path = .ok (Store.resolveVersions versions path) := by
    rw [Store.examine, hversions]
    rfl
  -- what further steps do to the entry is to append the versions that are meant for it
  have hlater : ∀ later, (takeAll s later).examine e path =
      .ok ((Store.resolveVersions versions path).succeededByAll path
        (later.filterMap (version? e.id))) := by
    intro later
    rw [Store.examine, versions_takeAll he, hversions]
    exact congrArg Except.ok (Store.resolveVersions_append hne _ path)
  refine ⟨versions, Store.resolveVersions versions path, hversions, hexamine, ?_,
    fun htwo => Store.isNotFound_resolveVersions htwo path, fun w => ?_, hlater,
    fun later hbefore hws => ?_⟩
  · rintro only rfl
    rfl
  · obtain ⟨s', hs', hgains⟩ := Store.exists_gains ⟨e, he, rfl⟩ w
    refine ⟨s', hs', ?_⟩
    rw [Store.examine, hgains.versions_eq, if_pos rfl, hversions]
    exact congrArg Except.ok (Store.resolveVersions_append_singleton hne w path)
  · rw [hlater, Found.succeededByAll_of_isNotFound hbefore hws]

/-! ### A lamp that is described anew -/

/-- A lamp whose bulb has a power from its second version on. -/
def bulbSteps : List StoreStep :=
  [.add "lamps/1" "house" "Lamp" (.object [("bulb", .string "old")]),
    .addVersion 1 (.object [("bulb", .object [("power", .string "40 W")])])]

/-- A version without a power, one of another lamp, and one without a bulb to look at. -/
def laterSteps : List StoreStep :=
  [.addVersion 1 (.object [("bulb", .string "broken")]), .add "lamps/2" "house" "Lamp" .null,
    .addVersion 2 (.object [("bulb", .object [("power", .string "60 W")])]),
    .addVersion 1 (.string "sold")]

/-- The entry of the lamp. -/
def bulbEntry : Entry := ⟨1, "lamps/1", "house", "Lamp"⟩

theorem takeAll_shows_newest_bulbSteps :
    (bulbEntry ∈ (takeAll {} (bulbSteps.take 1)).entries ∧
      (takeAll {} (bulbSteps.take 1)).examine bulbEntry "bulb.power" =
        .ok ((Value.object [("bulb", .string "old")]).resolve "bulb.power")) ∧
    let s := takeAll {} bulbSteps
    bulbEntry ∈ s.entries ∧
    ∃ versions before, s.versions bulbEntry = .ok versions ∧
      s.examine bulbEntry "bulb.power" = .ok before ∧
      (2 ≤ versions.length ∧ before.isNotFound = false) ∧
      (∃ s', s.addVersion 1 .null = .ok s' ∧ s'.examine bulbEntry "bulb.power" =
        .ok (before.succeededBy (Value.null.resolve "bulb.power"))) ∧
      (∀ w ∈ laterSteps.filterMap (version? 1), (w.resolve "bulb.power").isNotFound = true) ∧
      (takeAll s laterSteps).examine bulbEntry "bulb.power" = .ok before := by
  have hfirst : bulbEntry ∈ (takeAll {} (bulbSteps.take 1)).entries := List.mem_singleton.2 rfl
  have he : bulbEntry ∈ (takeAll {} bulbSteps).entries := List.mem_singleton.2 rfl
  refine ⟨⟨hfirst, ?_⟩, he, ?_⟩
  · obtain ⟨versions, before, hversions, hbefore, honly, -⟩ :=
      takeAll_shows_newest (bulbSteps.take 1) hfirst "bulb.power"
    cases hversions
    rw [hbefore, honly _ rfl]
  · obtain ⟨versions, before, hversions, hbefore, -, htwo, hadd, -, hlater⟩ :=
      takeAll_shows_newest bulbSteps he "bulb.power"
    have hlength : 2 ≤ versions.length := by
      cases hversions
      decide
    have hws : ∀ w ∈ laterSteps.filterMap (version? 1),
        (w.resolve "bulb.power").isNotFound = true := by
      decide +kernel
    exact ⟨versions, before, hversions, hbefore, ⟨hlength, htwo hlength⟩, hadd .null, hws,
      hlater laterSteps (htwo hlength) hws⟩

/-- With its first version alone the power of the lamp is not found. -/
example :
    (Store.resolveVersions [.object [("bulb", .string "old")]] "bulb.power").isNotFound = true := by
  decide +kernel

end StoreStep

end ObjectQuery
