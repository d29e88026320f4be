import ObjectQuery.Condition.Evaluate
import ObjectQuery.Proofs.Discovery.Nesting

/-!
# A path under a quantifier and in front of it

What is asked of the elements of a list may be about what a path finds on each of them.
There are two ways to say so: the path is looked up under the quantifier, on one element
after another, or it stands in front of the quantifier, where it spreads over the list and
gathers what it finds before any element is tested. Both come to the same
(`Condition.holds_quantified_append_dot`), failures included, where the list is a stored one
and the path finds one thing on every element.

Two facts carry this. A path that does not spread finds a value that is stored, unless it
cannot be followed (`Path.found_of_not_spreads`); so no element of a list it finds is one
that was not found, and gathering from elements loses nothing
(`Found.resolve_list_eq_map`). And a quantifier tests what was gathered just as it tests the
elements by what is found on them, up to the same one that decides it or fails
(`Quantifier.over_map`).
-/

namespace ObjectQuery

/-! ### Gathering from a stored list -/

/-- Every element of a list that a path finds without spreading has a JSON form. -/
theorem Value.toValue?_of_mem_of_not_spreads {v : Value} {path : String} {elements : List Found}
    (hspreads : ¬Path.Spreads v (Path.segments path)) (hlist : v.resolve path = .list elements) :
    ∀ element ∈ elements, ∃ w, element.toValue? = some w := by
  rcases Path.found_of_not_spreads hspreads with ⟨w, hw⟩ | ⟨reason, hreason⟩
  · rw [← resolve, hlist] at hw
    rcases w with _ | b | n | t | items | fields
    case array =>
      rw [Found.ofValue, Found.list.injEq, Found.ofValues_eq_map] at hw
      rw [hw]
      intro element helement
      obtain ⟨item, -, rfl⟩ := List.mem_map.1 helement
      exact ⟨item, Found.toValue?_ofValue item⟩
    all_goals cases hw
  · rw [← resolve, hlist] at hreason
    cases hreason

/-- What a path finds on an element is all that it gathers from it, if it does not spread
there. -/
theorem Path.followElement_of_not_spreads {element : Found} {q : String} (hq : q ≠ "") {w : Value}
    (hw : element.toValue? = some w) (h : ¬Spreads w (segments q)) :
    followElement (segments q) element = [element.resolve q] := by
  rw [followElement, Found.resolve_eq_follow _ hq, follow, hw]
  exact collected_walk_of_not_spreads h

/-- **Gathering from a stored list**: a path that starts with a name and spreads on none of
the elements finds a list, of one thing for each of them. -/
theorem Found.resolve_list_eq_map {q : String} (hq : Path.StartsByName q) {elements : List Found}
    (helements : ∀ element ∈ elements,
      ∃ w, element.toValue? = some w ∧ ¬Path.Spreads w (Path.segments q)) :
    (list elements).resolve q = .list (elements.map (·.resolve q)) := by
  have hne := hq.ne_empty
  obtain ⟨s, rest, hsegments, hs⟩ := hq
  have hname : ∀ s', (Path.segments q).head? = some s' → Path.position? s' = none := by
    rw [hsegments]
    rintro s' ⟨⟩
    exact hs
  have hgathered : ∀ element ∈ elements,
      Path.followElement (Path.segments q) element = [element.resolve q] := by
    intro element helement
    obtain ⟨w, hw, hspreads⟩ := helements element helement
    exact Path.followElement_of_not_spreads hne hw hspreads
  rw [resolve_list elements hne hname, List.flatMap_congr hgathered, List.map_eq_flatMap]

/-! ### Testing what was gathered -/

/-- A quantifier over what a function makes of elements tests each of them by what it
becomes. -/
theorem Quantifier.over_map (q : Quantifier) (holds : Found → LookupM Bool) (f : Found → Found)
    (elements : List Found) :
    q.over holds (elements.map f) = q.over (fun element => holds (f element)) elements := by
  induction elements with
  | nil => rfl
  | cons element rest ih => rw [List.map_cons, Quantifier.over, Quantifier.over, ih]

namespace Condition

variable (examiner : Examiner)

/-- An assertion about a found value checks what its path finds on it. -/
theorem holdsElement_value (found : Found) (path : String) (check : Check) :
    holdsElement examiner (.value found) (.assertion path check) =
      holdsCheck examiner (found.resolve path) check := by
  rw [holdsElement, Subject.read, pure_bind]

/-- A condition of a single assertion. -/
theorem holds_value_singleton (found : Found) (relation : Relation) (path : String)
    (check : Check) :
    holds examiner (.value found) [⟨relation, .assertion path check⟩] =
      holdsCheck examiner (found.resolve path) check := by
  rw [holds, holdsElement_value]
  simp only [holdsRest, bind_pure]

/-- Under a quantifier, a single assertion about the elements of a list checks what its path
finds on each. -/
theorem holdsCheck_quantified (q : Quantifier) (relation : Relation) (path : String)
    (check : Check) (elements : List Found) :
    holdsCheck examiner (.list elements) (.quantified q [⟨relation, .assertion path check⟩]) =
      q.over (fun element => holdsCheck examiner (element.resolve path) check) elements := by
  rw [holdsCheck]
  simp only [holds_value_singleton]

/-- **A path may be moved from under a quantifier to the front of it.** On a value where `p`
finds a list without spreading, and where `q` starts with a name and spreads on none of its
elements, quantifying over what `p` finds and looking up `q` on each of the elements comes to
the same as quantifying over what the joined path finds and looking up nothing more on it,
whatever is checked: the same truth value or the same failure. Both check what `q` finds on the
elements, one after another, up to the first that decides the quantifier or fails. -/
theorem holds_quantified_append_dot (v : Value) {p q : String} (hp : p ≠ "")
    (hq : Path.StartsByName q) {elements : List Found}
    (hspreads : ¬Path.Spreads v (Path.segments p)) (hlist : v.resolve p = .list elements)
    (hflat : ∀ element ∈ elements, ∀ w, element.toValue? = some w →
      ¬Path.Spreads w (Path.segments q))
    (quantifier : Quantifier) (check : Check) (relation relation' : Relation) :
    holdsElement examiner (.value (.ofValue v))
        (.assertion p (.quantified quantifier [⟨relation, .assertion q check⟩])) =
      holdsElement examiner (.value (.ofValue v))
        (.assertion (p ++ "." ++ q) (.quantified quantifier [⟨relation', .assertion "" check⟩])) ∧
    holdsElement examiner (.value (.ofValue v))
        (.assertion p (.quantified quantifier [⟨relation, .assertion q check⟩])) =
      quantifier.over (fun element => holdsCheck examiner (element.resolve q) check) elements := by
  have hjoined : v.resolve (p ++ "." ++ q) = .list (elements.map (·.resolve q)) :=
    calc v.resolve (p ++ "." ++ q)
      _ = (Path.follow (v.resolve p) (Path.segments q)).found := by
        rw [Value.resolve, Path.segments_append_dot hp hq.ne_empty, Path.walk_append hspreads,
          Value.resolve]
      _ = (Found.list elements).resolve q := by
        rw [hlist, Found.resolve_eq_follow _ hq.ne_empty]
      _ = .list (elements.map (·.resolve q)) := by
        refine Found.resolve_list_eq_map hq fun element helement => ?_
        obtain ⟨w, hw⟩ := Value.toValue?_of_mem_of_not_spreads hspreads hlist element helement
        exact ⟨w, hw, hflat element helement w hw⟩
  have hunder : holdsElement examiner (.value (.ofValue v))
      (.assertion p (.quantified quantifier [⟨relation, .assertion q check⟩])) =
      quantifier.over (fun element => holdsCheck examiner (element.resolve q) check) elements := by
    rw [holdsElement_value, Found.resolve_ofValue, hlist, holdsCheck_quantified]
  refine ⟨?_, hunder⟩
  rw [hunder, holdsElement_value, Found.resolve_ofValue, hjoined, holdsCheck_quantified,
    Quantifier.over_map]
  simp only [Found.resolve_empty]

/-! ### Rooms of a house -/

/-- The rooms of a house: one without a name, one on which no name can be looked up, and one
that has a name. -/
def rooms : List Value :=
  [.object [("name", .null)], .string "attic", .object [("name", .string "study")]]

theorem holds_quantified_append_dot_rooms :
    let house : Value := .object [("rooms", .array rooms)]
    let examiner : Examiner := fun _ _ => .ok .noValue
    ("rooms" ≠ "" ∧ Path.StartsByName "name" ∧ ¬Path.Spreads house (Path.segments "rooms") ∧
      house.resolve "rooms" = .list (Found.ofValues rooms) ∧
      ∀ element ∈ Found.ofValues rooms, ∀ w, element.toValue? = some w →
        ¬Path.Spreads w (Path.segments "name")) ∧
    holdsElement examiner (.value (.ofValue house))
        (.assertion "rooms" (.quantified .all [⟨.and, .assertion "name" (.predicate .isEmpty)⟩])) =
      holdsElement examiner (.value (.ofValue house)) (.assertion ("rooms" ++ "." ++ "name")
        (.quantified .all [⟨.or, .assertion "" (.predicate .isEmpty)⟩])) ∧
    holdsElement examiner (.value (.ofValue house))
        (.assertion "rooms" (.quantified .all [⟨.and, .assertion "name" (.predicate .isEmpty)⟩])) =
      Quantifier.all.over
        (fun element => holdsCheck examiner (element.resolve "name") (.predicate .isEmpty))
        (Found.ofValues rooms) := by
  intro house examiner
  have hsegments : Path.segments "rooms" = ["rooms"] := by decide +kernel
  have hname : Path.StartsByName "name" := ⟨"name", [], by decide +kernel, by decide +kernel⟩
  have hspreads : ¬Path.Spreads house (Path.segments "rooms") := by decide +kernel
  have hlist : house.resolve "rooms" = .list (Found.ofValues rooms) := by
    rw [Value.resolve, hsegments]
    rfl
  have hflat : ∀ element ∈ Found.ofValues rooms, ∀ w, element.toValue? = some w →
      ¬Path.Spreads w (Path.segments "name") := by
    have hrooms : ∀ room ∈ rooms, ¬Path.Spreads room (Path.segments "name") := by decide +kernel
    intro element helement w hw
    rw [Found.ofValues_eq_map] at helement
    obtain ⟨room, hroom, rfl⟩ := List.mem_map.1 helement
    rw [Found.toValue?_ofValue, Option.some.injEq] at hw
    exact hw ▸ hrooms room hroom
  exact ⟨⟨by decide, hname, hspreads, hlist, hflat⟩,
    holds_quantified_append_dot examiner house (by decide) hname hspreads hlist hflat .all
      (.predicate .isEmpty) .and .or⟩

end Condition

end ObjectQuery
