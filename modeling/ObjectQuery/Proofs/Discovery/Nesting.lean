import ObjectQuery.Proofs.Discovery.Composition

/-!
# Lists inside of lists

A name that meets a list spreads over its elements, and where an element is a list in its
turn it spreads again. What is collected there is spliced into what is collected around
it, so that it makes no difference how deep lists stand in one another: a path that starts
with a name finds on a list what it finds on the list with all nested lists spliced in
place (`Value.splicedItems`), and what it finds on two lists joined is what it finds on the
one and then on the other (`Value.resolve_spliced`). What it finds on lists of one value then
tells what it finds on any.

This is about lists that are met by the name, and about no others. A list that stands in an
object is reached behind the name, is kept whole where the path ends at it, and is left
alone by splicing.
-/

namespace ObjectQuery

/-! ### Splicing -/

namespace Value

mutual

/-- What stands in the place of a value once nested lists are spliced: the elements of a
list, and any other value as it is. -/
def spliced : Value → List Value
  | .array items => splicedItems items
  | v => [v]

/-- The elements of a list with all nested lists spliced in place. -/
def splicedItems : List Value → List Value
  | [] => []
  | v :: rest => spliced v ++ splicedItems rest

end

theorem spliced_of_items? {v : Value} (h : v.items? = none) : v.spliced = [v] := by
  cases v with
  | array items => cases h
  | _ => rfl

mutual

/-- No list is left among what is spliced. -/
theorem items?_of_mem_spliced (v : Value) : ∀ w ∈ spliced v, w.items? = none := by
  intro w hw
  rcases v with _ | b | n | s | items | fields
  case array =>
    rw [spliced] at hw
    exact items?_of_mem_splicedItems items w hw
  all_goals
    rw [spliced_of_items? rfl, List.mem_singleton] at hw
    rw [hw]
    rfl

theorem items?_of_mem_splicedItems (items : List Value) :
    ∀ w ∈ splicedItems items, w.items? = none := by
  intro w hw
  rcases items with _ | ⟨v, rest⟩
  · rw [splicedItems] at hw
    cases hw
  · rw [splicedItems] at hw
    rcases List.mem_append.1 hw with hhead | hrest
    · exact items?_of_mem_spliced v w hhead
    · exact items?_of_mem_splicedItems rest w hrest

end

end Value

/-! ### What is collected -/

namespace Path

/-- The first segment of a path is a name: it is no position. The empty path has no first
segment. -/
def StartsByName (path : String) : Prop :=
  ∃ s rest, segments path = s :: rest ∧ position? s = none

theorem StartsByName.ne_empty {path : String} (h : StartsByName path) : path ≠ "" := by
  rintro rfl
  obtain ⟨s, rest, hsegments, -⟩ := h
  rw [segments_empty] at hsegments
  cases hsegments

variable {s : String} {rest : List String}

/-- A name spreads over a list. -/
theorem walk_array_of_name (hs : position? s = none) (items : List Value) :
    walk (.array items) (s :: rest) = ⟨.list (walkEach items (s :: rest)), true⟩ := by
  rw [walk, hs]

theorem walkEach_append (xs ys : List Value) (segments : List String) :
    walkEach (xs ++ ys) segments = walkEach xs segments ++ walkEach ys segments := by
  rw [walkEach_eq_flatMap, walkEach_eq_flatMap, walkEach_eq_flatMap, List.flatMap_append]

theorem walkEach_singleton (v : Value) (segments : List String) :
    walkEach [v] segments = (walk v segments).collected := by
  rw [walkEach, walkEach, List.append_nil]

mutual

/-- What a value contributes to a list is collected from what stands in its place once
nested lists are spliced. -/
theorem walkEach_spliced (hs : position? s = none) (v : Value) :
    walkEach v.spliced (s :: rest) = (walk v (s :: rest)).collected := by
  rcases v with _ | b | n | t | items | fields
  case array =>
    -- the inner list carries the mark of what was collected, and is spliced for it
    rw [Value.spliced, walk_array_of_name hs, walkEach_splicedItems hs items]
    rfl
  all_goals
    rw [Value.spliced_of_items? rfl]
    exact walkEach_singleton _ _

/-- **Splicing nested lists changes nothing** of what a name collects. -/
theorem walkEach_splicedItems (hs : position? s = none) (items : List Value) :
    walkEach (Value.splicedItems items) (s :: rest) = walkEach items (s :: rest) := by
  rcases items with _ | ⟨v, others⟩
  · rfl
  · rw [Value.splicedItems, walkEach_append, walkEach_spliced hs v,
      walkEach_splicedItems hs others, walkEach]

end

/-- What a path that starts with a name finds on a list. -/
theorem resolve_array (hs : position? s = none) {path : String}
    (hsegments : segments path = s :: rest) (items : List Value) :
    (Value.array items).resolve path = .list (walkEach items (s :: rest)) := by
  rw [Value.resolve, hsegments, walk_array_of_name hs]

/-- What is found on a list of one is what its element contributes to a list. -/
theorem resolve_array_singleton (hs : position? s = none) {path : String}
    (hsegments : segments path = s :: rest) (v : Value) :
    (Value.array [v]).resolve path = .list (walk v (segments path)).collected := by
  rw [resolve_array hs hsegments, walkEach_singleton, hsegments]

end Path

/-- **How lists are nested makes no difference to a path that starts with a name.** On a list
it finds what it finds on the elements that are left when nested lists, of any depth, are
spliced in place; on two lists that are joined it finds a list, what it finds on the first
followed by what it finds on the second; and on a list of one value it finds what it finds on
the value, in a list of its own unless it has spread there. -/
theorem Value.resolve_spliced {path : String} (h : Path.StartsByName path) (items : List Value) :
    (∀ w ∈ splicedItems items, w.items? = none) ∧
    (array items).resolve path = (array (splicedItems items)).resolve path ∧
    (∀ xs ys : List Value, ∃ fs gs, (array xs).resolve path = .list fs ∧
      (array ys).resolve path = .list gs ∧ (array (xs ++ ys)).resolve path = .list (fs ++ gs)) ∧
    ∀ v : Value,
      (Path.Spreads v (Path.segments path) → (array [v]).resolve path = v.resolve path) ∧
      (¬Path.Spreads v (Path.segments path) →
        (array [v]).resolve path = .list [v.resolve path]) := by
  obtain ⟨s, rest, hsegments, hs⟩ := h
  have hfound := Path.resolve_array hs hsegments
  have hsingle := Path.resolve_array_singleton hs hsegments
  refine ⟨items?_of_mem_splicedItems items, ?_, fun xs ys => ?_, fun v => ⟨fun hspreads => ?_,
    fun hspreads => ?_⟩⟩
  · rw [hfound, hfound, Path.walkEach_splicedItems hs]
  · refine ⟨_, _, hfound xs, hfound ys, ?_⟩
    rw [hfound, Path.walkEach_append]
  · rw [hsingle, resolve, Path.walk_eq_of_spreads hspreads]
    rfl
  · rw [hsingle, Path.collected_walk_of_not_spreads hspreads, resolve]

/-! ### Shelves of a cellar -/

/-- Jars on a shelf, one of them in a crate that stands in another one, and a shelf with
nothing on it; the jar in the crates is labelled twice. -/
def cellar : List Value :=
  [.array [.object [("label", .string "plum")],
      .array [.array [.object [("label", .array [.string "quince", .array [.string "2019"]])]],
        .null]],
    .array [], .string "dust"]

theorem Value.resolve_spliced_cellar :
    (Path.StartsByName "label" ∧ Path.Spreads (.array cellar) (Path.segments "label") ∧
      ¬Path.Spreads (.string "dust") (Path.segments "label")) ∧
    (∀ w ∈ splicedItems cellar, w.items? = none) ∧
    (array cellar).resolve "label" = (array (splicedItems cellar)).resolve "label" ∧
    (∀ xs ys : List Value, ∃ fs gs, (array xs).resolve "label" = .list fs ∧
      (array ys).resolve "label" = .list gs ∧
      (array (xs ++ ys)).resolve "label" = .list (fs ++ gs)) ∧
    (array [array cellar]).resolve "label" = (array cellar).resolve "label" ∧
    (array [string "dust"]).resolve "label" = .list [(string "dust").resolve "label"] := by
  have hname : Path.StartsByName "label" := ⟨"label", [], by decide, by decide⟩
  have hcellar : Path.Spreads (.array cellar) (Path.segments "label") := by decide +kernel
  have hdust : ¬Path.Spreads (.string "dust") (Path.segments "label") := by decide +kernel
  obtain ⟨hspliced, hfound, hjoined, hsingle⟩ := resolve_spliced hname cellar
  exact ⟨⟨hname, hcellar, hdust⟩, hspliced, hfound, hjoined, (hsingle _).1 hcellar,
    (hsingle _).2 hdust⟩

/-- The list of labels stands in an object and stays whole, with the list in it. -/
example :
    (Path.walk (.array cellar) ["label"]).found =
      .list [.primitive (.string "plum"),
        .list [.primitive (.string "quince"), .list [.primitive (.string "2019")]], .noValue,
        .notFound "path terminated early at 'label'"] := by
  rfl

end ObjectQuery
