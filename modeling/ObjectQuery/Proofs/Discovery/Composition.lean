import Mathlib.Data.List.Forall2
import ObjectQuery.Discovery.Path

/-!
# Following a path in two parts

A path that is cut at a dot can be followed in two parts: the first one, and the second
one on what that finds. In between stands the JSON form of what was found, and with it
two things get lost: the reason why an element of a list was not found, and the mark that
tells a list that was collected from one that is stored.

What one segment does, whatever follows it, is said once (`Path.walk_cons_cases`). If the
first part meets no list with a segment that is no position, nothing is collected and
nothing gets lost (`Path.walk_append`). If it does (`Path.Spreads`), what the whole path
collects and what the second part collects from the parts agree element by element, but
that an element may *fade*: it is not found at once, and has no value in two parts
(`Path.forall₂_fades_walk`). The induction is the recursion of `Path.walk` and keeps to
what an element contributes to a list, so that lists collected inside of lists are no case
of their own. `Value.resolve_append_dot` says this of paths.
-/

namespace ObjectQuery

/-- What is found at once, and what is found in two parts. -/
inductive Found.Fades : Found → Found → Prop
  | same (f : Found) : Fades f f
  | lost (reason : String) : Fades (.notFound reason) .noValue

theorem Found.Fades.toValue_eq {f g : Found} (h : Fades f g) :
    f.toValue?.getD .null = g.toValue?.getD .null := by
  cases h <;> rfl

theorem Found.elementValues_eq_of_fades {fs gs : List Found} (h : List.Forall₂ Fades fs gs) :
    elementValues fs = elementValues gs := by
  induction h with
  | nil => rfl
  | cons hhead _ ih => rw [elementValues, elementValues, hhead.toValue_eq, ih]

theorem Found.eq_of_isNone {f : Found} (h : f.isNone = true) :
    f = .noValue ∨ ∃ reason, f = .notFound reason := by
  rcases f with _ | reason | p | fields | elements
  · exact .inl rfl
  · exact .inr ⟨reason, rfl⟩
  all_goals cases h

namespace Path

/-! ### Segments of a joined path -/

theorem segments_of_ne {q : String} (hq : q ≠ "") :
    segments q = (splitDots q.toList).map String.ofList := by
  rw [segments, String.isEmpty_eq_false_iff.2 hq]
  rfl

theorem segments_ne_nil {q : String} (hq : q ≠ "") : segments q ≠ [] := by
  rw [segments_of_ne hq, Ne, List.map_eq_nil_iff]
  exact splitDots_ne_nil q.toList

theorem segments_append_dot {p q : String} (hp : p ≠ "") (hq : q ≠ "") :
    segments (p ++ "." ++ q) = segments p ++ segments q := by
  have hpq : p ++ "." ++ q ≠ "" := by simp [hp]
  have hchars : (p ++ "." ++ q).toList = p.toList ++ '.' :: q.toList := by simp
  rw [segments_of_ne hpq, segments_of_ne hp, segments_of_ne hq, hchars, splitDots_append_dot,
    List.map_append]

/-! ### Where a path spreads -/

/-- Following the segments meets a list with a segment that is no position. -/
inductive Spreads : Value → List String → Prop
  | here {items : List Value} {s : String} {rest : List String} (h : position? s = none) :
    Spreads (.array items) (s :: rest)
  | field {fields : Fields} {s : String} {rest : List String} {v : Value}
    (hv : Fields.get? fields s = some v) (h : Spreads v rest) : Spreads (.object fields) (s :: rest)
  | item {items : List Value} {s : String} {rest : List String} {i : Int} {v : Value}
    (hi : position? s = some i) (hpos : 0 ≤ i) (hv : items[i.toNat]? = some v)
    (h : Spreads v rest) : Spreads (.array items) (s :: rest)

theorem spreads_object_iff {fields : Fields} {s : String} {rest : List String} :
    Spreads (.object fields) (s :: rest) ↔ ∃ v, Fields.get? fields s = some v ∧ Spreads v rest := by
  constructor
  · rintro (_ | ⟨hv, h⟩)
    exact ⟨_, hv, h⟩
  · rintro ⟨v, hv, h⟩
    exact .field hv h

theorem spreads_array_iff {items : List Value} {s : String} {rest : List String} :
    Spreads (.array items) (s :: rest) ↔ position? s = none ∨
      ∃ i v, position? s = some i ∧ 0 ≤ i ∧ items[i.toNat]? = some v ∧ Spreads v rest := by
  constructor
  · rintro (hi | _ | ⟨hi, hpos, hv, h⟩)
    · exact .inl hi
    · exact .inr ⟨_, _, hi, hpos, hv, h⟩
  · rintro (hi | ⟨i, v, hi, hpos, hv, h⟩)
    · exact .here hi
    · exact .item hi hpos hv h

/-- **One segment.** It spreads over a list, or it leads to a value from which the rest of the
path goes on, or the path ends with it and finds nothing. -/
theorem walk_cons_cases (v : Value) (s : String) :
    (∃ items, v = .array items ∧ position? s = none) ∨
    (∃ w, ∀ rest, walk v (s :: rest) = walk w rest ∧ (Spreads v (s :: rest) ↔ Spreads w rest)) ∨
    ∃ f : Found, f.isNone = true ∧
      ∀ rest, walk v (s :: rest) = { found := f } ∧ ¬Spreads v (s :: rest) := by
  rcases v with _ | b | n | t | items | fields
  case object =>
    -- a segment is the name of a field, whatever else it could be read as
    have hwalk := fun rest => walkField_eq fields s rest
    cases hv : Fields.get? fields s with
    | none =>
      refine .inr (.inr ⟨.noValue, rfl, fun rest => ⟨?_, ?_⟩⟩)
      · rw [walk, hwalk, hv]
      · simp [spreads_object_iff, hv]
    | some w =>
      refine .inr (.inl ⟨w, fun rest => ⟨?_, ?_⟩⟩)
      · rw [walk, hwalk, hv]
      · simp [spreads_object_iff, hv]
  case array =>
    cases hi : position? s with
    | none => exact .inl ⟨items, rfl, rfl⟩
    | some i =>
      have hwalk : ∀ rest, walk (.array items) (s :: rest) =
          if i < 0 then { found := negativePosition i } else walkItem items i.toNat rest := by
        intro rest
        rw [walk, hi]
      by_cases hneg : i < 0
      · refine .inr (.inr ⟨negativePosition i, rfl, fun rest => ⟨?_, ?_⟩⟩)
        · rw [hwalk, if_pos hneg]
        · simp [spreads_array_iff, hi, Int.not_le.2 hneg]
      · have hpos : 0 ≤ i := Int.not_lt.1 hneg
        cases hv : items[i.toNat]? with
        | none =>
          refine .inr (.inr ⟨.noValue, rfl, fun rest => ⟨?_, ?_⟩⟩)
          · rw [hwalk, if_neg hneg, walkItem_eq, hv]
          · simp [spreads_array_iff, hi, hv]
        | some w =>
          refine .inr (.inl ⟨w, fun rest => ⟨?_, ?_⟩⟩)
          · rw [hwalk, if_neg hneg, walkItem_eq, hv]
          · simp [spreads_array_iff, hi, hv, hpos]
  all_goals exact .inr (.inr ⟨_, rfl, fun rest => ⟨rfl, by rintro ⟨⟩⟩⟩)

/-- **The mark tells where a path spreads.** -/
theorem spread_walk_iff {v : Value} {ps : List String} :
    (walk v ps).spread = true ↔ Spreads v ps := by
  induction ps generalizing v with
  | nil => exact iff_of_false (by rw [walk]; simp) (by rintro ⟨⟩)
  | cons s rest ih =>
    obtain ⟨items, rfl, hs⟩ | ⟨w, hw⟩ | ⟨f, -, hf⟩ := walk_cons_cases v s
    · exact iff_of_true (by rw [walk, hs]) (.here hs)
    · rw [(hw rest).1, (hw rest).2, ih]
    · exact iff_of_false (by rw [(hf rest).1]; simp) (hf rest).2

instance {v : Value} {ps : List String} : Decidable (Spreads v ps) :=
  decidable_of_iff _ spread_walk_iff

/-- What is marked is a list, of what it contributes to a list around it. -/
theorem walk_eq_of_spreads {v : Value} {ps : List String} (h : Spreads v ps) :
    walk v ps = ⟨.list (walk v ps).collected, true⟩ := by
  induction h with
  | here hi => simp [walk, hi, Reached.collected]
  | field hv _ ih =>
    rw [walk, walkField_eq, hv]
    exact ih
  | item hi hpos hv _ ih =>
    rw [walk, hi]
    dsimp only
    rw [if_neg (Int.not_lt.2 hpos), walkItem_eq, hv]
    exact ih

/-- What is not marked contributes itself to a list around it. -/
theorem collected_walk_of_not_spreads {v : Value} {ps : List String} (h : ¬Spreads v ps) :
    (walk v ps).collected = [(walk v ps).found] := by
  have hmark : (walk v ps).spread = false := by
    rw [← Bool.not_eq_true, spread_walk_iff]
    exact h
  rw [Reached.collected, hmark]

/-- A path that spreads does so whatever follows. -/
theorem Spreads.append {v : Value} {ps : List String} (h : Spreads v ps) (qs : List String) :
    Spreads v (ps ++ qs) := by
  induction h with
  | here hi => exact .here hi
  | field hv _ ih => exact .field hv ih
  | item hi hpos hv _ ih => exact .item hi hpos hv ih

/-! ### No list met by a name -/

/-- Goes on from what was found; what was not found stays so. -/
def follow (f : Found) (segments : List String) : Reached :=
  match f.toValue? with
  | some v => walk v segments
  | none => { found := f }

theorem walk_null (qs : List String) : walk .null qs = { found := .noValue } := by
  cases qs <;> rfl

theorem follow_ofValue (v : Value) (qs : List String) : follow (.ofValue v) qs = walk v qs := by
  rw [follow, Found.toValue?_ofValue]

theorem follow_of_isNone {f : Found} (h : f.isNone = true) (qs : List String) :
    follow f qs = { found := f } := by
  obtain rfl | ⟨reason, rfl⟩ := Found.eq_of_isNone h
  · exact walk_null qs
  · rfl

/-- **A path that does not spread can be followed in two parts.** -/
theorem walk_append {v : Value} {ps : List String} (h : ¬Spreads v ps) (qs : List String) :
    walk v (ps ++ qs) = follow (walk v ps).found qs := by
  induction ps generalizing v with
  | nil => rw [List.nil_append, walk, follow_ofValue]
  | cons s rest ih =>
    rw [List.cons_append]
    obtain ⟨items, rfl, hs⟩ | ⟨w, hw⟩ | ⟨f, hnone, hf⟩ := walk_cons_cases v s
    · exact absurd (.here hs) h
    · rw [(hw rest).2] at h
      rw [(hw rest).1, (hw (rest ++ qs)).1, ih h]
    · rw [(hf rest).1, (hf (rest ++ qs)).1, follow_of_isNone hnone]

/-- **What a path that does not spread finds** is a stored value, or it is not found. -/
theorem found_of_not_spreads {v : Value} {ps : List String} (h : ¬Spreads v ps) :
    (∃ w, (walk v ps).found = .ofValue w) ∨ ∃ reason, (walk v ps).found = .notFound reason := by
  induction ps generalizing v with
  | nil => exact .inl ⟨v, by rw [walk]⟩
  | cons s rest ih =>
    obtain ⟨items, rfl, hs⟩ | ⟨w, hw⟩ | ⟨f, hnone, hf⟩ := walk_cons_cases v s
    · exact absurd (.here hs) h
    · rw [(hw rest).2] at h
      rw [(hw rest).1]
      exact ih h
    · rw [(hf rest).1]
      exact (Found.eq_of_isNone hnone).imp (fun hf => ⟨.null, hf⟩) id

/-! ### Lists met by a name -/

/-- Going on from an element of a list: one that was not found has become `null`. -/
def followElement (qs : List String) (f : Found) : List Found :=
  (walk (f.toValue?.getD .null) qs).collected

theorem followElement_ofValue (v : Value) (qs : List String) :
    followElement qs (.ofValue v) = (walk v qs).collected := by
  rw [followElement, Found.toValue?_ofValue, Option.getD_some]

theorem followElement_noValue (qs : List String) : followElement qs .noValue = [.noValue] := by
  rw [followElement, Found.toValue?, Option.getD_some, walk_null]
  rfl

theorem followElement_notFound (reason : String) (qs : List String) :
    followElement qs (.notFound reason) = [.noValue] := by
  rw [followElement, Found.toValue?, Option.getD_none, walk_null]
  rfl

/-- Walking to no value contributes that, at once and in two parts. -/
theorem forall₂_fades_noValue (qs : List String) :
    List.Forall₂ Found.Fades [.noValue] ([Found.noValue].flatMap (followElement qs)) := by
  rw [List.flatMap_singleton, followElement_noValue]
  exact .cons (.same _) .nil

theorem forall₂_fades_notFound (reason : String) (qs : List String) :
    List.Forall₂ Found.Fades [.notFound reason]
      ([Found.notFound reason].flatMap (followElement qs)) := by
  rw [List.flatMap_singleton, followElement_notFound]
  exact .cons (.lost reason) .nil

-- A list met by a name keeps the segments and goes on in its elements, so the induction is
-- on the value and not on the path.
mutual

/-- **What a walk contributes to a list, at once and in two parts.** -/
theorem forall₂_fades_walk (qs : List String) : (v : Value) → (ps : List String) →
    List.Forall₂ Found.Fades (walk v (ps ++ qs)).collected
      ((walk v ps).collected.flatMap (followElement qs))
  | v, [] => by
    have hcollected : (walk v []).collected = [.ofValue v] := by rw [walk]; rfl
    rw [List.nil_append, hcollected, List.flatMap_singleton, followElement_ofValue]
    exact List.forall₂_same.2 fun _ _ => .same _
  | .null, _ :: _ => forall₂_fades_noValue qs
  | .boolean _, s :: _ => forall₂_fades_notFound _ qs
  | .number _, s :: _ => forall₂_fades_notFound _ qs
  | .string _, s :: _ => forall₂_fades_notFound _ qs
  | .object fields, s :: rest => by
    rw [List.cons_append, walk, walk]
    exact forall₂_fades_walkField qs fields s rest
  | .array items, s :: rest => by
    rw [List.cons_append, walk, walk]
    cases position? s with
    | none => exact forall₂_fades_walkEach qs items (s :: rest)
    | some i =>
      dsimp only
      split
      · exact forall₂_fades_notFound _ qs
      · exact forall₂_fades_walkItem qs items i.toNat rest

theorem forall₂_fades_walkField (qs : List String) : (fields : List (String × Value)) →
    (name : String) → (rest : List String) →
    List.Forall₂ Found.Fades (walkField fields name (rest ++ qs)).collected
      ((walkField fields name rest).collected.flatMap (followElement qs))
  | [], _, _ => forall₂_fades_noValue qs
  | (n, v) :: fields, name, rest => by
    rw [walkField, walkField]
    split
    · exact forall₂_fades_walk qs v rest
    · exact forall₂_fades_walkField qs fields name rest

theorem forall₂_fades_walkItem (qs : List String) : (items : List Value) → (i : Nat) →
    (rest : List String) →
    List.Forall₂ Found.Fades (walkItem items i (rest ++ qs)).collected
      ((walkItem items i rest).collected.flatMap (followElement qs))
  | [], _, _ => forall₂_fades_noValue qs
  | v :: _, 0, rest => forall₂_fades_walk qs v rest
  | _ :: items, i + 1, rest => forall₂_fades_walkItem qs items i rest

theorem forall₂_fades_walkEach (qs : List String) : (items : List Value) → (ps : List String) →
    List.Forall₂ Found.Fades (walkEach items (ps ++ qs))
      ((walkEach items ps).flatMap (followElement qs))
  | [], _ => .nil
  | v :: items, ps => by
    rw [walkEach, walkEach, List.flatMap_append]
    exact List.rel_append (forall₂_fades_walk qs v ps) (forall₂_fades_walkEach qs items ps)

end

end Path

/-! ### Paths -/

theorem Found.resolve_eq_follow (f : Found) {q : String} (hq : q ≠ "") :
    f.resolve q = (Path.follow f (Path.segments q)).found := by
  rw [resolve, String.isEmpty_eq_false_iff.2 hq, Path.follow]
  cases f.toValue? <;> rfl

/-- Spreading over the JSON form of a list goes on from every element. -/
theorem Path.walkEach_elementValues (elements : List Found) (qs : List String) :
    walkEach (Found.elementValues elements) qs = elements.flatMap (followElement qs) := by
  rw [walkEach_eq_flatMap, Found.elementValues_eq_map, List.flatMap_map]
  rfl

/-- Spreading over a list that was collected gives the list of what is found from its
elements. -/
theorem Found.resolve_list (elements : List Found) {q : String} (hq : q ≠ "")
    (hname : ∀ s, (Path.segments q).head? = some s → Path.position? s = none) :
    (list elements).resolve q =
      .list (elements.flatMap (Path.followElement (Path.segments q))) := by
  obtain ⟨s, rest, hsegments⟩ := List.exists_cons_of_ne_nil (Path.segments_ne_nil hq)
  rw [hsegments] at hname ⊢
  rw [resolve_eq_follow _ hq, hsegments, ← Path.walkEach_elementValues]
  change (Path.walk (.array (elementValues elements)) (s :: rest)).found = _
  rw [Path.walk, hname s rfl]

/-- **A path can be cut at a dot** and followed in two parts. Where the first part does not
spread, the second one finds on what it found just what the whole path finds. Where it
does, and the second one starts with a name, both find a list of the same JSON form, and
an element of it that is not found at once may have no value in two parts. -/
theorem Value.resolve_append_dot (v : Value) {p q : String} (hp : p ≠ "") (hq : q ≠ "") :
    (¬Path.Spreads v (Path.segments p) →
      v.resolve (p ++ "." ++ q) = (v.resolve p).resolve q) ∧
    (Path.Spreads v (Path.segments p) →
      (∀ s, (Path.segments q).head? = some s → Path.position? s = none) →
      (v.resolve (p ++ "." ++ q)).toValue? = ((v.resolve p).resolve q).toValue? ∧
      ∃ whole parts, v.resolve (p ++ "." ++ q) = .list whole ∧
        (v.resolve p).resolve q = .list parts ∧ List.Forall₂ Found.Fades whole parts) := by
  have hsegments := Path.segments_append_dot hp hq
  constructor
  · intro hspreads
    rw [Found.resolve_eq_follow _ hq, resolve, hsegments, Path.walk_append hspreads, resolve]
  · intro hspreads hname
    have hwhole : v.resolve (p ++ "." ++ q) =
        .list (Path.walk v (Path.segments p ++ Path.segments q)).collected := by
      rw [resolve, hsegments, Path.walk_eq_of_spreads (hspreads.append _)]
      rfl
    have hparts : (v.resolve p).resolve q = .list ((Path.walk v (Path.segments p)).collected.flatMap
        (Path.followElement (Path.segments q))) := by
      have hfirst : v.resolve p = .list (Path.walk v (Path.segments p)).collected := by
        rw [resolve, Path.walk_eq_of_spreads hspreads]
        rfl
      rw [hfirst, Found.resolve_list _ hq hname]
    have hfades := Path.forall₂_fades_walk (Path.segments q) v (Path.segments p)
    refine ⟨?_, _, _, hwhole, hparts, hfades⟩
    rw [hwhole, hparts, Found.toValue?, Found.toValue?, Found.elementValues_eq_of_fades hfades]

/-! ### The rooms of two lamps -/

/-- Two lamps, one of them in a room and one in the garden. -/
def lampPlaces : Value :=
  .object [("lamps", .array
    [.object [("place", .object [("room", .object [("name", .string "study")])])],
     .object [("place", .string "garden")]])]

theorem Value.resolve_append_dot_lampPlaces :
    (¬Path.Spreads lampPlaces (Path.segments "lamps.1.place.room") ∧
      lampPlaces.resolve ("lamps.1.place.room" ++ "." ++ "name") =
        (lampPlaces.resolve "lamps.1.place.room").resolve "name") ∧
    (Path.Spreads lampPlaces (Path.segments "lamps.place.room") ∧
      (∀ s, (Path.segments "name").head? = some s → Path.position? s = none) ∧
      (lampPlaces.resolve ("lamps.place.room" ++ "." ++ "name")).toValue? =
        ((lampPlaces.resolve "lamps.place.room").resolve "name").toValue? ∧
      ∃ whole parts, lampPlaces.resolve ("lamps.place.room" ++ "." ++ "name") = .list whole ∧
        (lampPlaces.resolve "lamps.place.room").resolve "name" = .list parts ∧
        List.Forall₂ Found.Fades whole parts) := by
  have hone : ¬Path.Spreads lampPlaces (Path.segments "lamps.1.place.room") := by decide +kernel
  have hall : Path.Spreads lampPlaces (Path.segments "lamps.place.room") := by decide +kernel
  have hname : ∀ s, (Path.segments "name").head? = some s → Path.position? s = none := by
    rintro s ⟨⟩
    decide
  exact ⟨⟨hone, (Value.resolve_append_dot lampPlaces (by decide) (by decide)).1 hone⟩, hall, hname,
    (Value.resolve_append_dot lampPlaces (by decide) (by decide)).2 hall hname⟩

/-- The lamp in the garden is not found in a room at once, and has no value in two parts. -/
example :
    (Path.walk lampPlaces ["lamps", "place", "room", "name"]).found =
        .list [.primitive (.string "study"), .notFound "path terminated early at 'room'"] ∧
      (Path.follow (Path.walk lampPlaces ["lamps", "place", "room"]).found ["name"]).found =
        .list [.primitive (.string "study"), .noValue] := by
  constructor <;> rfl

end ObjectQuery
