import Mathlib.Data.List.Forall2
import ObjectQuery.Json.Record

/-!
# Records as they may be written

A record may be written as an object, in which its fields stand in any order, or as the array
of their values (`Record.Writes`). A reader sees the same in all of these, a place for each name
with what the field holds (`Record.slots?_of_writes`); only the names have to be distinct. In an
object there may be other fields as well, which are passed over (`Record.slots?_object`).
-/

namespace ObjectQuery.Record

/-- A record, its fields given in the order in which they are declared, is written. -/
inductive Writes (fields : Fields) : Value → Prop
  | object {written : Fields} (h : written.Perm fields) : Writes fields (.object written)
  | positional : Writes fields (.array (fields.map Prod.snd))

/-- An object with the fields as they are declared. -/
theorem writes_object (fields : Fields) : Writes fields (.object fields) :=
  .object (.refl fields)

/-! ### Lists -/

/-- Reading all elements of a list. -/
theorem mapM_eq_some_iff {α β : Type} {f : α → Option β} {xs : List α} {ys : List β} :
    xs.mapM f = some ys ↔ List.Forall₂ (fun x y => f x = some y) xs ys := by
  induction xs generalizing ys with
  | nil => simp [eq_comm]
  | cons x rest ih =>
    rw [List.mapM_cons, List.forall₂_cons_left_iff]
    cases hx : f x with
    | none => simp
    | some y =>
      cases hrest : rest.mapM f with
      | none => simp [← ih, hrest]
      | some ys' => simp [← ih, hrest, eq_comm]

theorem listOf?_eq_some {α : Type} {read? : Value → Option α} {xs : List α} {items : List Value}
    (h : List.Forall₂ (fun x v => read? v = some x) xs items) :
    listOf? read? (.array items) = some xs :=
  mapM_eq_some_iff.2 h.flip

/-- What holds of all that is read alike holds of all that is read from an array. -/
theorem forall_of_listOf? {α : Type} {read? : Value → Option α} {P : α → Prop}
    (hread : ∀ v x, read? v = some x → P x) {v : Value} {xs : List α}
    (h : listOf? read? v = some xs) : ∀ x ∈ xs, P x := by
  cases v with
  | array items =>
    have hall : List.Forall₂ (fun w x => read? w = some x) items xs := mapM_eq_some_iff.1 h
    clear h
    induction hall with
    | nil => exact nofun
    | cons hx _ ih => exact List.forall_mem_cons.2 ⟨hread _ _ hx, ih⟩
  | _ => cases h

/-! ### Fields -/

theorem occurrences_of_not_mem {fields : Fields} {name : String}
    (h : name ∉ fields.map Prod.fst) : occurrences fields name = [] := by
  have hfilter : fields.filter (fun f => f.1 == name) = [] :=
    List.filter_eq_nil_iff.2 fun f hf heq => h (eq_of_beq heq ▸ List.mem_map_of_mem hf)
  rw [occurrences, hfilter, List.map_nil]

/-- Where names are distinct, a field is the only one of its name. -/
theorem occurrences_of_mem {fields : Fields} (hnodup : (fields.map Prod.fst).Nodup)
    {name : String} {v : Value} (h : (name, v) ∈ fields) : occurrences fields name = [v] := by
  induction fields with
  | nil => cases h
  | cons first rest ih =>
    obtain ⟨hfirst, hrest⟩ := List.nodup_cons.1 hnodup
    rw [occurrences, List.filter_cons]
    rcases List.mem_cons.1 h with rfl | h
    · rw [if_pos (beq_self_eq_true name), List.map_cons, ← occurrences,
        occurrences_of_not_mem hfirst]
    · have hne : ¬(first.1 == name) = true := fun heq =>
        hfirst (eq_of_beq heq ▸ List.mem_map_of_mem h)
      rw [if_neg hne, ← occurrences, ih hrest h]

/-- The only field of its name is found wherever it stands. -/
theorem occurrences_of_perm {fields written : Fields} (hnodup : (fields.map Prod.fst).Nodup)
    (hperm : written.Perm fields) {name : String} {v : Value} (h : (name, v) ∈ fields) :
    occurrences written name = [v] :=
  occurrences_of_mem ((hperm.map Prod.fst).nodup_iff.2 hnodup) (hperm.mem_iff.2 h)

/-- Reading goes through the fields one by one, and reads those of a name. -/
theorem eq_map_occurrences {α : Type} {name : String} {read : Value → α} {go : Fields → List α}
    (hnil : go [] = [])
    (hcons : ∀ n v rest, go ((n, v) :: rest) = if n == name then read v :: go rest else go rest)
    (fields : Fields) : go fields = (occurrences fields name).map read := by
  induction fields with
  | nil => exact hnil
  | cons f rest ih =>
    rw [hcons, occurrences, List.filter_cons, ih]
    split <;> rfl

/-- The one thing that is read from the fields of a name is read from a part of the object. -/
theorem exists_of_map_occurrences {α : Type} {read : Value → α} {fields : Fields} {name : String}
    {x : α} (h : (occurrences fields name).map read = [x]) :
    ∃ v, sizeOf v < sizeOf (Value.object fields) ∧ read v = x := by
  obtain ⟨v, hv, hread⟩ := List.map_eq_singleton_iff.1 h
  have hmem : v ∈ occurrences fields name := by
    rw [hv]
    exact List.mem_singleton_self v
  obtain ⟨f, hf, rfl⟩ := List.mem_map.1 hmem
  have hfield : sizeOf f < sizeOf fields := List.sizeOf_lt_of_mem (List.mem_filter.1 hf).1
  have hvalue : sizeOf f.2 < sizeOf f := by
    rw [Prod.mk.sizeOf_spec f.1 f.2]
    omega
  refine ⟨f.2, ?_, hread⟩
  rw [Value.object.sizeOf_spec]
  omega

theorem slot?_of_mem {fields : Fields} (hnodup : (fields.map Prod.fst).Nodup) {name : String}
    {v : Value} (h : (name, v) ∈ fields) : slot? fields name = some (some v) := by
  rw [slot?, occurrences_of_mem hnodup h]

theorem slot?_of_perm {fields written : Fields} (hnodup : (fields.map Prod.fst).Nodup)
    (hperm : written.Perm fields) {name : String} {v : Value} (h : (name, v) ∈ fields) :
    slot? written name = some (some v) := by
  rw [slot?, occurrences_of_perm hnodup hperm h]

/-! ### Slots -/

/-- In an object the fields of other names are passed over. -/
theorem slots?_object {fields written : Fields} (hnodup : (written.map Prod.fst).Nodup)
    (h : fields ⊆ written) :
    slots? (fields.map Prod.fst) (.object written) = some (fields.map fun f => some f.2) := by
  rw [slots?, mapM_eq_some_iff, List.forall₂_map_left_iff, List.forall₂_map_right_iff,
    List.forall₂_same]
  exact fun f hf => slot?_of_mem hnodup (h hf)

theorem slots?_positional (fields : Fields) :
    slots? (fields.map Prod.fst) (.array (fields.map Prod.snd)) =
      some (fields.map fun f => some f.2) := by
  rw [slots?, List.length_map, List.length_map, if_pos (Nat.le_refl _), Nat.sub_self,
    List.replicate_zero, List.append_nil, List.map_map]
  rfl

/-- **A record is read as it is declared**, however it is written. -/
theorem slots?_of_writes {fields : Fields} (hnodup : (fields.map Prod.fst).Nodup) {v : Value}
    (h : Writes fields v) :
    slots? (fields.map Prod.fst) v = some (fields.map fun f => some f.2) := by
  cases h with
  | object hperm =>
    exact slots?_object ((hperm.map Prod.fst).nodup_iff.2 hnodup) hperm.symm.subset
  | positional => exact slots?_positional fields

end ObjectQuery.Record
