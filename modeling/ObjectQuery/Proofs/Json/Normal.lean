import ObjectQuery.Json.Value
import ObjectQuery.Proofs.Placing

/-!
# Values in normal form

A value is in normal form if the fields of every object in it ascend by name (`Value.Normal`).
Putting a value into normal form gives one (`Value.normal_normalize`), and what is in normal form
stays as it is (`Value.normalize_of_normal`): a field that is greater than all in front of it is
put in behind them.
-/

namespace ObjectQuery

namespace Fields

/-- Fields ascend by name. -/
def Ascending (fields : Fields) : Prop :=
  fields.Pairwise fun f g => f.1 < g.1

/-! ### Sorting fields -/

theorem insert_eq_place (fields : Fields) (name : String) (v : Value) :
    fields.insert name v = Placing.place Prod.fst (name, v) fields := by
  induction fields with
  | nil => rfl
  | cons first rest ih =>
    obtain ⟨n, w⟩ := first
    rw [insert, Placing.place, ih]

theorem sort_eq_placeAll (fields : Fields) : fields.sort = Placing.placeAll Prod.fst [] fields := by
  simp only [sort, Placing.placeAll, insert_eq_place]

/-- **Fields that ascend are sorted.** -/
theorem Ascending.sort_eq {fields : Fields} (h : fields.Ascending) : fields.sort = fields := by
  rw [sort_eq_placeAll]
  exact Placing.placeAll_of_ascends h

theorem ascending_sort (fields : Fields) : fields.sort.Ascending := by
  rw [sort_eq_placeAll]
  exact Placing.Ascends.placeAll .nil fields

/-- Sorting leaves no fields but those that are there. -/
theorem mem_of_mem_sort {fields : Fields} {f : String × Value} (h : f ∈ fields.sort) :
    f ∈ fields := by
  rw [sort_eq_placeAll] at h
  exact (Placing.mem_placeAll h).resolve_left List.not_mem_nil

end Fields

namespace Value

/-- A value is in normal form: the fields of every object in it ascend by name. -/
inductive Normal : Value → Prop
  | null : Normal .null
  | boolean (b : Bool) : Normal (.boolean b)
  | number (n : Number) : Normal (.number n)
  | string (s : String) : Normal (.string s)
  | array {items : List Value} (hitems : ∀ v ∈ items, Normal v) : Normal (.array items)
  | object {fields : Fields} (hascending : fields.Ascending)
    (hfields : ∀ f ∈ fields, Normal f.2) : Normal (.object fields)

theorem normalizeItems_eq_map (items : List Value) :
    normalizeItems items = items.map normalize := by
  induction items with
  | nil => rfl
  | cons v rest ih => rw [normalizeItems, ih, List.map_cons]

theorem normalizeFields_eq_map (fields : Fields) :
    normalizeFields fields = fields.map fun f => (f.1, f.2.normalize) := by
  induction fields with
  | nil => rfl
  | cons f rest ih => rw [normalizeFields, ih, List.map_cons]

/-- **What is in normal form stays as it is.** -/
theorem normalize_of_normal {v : Value} (h : v.Normal) : v.normalize = v := by
  induction h with
  | null => rfl
  | boolean b => rfl
  | number n => rfl
  | string s => rfl
  | @array items _ ih =>
    rw [normalize, normalizeItems_eq_map, List.map_congr_left ih, List.map_id']
  | @object fields hascending _ ih =>
    have hfields : ∀ f ∈ fields, (f.1, f.2.normalize) = f := fun f hf => by rw [ih f hf]
    rw [normalize, normalizeFields_eq_map, List.map_congr_left hfields, List.map_id',
      hascending.sort_eq]

mutual

/-- **Putting a value into normal form** gives one in normal form. -/
theorem normal_normalize : ∀ v : Value, v.normalize.Normal
  | .null => .null
  | .boolean b => .boolean b
  | .number n => .number n
  | .string s => .string s
  | .array items => .array (normal_normalizeItems items)
  | .object fields =>
    .object (Fields.ascending_sort _) fun f hf =>
      normal_normalizeFields fields f (Fields.mem_of_mem_sort hf)

theorem normal_normalizeItems : ∀ items : List Value, ∀ v ∈ normalizeItems items, v.Normal
  | [], _, h => nomatch h
  | v :: rest, w, h => by
    rcases List.mem_cons.1 h with rfl | h
    · exact normal_normalize v
    · exact normal_normalizeItems rest w h

theorem normal_normalizeFields : ∀ fields : Fields, ∀ f ∈ normalizeFields fields, f.2.Normal
  | [], _, h => nomatch h
  | (name, v) :: rest, f, h => by
    rcases List.mem_cons.1 h with rfl | h
    · exact normal_normalize v
    · exact normal_normalizeFields rest f h

end

end Value

end ObjectQuery
