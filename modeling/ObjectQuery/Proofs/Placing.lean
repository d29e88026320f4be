import Mathlib.Tactic.SplitIfs

/-!
# Things in the order of a key

The fields of an object, the cells of a row, the rows of a result and the names of a set are kept
in ascending order of a key, and each new one is put in its place there, where one of the same key
gives way. This is one function (`Placing.place`): it leaves things in ascending order
(`Placing.Ascends.place`), and a thing that is greater than all that are there is put in behind
them, so that things which ascend are put in as they come (`Placing.placeAll_of_ascends`).
-/

namespace ObjectQuery.Placing

variable {α κ : Type} {key : α → κ} {x z : α} {xs kept : List α}

section

variable [LT κ]

/-- Things ascend by a key. -/
def Ascends (key : α → κ) (xs : List α) : Prop :=
  xs.Pairwise fun x y => key x < key y

variable [DecidableLT κ] [DecidableEq κ]

/-- Puts a thing in its place among things that ascend by a key; one of the same key gives way. -/
def place (key : α → κ) (x : α) : List α → List α
  | [] => [x]
  | y :: rest =>
    if key x < key y then x :: y :: rest
    else if key x = key y then x :: rest
    else y :: place key x rest

/-- Puts things in their places, one after another. -/
def placeAll (key : α → κ) (kept xs : List α) : List α :=
  xs.foldl (fun kept x => place key x kept) kept

/-- Nothing is there but what was there or has been put in. -/
theorem mem_place (h : z ∈ place key x kept) : z = x ∨ z ∈ kept := by
  induction kept with
  | nil => exact .inl (List.mem_singleton.1 h)
  | cons first rest ih =>
    rw [place] at h
    split_ifs at h
    · exact List.mem_cons.1 h
    · exact (List.mem_cons.1 h).imp_right (List.mem_cons_of_mem _)
    · rcases List.mem_cons.1 h with rfl | h
      · exact .inr List.mem_cons_self
      · exact (ih h).imp_right (List.mem_cons_of_mem _)

theorem mem_placeAll (h : z ∈ placeAll key kept xs) : z ∈ kept ∨ z ∈ xs := by
  induction xs generalizing kept with
  | nil => exact .inl h
  | cons x rest ih =>
    rcases ih h with h | h
    · rcases mem_place h with rfl | h
      · exact .inr List.mem_cons_self
      · exact .inl h
    · exact .inr (List.mem_cons_of_mem _ h)

end

section

variable [LE κ] [LT κ] [DecidableLT κ] [DecidableEq κ] [Std.IsLinearOrder κ]
  [Std.LawfulOrderLT κ]

/-- **Things still ascend** once another one has been put in its place. -/
theorem Ascends.place (h : Ascends key kept) (x : α) : Ascends key (place key x kept) := by
  induction kept with
  | nil => exact List.pairwise_singleton _ _
  | cons first rest ih =>
    obtain ⟨hfirst, hrest⟩ := List.pairwise_cons.1 h
    rw [Placing.place]
    split_ifs with hlt heq
    · refine List.pairwise_cons.2 ⟨fun z hz => ?_, h⟩
      rcases List.mem_cons.1 hz with rfl | hz
      · exact hlt
      · exact Std.lt_trans hlt (hfirst z hz)
    · exact List.pairwise_cons.2 ⟨fun z hz => heq ▸ hfirst z hz, hrest⟩
    · refine List.pairwise_cons.2 ⟨fun z hz => ?_, ih hrest⟩
      rcases mem_place hz with rfl | hz
      · exact Std.lt_of_le_of_ne (Std.not_lt.1 hlt) (Ne.symm heq)
      · exact hfirst z hz

theorem Ascends.placeAll (h : Ascends key kept) (xs : List α) :
    Ascends key (placeAll key kept xs) := by
  induction xs generalizing kept with
  | nil => exact h
  | cons x rest ih => exact ih (h.place x)

/-- A thing that is greater than all that are there is put in behind them. -/
theorem place_of_lt (h : ∀ y ∈ kept, key y < key x) : place key x kept = kept ++ [x] := by
  induction kept with
  | nil => rfl
  | cons first rest ih =>
    have hfirst : key first < key x := h first List.mem_cons_self
    have hge : ¬key x < key first := Std.not_lt.2 (Std.le_of_lt hfirst)
    have hne : key x ≠ key first := fun heq => Std.lt_irrefl (heq ▸ hfirst)
    rw [place, if_neg hge, if_neg hne, ih fun y hy => h y (List.mem_cons_of_mem _ hy),
      List.cons_append]

/-- **Things that ascend are put in as they come.** -/
theorem placeAll_of_ascends (h : Ascends key (kept ++ xs)) : placeAll key kept xs = kept ++ xs := by
  induction xs generalizing kept with
  | nil => exact (List.append_nil _).symm
  | cons x rest ih =>
    have hlast : ∀ y ∈ kept, key y < key x := fun y hy =>
      (List.pairwise_append.1 h).2.2 y hy x List.mem_cons_self
    have hrest : Ascends key (kept ++ [x] ++ rest) := by
      rwa [List.append_assoc]
    rw [placeAll, List.foldl_cons, place_of_lt hlast, ← placeAll, ih hrest, List.append_assoc,
      List.singleton_append]

end

end ObjectQuery.Placing
