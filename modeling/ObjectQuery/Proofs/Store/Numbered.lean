import ObjectQuery.Store.Basic

/-!
# Numbered entries and reachable stores

The entries of a store are told apart by their numbers alone: `Numbered` lists ascend by
number, so that no number occurs twice. Every store that is grown from the empty one by
adding objects, adding versions and indexing targets (`Store.Reachable`) lists its
entries so, and its index ascends as well (`Store.Reachable.wellNumbered`).

In such a store the entries that `Store.get` lists, which are found by going through the
index, are the stored entries that are indexed and covered, in the order in which they
are stored (`Store.WellNumbered.get_eq`).
-/

namespace ObjectQuery

/-! ### Entries that ascend by number -/

/-- Entries that ascend by their numbers. -/
def Numbered (entries : List Entry) : Prop :=
  entries.Pairwise fun e e' => e.id < e'.id

namespace Numbered

variable {entries : List Entry}

/-- In a numbered list a number belongs to one entry only. -/
theorem eq_of_id_eq (h : Numbered entries) {e e' : Entry} (he : e ∈ entries)
    (he' : e' ∈ entries) (hid : e.id = e'.id) : e = e' := by
  induction entries with
  | nil => simp at he
  | cons first rest ih =>
    have hcons := List.pairwise_cons.1 h
    rcases List.mem_cons.1 he with rfl | hrest
    · rcases List.mem_cons.1 he' with rfl | hrest'
      · rfl
      · exact absurd (hcons.1 e' hrest') (by omega)
    · rcases List.mem_cons.1 he' with rfl | hrest'
      · exact absurd (hcons.1 e hrest) (by omega)
      · exact ih hcons.2 hrest hrest'

theorem filter (h : Numbered entries) (p : Entry → Bool) : Numbered (entries.filter p) :=
  List.Pairwise.filter p h

theorem nodup (h : Numbered entries) : entries.Nodup :=
  List.Pairwise.imp (fun hlt heq => absurd (congrArg Entry.id heq) (by omega)) h

/-- Numbered lists with the same entries are equal. -/
theorem eq_of_mem_iff {entries' : List Entry} (h : Numbered entries) (h' : Numbered entries')
    (hmem : ∀ e, e ∈ entries ↔ e ∈ entries') : entries = entries' := by
  have hperm : entries.Perm entries' :=
    (List.perm_ext_iff_of_nodup h.nodup h'.nodup).2 hmem
  exact hperm.eq_of_pairwise (fun e e' _ _ hlt hgt => absurd hlt (by omega)) h h'

end Numbered

/-- All strategies but one index what they are asked to. -/
theorem Strategy.fetches_eq_true {strategy : Strategy} :
    strategy.fetches = true ↔ strategy ≠ .onDemand := by
  cases strategy <;> simp [fetches]

/-! ### Reachable stores -/

namespace Store

/-- The stored entries, in the order in which they were added. -/
def entries (s : Store) : List Entry :=
  s.objects.map (·.entry)

/-- The stores that are grown from the empty one. -/
inductive Reachable : Store → Prop
  | empty : Reachable {}
  | add {s : Store} (uri schema type : String) (object : Value) :
    Reachable s → Reachable (s.add uri schema type object)
  | addVersion {s s' : Store} (id : Nat) (object : Value) :
    Reachable s → s.addVersion id object = .ok s' → Reachable s'
  | refresh {s : Store} (strategy : Strategy) (t : Target) :
    Reachable s → Reachable (s.refresh strategy t).2

/-- The numbering that growing a store keeps up: entries ascend by number, no number is
greater than the count of the entries, and the index ascends. -/
structure WellNumbered (s : Store) : Prop where
  numbered : Numbered s.entries
  id_le : ∀ e ∈ s.entries, e.id ≤ s.objects.length
  indexed : s.indexed.Pairwise (· < ·)

/-! ### Finding and listing -/

/-- What is found under a number is a stored object of that number. -/
theorem find?_eq_some {s : Store} {id : Nat} {o : StoredObject} (h : s.find? id = some o) :
    o ∈ s.objects ∧ o.entry.id = id := by
  have hid := List.find?_some h
  exact ⟨List.mem_of_find?_eq_some h, by simpa using hid⟩

/-- Objects that stand behind the others are found under no number of these. -/
theorem find?_of_isPrefix {s s' : Store} (h : s.objects <+: s'.objects) {e : Entry}
    (he : e ∈ s.entries) : s'.find? e.id = s.find? e.id := by
  obtain ⟨added, happend⟩ := h
  obtain ⟨o, ho, rfl⟩ := List.mem_map.1 he
  rw [find?, find?, ← happend, List.find?_append]
  cases hf : s.objects.find? fun o' => o'.entry.id == o.entry.id with
  | none => exact absurd (List.find?_eq_none.1 hf o ho) (by simp)
  | some o' => rfl

/-- Every stored entry is found under its number. -/
theorem WellNumbered.find?_entry {s : Store} (h : s.WellNumbered) {e : Entry}
    (he : e ∈ s.entries) : (s.find? e.id).map (·.entry) = some e := by
  cases hf : s.find? e.id with
  | none =>
    obtain ⟨o, ho, rfl⟩ := List.mem_map.1 he
    exact absurd (List.find?_eq_none.1 hf o ho) (by simp)
  | some o =>
    obtain ⟨ho, hid⟩ := find?_eq_some hf
    exact congrArg some (h.numbered.eq_of_id_eq (List.mem_map_of_mem ho) he hid)

/-- The entries behind the numbers of an index. -/
theorem WellNumbered.mem_listed {s : Store} (h : s.WellNumbered) {ids : List Nat} {e : Entry} :
    e ∈ ids.filterMap (fun id => (s.find? id).map (·.entry)) ↔ e ∈ s.entries ∧ e.id ∈ ids := by
  rw [List.mem_filterMap]
  constructor
  · rintro ⟨id, hid, hf⟩
    obtain ⟨o, ho, rfl⟩ := Option.map_eq_some_iff.1 hf
    obtain ⟨hmem, rfl⟩ := find?_eq_some ho
    exact ⟨List.mem_map_of_mem hmem, hid⟩
  · rintro ⟨he, hid⟩
    exact ⟨e.id, hid, h.find?_entry he⟩

theorem numbered_listed {s : Store} {ids : List Nat} (hids : ids.Pairwise (· < ·)) :
    Numbered (ids.filterMap fun id => (s.find? id).map (·.entry)) := by
  refine List.Pairwise.filterMap _ (fun id id' hlt e he e' he' => ?_) hids
  obtain ⟨o, ho, rfl⟩ := Option.map_eq_some_iff.1 he
  obtain ⟨o', ho', rfl⟩ := Option.map_eq_some_iff.1 he'
  rw [(find?_eq_some ho).2, (find?_eq_some ho').2]
  exact hlt

/-- **What a store lists**: the stored entries that are indexed and covered, in the order
in which they are stored. -/
theorem WellNumbered.get_eq {s : Store} (h : s.WellNumbered) (t : Target) :
    s.get t = s.entries.filter fun e => s.indexed.contains e.id && t.covers e := by
  -- both sides ascend and have the same entries
  have hlisted : s.indexed.filterMap (fun id => (s.find? id).map (·.entry)) =
      s.entries.filter fun e => s.indexed.contains e.id := by
    refine (numbered_listed h.indexed).eq_of_mem_iff (h.numbered.filter _) fun e => ?_
    rw [h.mem_listed, List.mem_filter, List.contains_iff_mem]
  rw [get, hlisted, List.filter_filter]
  simp only [Bool.and_comm]

theorem WellNumbered.get_subset {s : Store} (h : s.WellNumbered) (t : Target) {e : Entry}
    (he : e ∈ s.get t) : e ∈ s.entries := by
  rw [h.get_eq] at he
  exact (List.mem_filter.1 he).1

theorem WellNumbered.numbered_get {s : Store} (h : s.WellNumbered) (t : Target) :
    Numbered (s.get t) := by
  rw [h.get_eq]
  exact h.numbered.filter _

/-! ### Growing -/

@[simp] theorem entries_add (s : Store) (uri schema type : String) (object : Value) :
    (s.add uri schema type object).entries = s.entries ++ [s.nextEntry uri schema type] := by
  simp [entries, add]

theorem entries_addVersion {s s' : Store} {id : Nat} {object : Value}
    (h : s.addVersion id object = .ok s') : s'.entries = s.entries := by
  rw [addVersion] at h
  split at h
  · simp at h
  · cases h
    simp only [entries, List.map_map]
    refine List.map_congr_left fun o _ => ?_
    simp only [Function.comp_apply]
    split <;> rfl

theorem indexed_addVersion {s s' : Store} {id : Nat} {object : Value}
    (h : s.addVersion id object = .ok s') : s'.indexed = s.indexed := by
  rw [addVersion] at h
  split at h
  · simp at h
  · cases h
    rfl

@[simp] theorem objects_refresh (s : Store) (strategy : Strategy) (t : Target) :
    (s.refresh strategy t).2.objects = s.objects := by
  rw [refresh]
  split <;> rfl

@[simp] theorem entries_refresh (s : Store) (strategy : Strategy) (t : Target) :
    (s.refresh strategy t).2.entries = s.entries := by
  rw [entries, entries, objects_refresh]

/-! ### Indexing -/

@[simp] theorem mem_insertId {id n : Nat} {ids : List Nat} :
    n ∈ insertId id ids ↔ n = id ∨ n ∈ ids := by
  induction ids with
  | nil => simp [insertId]
  | cons first rest ih =>
    rw [insertId]
    split
    · simp
    · split
      · next h => simp [h]
      · rw [List.mem_cons, ih, List.mem_cons]
        exact or_left_comm

theorem pairwise_insertId {id : Nat} {ids : List Nat} (h : ids.Pairwise (· < ·)) :
    (insertId id ids).Pairwise (· < ·) := by
  induction ids with
  | nil => simp [insertId]
  | cons first rest ih =>
    have hcons := List.pairwise_cons.1 h
    rw [insertId]
    split
    · next hlt =>
      refine List.pairwise_cons.2 ⟨fun n hn => ?_, h⟩
      rcases List.mem_cons.1 hn with rfl | hn
      · exact hlt
      · exact Nat.lt_trans hlt (hcons.1 n hn)
    · split
      · exact h
      · refine List.pairwise_cons.2 ⟨fun n hn => ?_, ih hcons.2⟩
        rcases mem_insertId.1 hn with rfl | hn
        · omega
        · exact hcons.1 n hn

/-- Indexing entries one by one indexes exactly these besides those indexed before. -/
theorem mem_foldl_insertId {n : Nat} {es : List Entry} {ids : List Nat} :
    n ∈ es.foldl (fun ids e => insertId e.id ids) ids ↔ n ∈ ids ∨ ∃ e ∈ es, e.id = n := by
  induction es generalizing ids with
  | nil => simp
  | cons e es ih =>
    rw [List.foldl_cons, ih, mem_insertId]
    simp only [List.mem_cons, exists_eq_or_imp]
    constructor
    · rintro ((h | h) | h)
      · exact .inr (.inl h.symm)
      · exact .inl h
      · exact .inr (.inr h)
    · rintro (h | h | h)
      · exact .inl (.inr h)
      · exact .inl (.inl h.symm)
      · exact .inr h

theorem pairwise_foldl_insertId {es : List Entry} {ids : List Nat} (h : ids.Pairwise (· < ·)) :
    (es.foldl (fun ids e => insertId e.id ids) ids).Pairwise (· < ·) := by
  induction es generalizing ids with
  | nil => exact h
  | cons e es ih => exact ih (pairwise_insertId h)

theorem pairwise_indexed_refresh {s : Store} (h : s.indexed.Pairwise (· < ·))
    (strategy : Strategy) (t : Target) :
    (s.refresh strategy t).2.indexed.Pairwise (· < ·) := by
  rw [refresh]
  split
  · exact pairwise_foldl_insertId h
  · exact h

/-- **What indexing a target indexes**: a stored entry is indexed afterwards if it was
before, or if it is covered and the strategy fetches. -/
theorem mem_indexed_refresh {s : Store} (h : Numbered s.entries) {e : Entry}
    (he : e ∈ s.entries) (strategy : Strategy) (t : Target) :
    e.id ∈ (s.refresh strategy t).2.indexed ↔
      e.id ∈ s.indexed ∨ (strategy.fetches = true ∧ t.covers e = true) := by
  rw [refresh]
  split
  · next hf =>
    simp only [hf, true_and, mem_foldl_insertId, covered, List.mem_filter]
    refine or_congr Iff.rfl ⟨?_, fun hc => ⟨e, ⟨he, hc⟩, rfl⟩⟩
    -- the entry that was indexed under this number can be no other
    rintro ⟨e', ⟨he', hc⟩, hid⟩
    rwa [← h.eq_of_id_eq he' he hid]
  · next hf => simp [hf]

/-! ### Every reachable store is well numbered -/

theorem WellNumbered.add {s : Store} (h : s.WellNumbered) (uri schema type : String)
    (object : Value) : (s.add uri schema type object).WellNumbered := by
  have hlen : (s.add uri schema type object).objects.length = s.objects.length + 1 := by
    simp [Store.add]
  refine ⟨?_, ?_, h.indexed⟩
  · rw [entries_add]
    refine List.pairwise_append.2 ⟨h.numbered, List.pairwise_singleton _ _, fun e he e' he' => ?_⟩
    rw [List.mem_singleton] at he'
    subst he'
    exact Nat.lt_succ_of_le (h.id_le e he)
  · rw [entries_add, hlen]
    intro e he
    rcases List.mem_append.1 he with he | he
    · exact Nat.le_succ_of_le (h.id_le e he)
    · rw [List.mem_singleton] at he
      subst he
      exact Nat.le_refl _

theorem WellNumbered.addVersion {s s' : Store} (h : s.WellNumbered) {id : Nat} {object : Value}
    (hs : s.addVersion id object = .ok s') : s'.WellNumbered := by
  have hentries := entries_addVersion hs
  have hlen : s'.objects.length = s.objects.length := by
    have := congrArg List.length hentries
    simpa [entries] using this
  refine ⟨?_, ?_, ?_⟩
  · rw [hentries]
    exact h.numbered
  · rw [hentries, hlen]
    exact h.id_le
  · rw [indexed_addVersion hs]
    exact h.indexed

theorem WellNumbered.refresh {s : Store} (h : s.WellNumbered) (strategy : Strategy) (t : Target) :
    (s.refresh strategy t).2.WellNumbered := by
  refine ⟨?_, ?_, pairwise_indexed_refresh h.indexed strategy t⟩
  · rw [entries_refresh]
    exact h.numbered
  · rw [entries_refresh, objects_refresh]
    exact h.id_le

theorem Reachable.wellNumbered {s : Store} (h : s.Reachable) : s.WellNumbered := by
  induction h with
  | empty => exact ⟨.nil, by simp [entries], .nil⟩
  | add uri schema type object _ ih => exact ih.add uri schema type object
  | addVersion id object _ hs ih => exact ih.addVersion hs
  | refresh strategy t _ ih => exact ih.refresh strategy t

end Store

end ObjectQuery
