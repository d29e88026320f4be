import ObjectQuery.Proofs.Store.NameSet
import ObjectQuery.Proofs.Store.Numbered

/-!
# How a store grows

A store is grown in steps: objects are added, gain versions, and targets are indexed. Two
things are kept in it, the stored objects and the indexed numbers, and a third one is worked
out: the next entry is numbered by how many objects there are. They have to go together, and
they do after all steps (`StoreStep.takeAll_consistent`): the entries are those that were
added, numbered from one in this order (`StoreStep.entries_takeAll`), every indexed number is
that of one of them (`Store.Reachable.exists_of_mem_indexed`), and no number leaves the index
(`StoreStep.indexed_takeAll_subset`).

What each operation then does is said by a structure of its own: `Store.ListsExactly` for
listing a target, `Store.Indexes` for indexing one, and `Store.Gains` for adding a version.
Counting the entries of a target goes through the objects, and listing them through the
index; that they agree is the point of `Store.WellNumbered.indexes_refresh`.
-/

namespace ObjectQuery

/-- A target is about an entry: its schema and its type are among those named, where any are
named. -/
def Target.IsAbout (t : Target) (e : Entry) : Prop :=
  (t.schemas = .empty ∨ e.schema ∈ t.schemas.toList) ∧
    (t.types = .empty ∨ e.type ∈ t.types.toList)

theorem Target.covers_iff {t : Target} {e : Entry} : t.covers e = true ↔ t.IsAbout e := by
  rw [covers, Bool.and_eq_true, Bool.or_eq_true, Bool.or_eq_true, NameSet.isEmpty_iff,
    NameSet.isEmpty_iff, NameSet.contains_iff, NameSet.contains_iff, IsAbout]

namespace Store

/-! ### What operations do -/

/-- Entries are what a store lists of a target: those that are indexed and that the target is
about, ascending by number. -/
structure ListsExactly (s : Store) (t : Target) (listed : List Entry) : Prop where
  ascending : listed.Pairwise fun e e' => e.id < e'.id
  mem_iff : ∀ e, e ∈ listed ↔ e ∈ s.entries ∧ e.id ∈ s.indexed ∧ t.IsAbout e

/-- A store comes of another one by indexing a target with a count. -/
structure Indexes (s : Store) (t : Target) (count : Nat) (s' : Store) : Prop where
  /-- The count is that of the entries which are listed from then on. -/
  count_listed : count = (s'.get t).length
  /-- It is that of all stored entries of the target, too. -/
  count_stored : count = s.entries.countP t.covers
  objects_eq : s'.objects = s.objects
  indexed_subset : s.indexed ⊆ s'.indexed
  /-- What is new in the index is of the target. -/
  isAbout_of_new : ∀ id ∈ s'.indexed, id ∉ s.indexed → ∃ e ∈ s.entries, e.id = id ∧ t.IsAbout e

/-- A store comes of another one by adding a version to the object of a number. -/
structure Gains (s : Store) (id : Nat) (object : Value) (s' : Store) : Prop where
  entries_eq : s'.entries = s.entries
  indexed_eq : s'.indexed = s.indexed
  /-- The versions of the object go on with the new one, and those of others stay. -/
  versions_eq : ∀ e, s'.versions e =
    if e.id = id then (s.versions e).map (· ++ [object]) else s.versions e

/-! ### Listing and indexing -/

theorem WellNumbered.listsExactly_get {s : Store} (h : s.WellNumbered) (t : Target) :
    s.ListsExactly t (s.get t) := by
  refine ⟨h.numbered_get t, fun e => ?_⟩
  rw [h.get_eq, List.mem_filter, Bool.and_eq_true, List.contains_iff_mem, Target.covers_iff]

/-- A number that is there is not put in again. -/
theorem insertId_of_mem {id : Nat} {ids : List Nat} (h : ids.Pairwise (· < ·)) (hid : id ∈ ids) :
    insertId id ids = ids := by
  induction ids with
  | nil => cases hid
  | cons first rest ih =>
    have hcons := List.pairwise_cons.1 h
    rw [insertId]
    rcases List.mem_cons.1 hid with rfl | hrest
    · rw [if_neg (Nat.lt_irrefl _), if_pos rfl]
    · have hlt : first < id := hcons.1 id hrest
      rw [if_neg (by omega), if_neg (by omega), ih hcons.2 hrest]

theorem foldl_insertId_of_subset {es : List Entry} {ids : List Nat} (h : ids.Pairwise (· < ·))
    (hes : ∀ e ∈ es, e.id ∈ ids) : es.foldl (fun ids e => insertId e.id ids) ids = ids := by
  induction es with
  | nil => rfl
  | cons e rest ih =>
    rw [List.foldl_cons, insertId_of_mem h (hes e List.mem_cons_self)]
    exact ih fun e' he' => hes e' (List.mem_cons_of_mem _ he')

theorem mem_covered {s : Store} {t : Target} {e : Entry} :
    e ∈ s.covered t ↔ e ∈ s.entries ∧ t.covers e = true :=
  List.mem_filter

theorem covered_refresh (s : Store) (strategy : Strategy) (t t' : Target) :
    (s.refresh strategy t).2.covered t' = s.covered t' := by
  rw [covered, covered, objects_refresh]

theorem refresh_of_fetches {strategy : Strategy} (h : strategy.fetches = true) (s : Store)
    (t : Target) :
    s.refresh strategy t = ((s.covered t).length,
      { s with indexed := (s.covered t).foldl (fun ids e => insertId e.id ids) s.indexed }) := by
  rw [refresh, if_pos h]

theorem indexed_subset_refresh (s : Store) (strategy : Strategy) (t : Target) :
    s.indexed ⊆ (s.refresh strategy t).2.indexed := by
  intro id hid
  rw [refresh]
  split
  · exact mem_foldl_insertId.2 (.inl hid)
  · exact hid

/-- Every number that indexing puts in is that of an entry of the target. -/
theorem mem_indexed_or_of_refresh {s : Store} {strategy : Strategy} {t : Target} {id : Nat}
    (h : id ∈ (s.refresh strategy t).2.indexed) :
    id ∈ s.indexed ∨ ∃ e ∈ s.entries, e.id = id ∧ t.covers e = true := by
  rw [refresh] at h
  split at h
  · refine (mem_foldl_insertId.1 h).imp_right ?_
    rintro ⟨e, he, hid⟩
    exact ⟨e, (mem_covered.1 he).1, hid, (mem_covered.1 he).2⟩
  · exact .inl h

/-- **Indexing a target**: what is counted are the stored entries of the target, and all of
them are listed afterwards. -/
theorem WellNumbered.indexes_refresh {s : Store} (h : s.WellNumbered) {strategy : Strategy}
    (hfetches : strategy.fetches = true) (t : Target) :
    s.Indexes t (s.refresh strategy t).1 (s.refresh strategy t).2 := by
  have hcount : (s.refresh strategy t).1 = (s.entries.filter t.covers).length := by
    rw [refresh_of_fetches hfetches]
    rfl
  have hlisted : (s.refresh strategy t).2.get t = s.entries.filter t.covers := by
    rw [(h.refresh strategy t).get_eq, entries_refresh]
    refine List.filter_congr fun e he => ?_
    -- an entry of the target is indexed by now
    have hindexed : e.id ∈ (s.refresh strategy t).2.indexed ↔
        e.id ∈ s.indexed ∨ t.covers e = true := by
      rw [mem_indexed_refresh h.numbered he, hfetches]
      simp only [true_and]
    rw [Bool.eq_iff_iff, Bool.and_eq_true, List.contains_iff_mem, hindexed]
    exact and_iff_right_of_imp .inr
  refine ⟨by rw [hlisted, hcount], by rw [hcount, List.countP_eq_length_filter],
    objects_refresh s strategy t, indexed_subset_refresh s strategy t, fun id hid hnew => ?_⟩
  obtain ⟨e, he, rfl, hcovers⟩ := (mem_indexed_or_of_refresh hid).resolve_left hnew
  exact ⟨e, he, rfl, Target.covers_iff.1 hcovers⟩

/-- **Indexing a target again** changes nothing and counts the same. -/
theorem WellNumbered.refresh_refresh {s : Store} (h : s.WellNumbered) {strategy : Strategy}
    (hfetches : strategy.fetches = true) (t : Target) :
    (s.refresh strategy t).2.refresh strategy t = s.refresh strategy t := by
  have hindexed : ∀ e ∈ s.covered t, e.id ∈ (s.refresh strategy t).2.indexed := fun e he =>
    (mem_indexed_refresh h.numbered (mem_covered.1 he).1 strategy t).2
      (.inr ⟨hfetches, (mem_covered.1 he).2⟩)
  have hsame := foldl_insertId_of_subset (h.refresh strategy t).indexed hindexed
  rw [refresh_of_fetches hfetches (s.refresh strategy t).2, covered_refresh, hsame,
    refresh_of_fetches hfetches s]

/-! ### Adding a version -/

/-- No object is found under a number that no entry has. -/
theorem find?_eq_none_iff {s : Store} {id : Nat} :
    s.find? id = none ↔ ¬∃ e ∈ s.entries, e.id = id := by
  simp only [find?, List.find?_eq_none, entries, not_exists, not_and, beq_iff_eq,
    List.forall_mem_map]

theorem addVersion_of_unknown {s : Store} {id : Nat} (h : ¬∃ e ∈ s.entries, e.id = id)
    (object : Value) : s.addVersion id object = .error (unknownEntry id) := by
  rw [addVersion, find?_eq_none_iff.2 h]

/-- The object of a number after one of them has gained a version. -/
theorem find?_addVersion {s s' : Store} {id : Nat} {object : Value}
    (h : s.addVersion id object = .ok s') (n : Nat) :
    s'.find? n = (s.find? n).map fun o =>
      if o.entry.id == id then { o with versions := o.versions ++ [object] } else o := by
  rw [addVersion] at h
  split at h
  · cases h
  · cases h
    rw [find?, find?, List.find?_map]
    refine congrArg (Option.map _) (congrArg (List.find? · s.objects) (funext fun o => ?_))
    -- the entry of an object stays what it is
    rw [Function.comp_apply]
    split <;> rfl

/-- **Adding a version** to a stored object. -/
theorem exists_gains {s : Store} {id : Nat} (h : ∃ e ∈ s.entries, e.id = id) (object : Value) :
    ∃ s', s.addVersion id object = .ok s' ∧ s.Gains id object s' := by
  have hfound : s.find? id ≠ none := fun hnone => find?_eq_none_iff.1 hnone h
  obtain ⟨s', hs'⟩ : ∃ s', s.addVersion id object = .ok s' := by
    rw [addVersion]
    cases hfind : s.find? id with
    | none => exact absurd hfind hfound
    | some o => exact ⟨_, rfl⟩
  refine ⟨s', hs', entries_addVersion hs', indexed_addVersion hs', fun e => ?_⟩
  rw [versions, versions, find?_addVersion hs']
  cases hfind : s.find? e.id with
  | none => exact (ite_self _).symm
  | some o =>
    simp only [Option.map_some, (find?_eq_some hfind).2, beq_iff_eq]
    split <;> rfl

/-! ### Reachable stores -/

theorem Reachable.exists_of_mem_indexed {s : Store} (h : s.Reachable) {id : Nat}
    (hid : id ∈ s.indexed) : ∃ e ∈ s.entries, e.id = id := by
  induction h with
  | empty => cases hid
  | @add s uri schema type object _ ih =>
    obtain ⟨e, he, heq⟩ := ih hid
    rw [entries_add]
    exact ⟨e, List.mem_append_left _ he, heq⟩
  | addVersion _ _ _ hs ih =>
    rw [indexed_addVersion hs] at hid
    rw [entries_addVersion hs]
    exact ih hid
  | refresh strategy t _ ih =>
    rw [entries_refresh]
    rcases mem_indexed_or_of_refresh hid with hid | ⟨e, he, heq, -⟩
    · exact ih hid
    · exact ⟨e, he, heq⟩

end Store

/-! ### Steps -/

/-- A step in which a store grows. -/
inductive StoreStep where
  | add (uri schema type : String) (object : Value)
  | addVersion (id : Nat) (object : Value)
  | refresh (strategy : Strategy) (t : Target)

namespace StoreStep

/-- Takes a step. A version for which there is no object changes nothing. -/
def take (s : Store) : StoreStep → Store
  | .add uri schema type object => s.add uri schema type object
  | .addVersion id object =>
    match s.addVersion id object with
    | .ok s' => s'
    | .error _ => s
  | .refresh strategy t => (s.refresh strategy t).2

/-- Takes steps one after another. -/
def takeAll (s : Store) (steps : List StoreStep) : Store :=
  steps.foldl take s

/-- The entry that a step adds under a number. -/
def entry? (id : Nat) : StoreStep → Option Entry
  | .add uri schema type _ => some ⟨id, uri, schema, type⟩
  | .addVersion _ _ => none
  | .refresh _ _ => none

/-- The entries that steps add, in their order, numbered from a number on. -/
def entriesFrom (id : Nat) : List StoreStep → List Entry
  | [] => []
  | step :: rest =>
    match step.entry? id with
    | some e => e :: entriesFrom (id + 1) rest
    | none => entriesFrom id rest

/-- Entries that are numbered from a number on have the numbers from there on. -/
theorem ids_entriesFrom (id : Nat) (steps : List StoreStep) :
    (entriesFrom id steps).map (·.id) = List.range' id (entriesFrom id steps).length := by
  induction steps generalizing id with
  | nil => rfl
  | cons step rest ih =>
    cases step with
    | add uri schema type object => exact congrArg (List.cons id) (ih (id + 1))
    | addVersion _ _ => exact ih id
    | refresh _ _ => exact ih id

/-- A step adds the entry that it says, and no other. -/
theorem entries_take (s : Store) (step : StoreStep) :
    (step.take s).entries = s.entries ++ (step.entry? (s.entries.length + 1)).toList := by
  cases step with
  | add uri schema type object =>
    rw [take, Store.entries_add, Store.nextEntry, Store.entries, List.length_map]
    rfl
  | addVersion id object =>
    rw [take, entry?, Option.toList_none, List.append_nil]
    split
    · next h => exact Store.entries_addVersion h
    · rfl
  | refresh strategy t =>
    rw [take, entry?, Option.toList_none, List.append_nil, Store.entries_refresh]

/-- **The stored entries are those that were added**, numbered in this order. -/
theorem entries_takeAll (s : Store) (steps : List StoreStep) :
    (takeAll s steps).entries = s.entries ++ entriesFrom (s.entries.length + 1) steps := by
  induction steps generalizing s with
  | nil => exact (List.append_nil _).symm
  | cons step rest ih =>
    refine (ih (step.take s)).trans ?_
    rw [entries_take, entriesFrom]
    cases step.entry? (s.entries.length + 1) with
    | none => rw [Option.toList_none, List.append_nil]
    | some e =>
      rw [Option.toList_some, List.length_append, List.length_singleton, List.append_assoc,
        List.singleton_append]

theorem reachable_take {s : Store} (h : s.Reachable) (step : StoreStep) :
    (step.take s).Reachable := by
  cases step with
  | add uri schema type object => exact h.add uri schema type object
  | addVersion id object =>
    rw [take]
    split
    · next hs => exact h.addVersion id object hs
    · exact h
  | refresh strategy t => exact h.refresh strategy t

theorem reachable_takeAll {s : Store} (h : s.Reachable) (steps : List StoreStep) :
    (takeAll s steps).Reachable := by
  induction steps generalizing s with
  | nil => exact h
  | cons step rest ih => exact ih (reachable_take h step)

theorem indexed_take_subset (s : Store) (step : StoreStep) : s.indexed ⊆ (step.take s).indexed := by
  cases step with
  | add uri schema type object => exact List.Subset.refl _
  | addVersion id object =>
    rw [take]
    split
    · next h => rw [Store.indexed_addVersion h]; exact List.Subset.refl _
    · exact List.Subset.refl _
  | refresh strategy t => exact Store.indexed_subset_refresh s strategy t

/-- Nothing ever leaves the index. -/
theorem indexed_takeAll_subset (s : Store) (steps : List StoreStep) :
    s.indexed ⊆ (takeAll s steps).indexed := by
  induction steps generalizing s with
  | nil => exact List.Subset.refl _
  | cons step rest ih => exact List.Subset.trans (indexed_take_subset s step) (ih (step.take s))

/-- **A store is consistent after all steps.** Its entries are those that were added, with the
numbers from one on; every indexed number is that of an entry, and stays; what is listed is
what is indexed and asked for. Indexing a target counts its entries and indexes no other, and
doing so again changes nothing; on demand nothing is done. A version goes to the object of its
number only, and to none if there is no such object. -/
theorem takeAll_consistent (steps : List StoreStep) :
    let s := takeAll {} steps
    s.entries = entriesFrom 1 steps ∧
    s.entries.map (·.id) = List.range' 1 s.entries.length ∧
    (∀ id ∈ s.indexed, ∃ e ∈ s.entries, e.id = id) ∧
    (∀ later, s.indexed ⊆ (takeAll {} (steps ++ later)).indexed) ∧
    (∀ t, s.ListsExactly t (s.get t)) ∧
    (∀ strategy t, strategy ≠ .onDemand →
      s.Indexes t (s.refresh strategy t).1 (s.refresh strategy t).2 ∧
        (s.refresh strategy t).2.refresh strategy t = s.refresh strategy t) ∧
    (∀ t, s.refresh .onDemand t = (0, s)) ∧
    (∀ id object, (¬∃ e ∈ s.entries, e.id = id) →
      s.addVersion id object = .error (Store.unknownEntry id) ∧
        take s (.addVersion id object) = s) ∧
    ∀ id object, (∃ e ∈ s.entries, e.id = id) →
      ∃ s', s.addVersion id object = .ok s' ∧ s.Gains id object s' := by
  intro s
  have hreachable : s.Reachable := reachable_takeAll .empty steps
  have hs := hreachable.wellNumbered
  have hentries : s.entries = entriesFrom 1 steps := entries_takeAll {} steps
  refine ⟨hentries, by rw [hentries, ids_entriesFrom], fun id => hreachable.exists_of_mem_indexed,
    fun later => ?_, hs.listsExactly_get, fun strategy t hstrategy => ?_, fun t => rfl,
    fun id object hunknown => ?_, fun id object hknown => Store.exists_gains hknown object⟩
  · rw [takeAll, List.foldl_append]
    exact indexed_takeAll_subset s later
  · have hfetches := Strategy.fetches_eq_true.2 hstrategy
    exact ⟨hs.indexes_refresh hfetches t, hs.refresh_refresh hfetches t⟩
  · have herror := Store.addVersion_of_unknown hunknown object
    exact ⟨herror, by rw [take, herror]⟩

/-! ### A town that grows -/

/-- What is in the town. -/
def town : Target := { schemas := NameSet.ofList ["town"] }

/-- A version that comes too early, a lamp in a house and one in the town, and another one that
comes after the town is indexed. -/
def townSteps : List StoreStep :=
  [.addVersion 2 .null, .add "lamps/1" "house" "Lamp" .null, .add "lamps/2" "town" "Lamp" .null,
    .refresh .full town, .add "lamps/3" "town" "Lamp" .null]

theorem takeAll_consistent_townSteps :
    let s := takeAll {} townSteps
    (Strategy.full ≠ .onDemand ∧ (¬∃ e ∈ s.entries, e.id = 4) ∧ ∃ e ∈ s.entries, e.id = 3) ∧
    (s.Indexes town (s.refresh .full town).1 (s.refresh .full town).2 ∧
      (s.refresh .full town).2.refresh .full town = s.refresh .full town) ∧
    (s.addVersion 4 .null = .error (Store.unknownEntry 4) ∧
      take s (.addVersion 4 .null) = s) ∧
    ∃ s', s.addVersion 3 .null = .ok s' ∧ s.Gains 3 .null s' := by
  have hids : ∀ id, (∃ e ∈ (takeAll {} townSteps).entries, e.id = id) ↔ id ∈ [1, 2, 3] :=
    fun id => List.mem_map.symm
  have hunknown := mt (hids 4).1 (by decide)
  have hknown := (hids 3).2 (by decide)
  obtain ⟨-, -, -, -, -, hindexes, -, hmisses, hgains⟩ := takeAll_consistent townSteps
  exact ⟨⟨by decide, hunknown, hknown⟩, hindexes .full town (by decide), hmisses 4 .null hunknown,
    hgains 3 .null hknown⟩

/-- Only the lamp that was there is listed. -/
example :
    let s := takeAll {} townSteps
    (s.entries.map (·.id), s.indexed, (s.get { schemas := .empty }).map (·.uri)) =
      ([1, 2, 3], [2], ["lamps/2"]) :=
  rfl

end StoreStep

end ObjectQuery
