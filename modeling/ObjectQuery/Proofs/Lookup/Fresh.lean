import ObjectQuery.Proofs.Lookup.Ledger
import ObjectQuery.Proofs.Lookup.Questions

/-!
# What questions about an entry add

Questions about one entry reach the examiner where nothing is kept for the number of the entry
and the path (`Lookups.fresh`). All that they do to a state is to note the questions that reach
the examiner, with their answers, behind what is there (`Lookups.after_eq_note`). Which ones
these are depends on what is kept for this one number (`Lookups.fresh_congr`), and what is noted
is kept for this one number, so that questions about entries of different numbers have nothing
to do with each other: not by what they find, and not by what they fail to find.

In which order answers are noted makes no difference to what is kept, as long as there is one
answer to a question (`Lookups.get?_note_perm`).
-/

namespace ObjectQuery

/-- In a table that has one value for each key, what is found is what there is. -/
theorem lookup_eq_some_iff_mem {α β : Type} [BEq α] [LawfulBEq α] {xs : List (α × β)}
    (h : ∀ k v v', (k, v) ∈ xs → (k, v') ∈ xs → v = v') (k : α) (v : β) :
    xs.lookup k = some v ↔ (k, v) ∈ xs := by
  refine ⟨mem_of_lookup, fun hmem => ?_⟩
  cases hlookup : xs.lookup k with
  | none => exact absurd (List.lookup_eq_none_iff.1 hlookup _ hmem) (by simp)
  | some v' => rw [h k v v' hmem (mem_of_lookup hlookup)]

namespace Lookups

variable {examiner : Examiner} {l l' : Lookups} {e : Entry} {path : String}

/-! ### Noting answers -/

/-- The state with questions noted that reached the examiner, and with their answers kept unless
they are failures. -/
def note (l : Lookups) (answered : List Answered) : Lookups where
  kept := l.kept ++ answered.filterMap Answered.kept?
  loads := l.loads + answered.length
  calls := l.calls ++ answered.map Answered.question

theorem note_nil (l : Lookups) : l.note [] = l := by
  simp [note]

theorem note_append (l : Lookups) (answered more : List Answered) :
    l.note (answered ++ more) = (l.note answered).note more := by
  simp [note, Nat.add_assoc]

theorem get?_note (l : Lookups) (answered : List Answered) (id : Nat) (path : String) :
    (l.note answered).get? id path =
      (l.get? id path).or ((answered.filterMap Answered.kept?).lookup (id, path)) :=
  List.lookup_append

theorem mem_filterMap_kept? {answered : List Answered} {key : Nat × String} {found : Found} :
    (key, found) ∈ answered.filterMap Answered.kept? ↔
      ∃ a ∈ answered, a.key = key ∧ a.answer = .ok found := by
  rw [List.mem_filterMap]
  refine exists_congr fun a => and_congr_right fun _ => ?_
  rw [Answered.kept?]
  cases a.answer <;> simp [Except.toOption]

/-- Answers for one number make no difference to another. -/
theorem get?_note_of_ne {answered : List Answered} {id : Nat}
    (h : ∀ a ∈ answered, a.entry.id ≠ id) (path : String) :
    (l.note answered).get? id path = l.get? id path := by
  have hnone : (answered.filterMap Answered.kept?).lookup (id, path) = none := by
    rw [List.lookup_eq_none_iff]
    rintro ⟨key, found⟩ hmem
    obtain ⟨a, ha, rfl, -⟩ := mem_filterMap_kept?.1 hmem
    have hne : (id, path) ≠ a.key := fun heq => h a ha (congrArg Prod.fst heq).symm
    simpa using hne
  rw [get?_note, hnone, Option.or_none]

/-- **The order in which answers are noted** makes no difference to what is kept, if the same
question has the same answer. -/
theorem get?_note_perm {answered answered' : List Answered}
    (h : ∀ a ∈ answered, ∀ a' ∈ answered, a.key = a'.key → a.answer = a'.answer)
    (hperm : answered'.Perm answered) (id : Nat) (path : String) :
    (l.note answered').get? id path = (l.note answered).get? id path := by
  have hone : ∀ key found found', (key, found) ∈ answered.filterMap Answered.kept? →
      (key, found') ∈ answered.filterMap Answered.kept? → found = found' := by
    intro key found found' hmem hmem'
    obtain ⟨a, ha, rfl, hanswer⟩ := mem_filterMap_kept?.1 hmem
    obtain ⟨a', ha', hkey, hanswer'⟩ := mem_filterMap_kept?.1 hmem'
    have hsame := h a' ha' a ha hkey
    rw [hanswer, hanswer'] at hsame
    exact (Except.ok.inj hsame).symm
  have hkept := hperm.filterMap Answered.kept?
  rw [get?_note, get?_note]
  congr 1
  refine Option.ext fun found => ?_
  rw [lookup_eq_some_iff_mem hone, lookup_eq_some_iff_mem, hkept.mem_iff]
  intro key found found' hmem hmem'
  exact hone key found found' (hkept.mem_iff.1 hmem) (hkept.mem_iff.1 hmem')

/-- Two states that differ in the order alone in which things were looked up: they keep the same,
and as many questions have reached the examiner, the same ones. -/
structure SameUpToOrder (l l' : Lookups) : Prop where
  get? : ∀ id path, l.get? id path = l'.get? id path
  kept : l.kept.Perm l'.kept
  loads : l.loads = l'.loads
  calls : l.calls.Perm l'.calls

theorem sameUpToOrder_note {answered answered' : List Answered}
    (h : ∀ a ∈ answered, ∀ a' ∈ answered, a.key = a'.key → a.answer = a'.answer)
    (hperm : answered'.Perm answered) (l : Lookups) :
    (l.note answered').SameUpToOrder (l.note answered) where
  get? := get?_note_perm h hperm
  kept := (hperm.filterMap _).append_left _
  loads := congrArg (l.loads + ·) hperm.length_eq
  calls := (hperm.map _).append_left _

/-! ### Questions about one entry -/

/-- How an entry is answered depends on what is kept for its number. -/
theorem answer_congr (h : ∀ path, l.get? e.id path = l'.get? e.id path) (examiner : Examiner) :
    l.answer examiner e = l'.answer examiner e := by
  funext path
  rw [answer, answer, h]

/-- The questions about an entry that reach the examiner, with their answers, if paths are asked
for one after another. -/
def fresh (examiner : Examiner) (e : Entry) : List String → Lookups → List Answered
  | [], _ => []
  | path :: rest, l =>
    if (l.get? e.id path).isSome then fresh examiner e rest l
    else ⟨e, path, examiner e path⟩ :: fresh examiner e rest (l.note [⟨e, path, examiner e path⟩])

theorem discover_eq_note (h : ¬(l.get? e.id path).isSome = true) :
    ((LookupM.discover examiner e path).run.run l).2 = l.note [⟨e, path, examiner e path⟩] := by
  have hnone : l.get? e.id path = none := by simpa using h
  cases ha : examiner e path with
  | ok found =>
    rw [LookupM.discover_ok hnone ha]
    rfl
  | error failure =>
    rw [LookupM.discover_error hnone ha, asked, note]
    exact congrArg (Lookups.mk · _ _) (List.append_nil _).symm

/-- **Questions about an entry** note what reaches the examiner. -/
theorem after_eq_note (e : Entry) (paths : List String) (l : Lookups) :
    l.after examiner (paths.map (e, ·)) = l.note (fresh examiner e paths l) := by
  induction paths generalizing l with
  | nil => exact (note_nil l).symm
  | cons path rest ih =>
    change ((LookupM.discover examiner e path).run.run l).2.after examiner (rest.map (e, ·)) = _
    rw [fresh, ih]
    split
    · next hkept =>
      obtain ⟨hit, hhit⟩ := Option.isSome_iff_exists.1 hkept
      rw [LookupM.discover_hit hhit]
    · next hfresh =>
      rw [discover_eq_note hfresh, ← note_append]
      rfl

/-- What reaches the examiner depends on what is kept for the number of the entry. -/
theorem fresh_congr (h : ∀ path, l.get? e.id path = l'.get? e.id path) (examiner : Examiner)
    (paths : List String) : fresh examiner e paths l = fresh examiner e paths l' := by
  induction paths generalizing l l' with
  | nil => rfl
  | cons path rest ih =>
    have hnote : ∀ other, (l.note [⟨e, path, examiner e path⟩]).get? e.id other =
        (l'.note [⟨e, path, examiner e path⟩]).get? e.id other := fun other => by
      rw [get?_note, get?_note, h]
    rw [fresh, fresh, h, ih h, ih hnote]

/-- What reaches the examiner are questions about the entry, with the answers for it. -/
theorem of_mem_fresh {paths : List String} {a : Answered} (h : a ∈ fresh examiner e paths l) :
    a.entry = e ∧ a.answer = examiner e a.path := by
  induction paths generalizing l with
  | nil => exact absurd h List.not_mem_nil
  | cons path rest ih =>
    rw [fresh] at h
    split at h
    · exact ih h
    · rcases List.mem_cons.1 h with rfl | h
      · exact ⟨rfl, rfl⟩
      · exact ih h

end Lookups

end ObjectQuery
