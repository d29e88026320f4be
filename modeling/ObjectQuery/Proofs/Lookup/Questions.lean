import ObjectQuery.Proofs.Lookup.Invariants

/-!
# What questions leave behind

A question about an entry keeps at most one value more, under the number of the entry and
the path, and only if nothing was kept there and the examiner answers
(`Lookups.get?_discover`). From this three things follow about questions that are put one
after another.

Questions about different paths have nothing to do with each other. States that keep the
same under some paths (`Lookups.AgreeOn`) still do so behind questions in which these paths
occur alike, whatever else is asked.

No entry is ever answered anything but what was kept for its number at the start, or what
the examiner answers for one of the entries asked about that has this number
(`Lookups.Within`).

Where two entries have the same number, the one that comes **first** is answered for both:
what is kept of it is what the other one is shown. `leader` is this entry in a list. As
long as every question is either about a leader or about something that is kept already
(`Lookups.Settled`), what the leaders are answered never changes (`Lookups.Upholds`), and
every entry is answered as its leader is (`Lookups.Upholds.answer_eq`). In a list in which
every number belongs to one entry, all entries are leaders.
-/

namespace ObjectQuery

namespace Lookups

variable {examiner : Examiner} {l l' : Lookups}

/-! ### What is kept -/

/-- **What a question keeps.** -/
theorem get?_discover (examiner : Examiner) (e : Entry) (path : String) (l : Lookups) (id : Nat)
    (other : String) :
    ((LookupM.discover examiner e path).run.run l).2.get? id other =
      (l.get? id other).or
        (if (id, other) = (e.id, path) then (examiner e path).toOption else none) := by
  rcases LookupM.discover_cases examiner e path l with
    ⟨hit, hget, hrun⟩ | ⟨found, hget, ha, hrun⟩ | ⟨failure, hget, ha, hrun⟩
  · rw [hrun]
    split
    · next hkey =>
      obtain ⟨rfl, rfl⟩ := Prod.mk.inj hkey
      rw [hget, Option.some_or]
    · rw [Option.or_none]
  · rw [hrun, get?_asked_append, ha]
    rfl
  · rw [hrun, ha]
    change l.get? id other = _
    simp [Except.toOption]

/-- What questions about one entry keep. -/
theorem get?_after_entry (e : Entry) (paths : List String) (l : Lookups) (id : Nat)
    (other : String) :
    (l.after examiner (paths.map (e, ·))).get? id other =
      (l.get? id other).or
        (if id = e.id ∧ other ∈ paths then (examiner e other).toOption else none) := by
  induction paths generalizing l with
  | nil => simp [after]
  | cons path rest ih =>
    refine (ih _).trans ?_
    rw [get?_discover, Option.or_assoc]
    congr 1
    by_cases hpath : other = path
    · subst hpath
      by_cases hid : id = e.id
      · simp only [hid, List.mem_cons_self, and_self, if_true, true_and]
        split <;> simp
      · simp [hid]
    · simp [hpath]

/-- Questions about an entry do not change what it is answered. -/
theorem answer_after_entry (e : Entry) (paths : List String) (l : Lookups) :
    (l.after examiner (paths.map (e, ·))).answer examiner e = l.answer examiner e := by
  induction paths generalizing l with
  | nil => rfl
  | cons path rest ih =>
    exact (ih _).trans (funext fun path' =>
      answer_discover (fun _ => rfl) path path' l)

/-- What is kept stays. -/
theorem isSome_get?_after_entry {id : Nat} {other : String} (h : (l.get? id other).isSome = true)
    (e : Entry) (paths : List String) :
    ((l.after examiner (paths.map (e, ·))).get? id other).isSome = true := by
  rw [get?_after_entry, Option.isSome_or, h, Bool.true_or]

/-- What is answered is kept. -/
theorem isSome_get?_after_entry_of_mem {e : Entry} {paths : List String} {path : String}
    (hpath : path ∈ paths) (h : ∃ found, examiner e path = .ok found) (l : Lookups) :
    ((l.after examiner (paths.map (e, ·))).get? e.id path).isSome = true := by
  obtain ⟨found, hfound⟩ := h
  rw [get?_after_entry, if_pos ⟨rfl, hpath⟩, hfound, Option.isSome_or, Bool.or_eq_true]
  exact .inr rfl

/-! ### States that agree on some paths -/

/-- Two states keep the same under some paths. -/
def AgreeOn (S : String → Prop) (l l' : Lookups) : Prop :=
  ∀ id path, S path → l.get? id path = l'.get? id path

variable {S : String → Prop}

theorem AgreeOn.answer (h : AgreeOn S l l') (e : Entry) {path : String} (hpath : S path) :
    l.answer examiner e path = l'.answer examiner e path := by
  rw [Lookups.answer, Lookups.answer, h e.id path hpath]

/-- **States still agree** behind questions about an entry in which the paths in question
occur alike. -/
theorem AgreeOn.after (h : AgreeOn S l l') (examiner : Examiner) (e : Entry)
    (paths paths' : List String)
    (hpaths : ∀ path, S path → (path ∈ paths ↔ path ∈ paths')) :
    AgreeOn S (l.after examiner (paths.map (e, ·))) (l'.after examiner (paths'.map (e, ·))) := by
  intro id path hpath
  simp only [get?_after_entry, h id path hpath, hpaths path hpath]

/-! ### What may be answered -/

variable {asked : Entry → Prop}

/-- What an entry may be answered from a state on, if only some entries are asked about: what
is kept for it, or what the examiner answers for one of these that has its number. -/
def MayAnswer (l : Lookups) (examiner : Examiner) (asked : Entry → Prop) (e : Entry)
    (path : String) (answer : Except Failure Found) : Prop :=
  (∃ hit, l.get? e.id path = some hit ∧ answer = .ok hit) ∨
    ∃ e', asked e' ∧ e'.id = e.id ∧ answer = examiner e' path

/-- A state answers nothing but what may be answered. -/
def Within (l : Lookups) (examiner : Examiner) (asked : Entry → Prop) (l' : Lookups) : Prop :=
  ∀ e, asked e → ∀ path, l.MayAnswer examiner asked e path (l'.answer examiner e path)

theorem within_refl (l : Lookups) (examiner : Examiner) (asked : Entry → Prop) :
    l.Within examiner asked l := by
  intro e he path
  cases hget : l.get? e.id path with
  | some hit => exact .inl ⟨hit, hget, answer_of_some hget⟩
  | none => exact .inr ⟨e, he, rfl, answer_of_none hget⟩

/-- Behind a question an entry is answered as before, or as the examiner answered that
question. -/
theorem answer_discover_eq_or (examiner : Examiner) (e e' : Entry) (path path' : String)
    (l : Lookups) :
    ((LookupM.discover examiner e path).run.run l).2.answer examiner e' path' =
        l.answer examiner e' path' ∨
      (e'.id = e.id ∧ path' = path) ∧
        ((LookupM.discover examiner e path).run.run l).2.answer examiner e' path' =
          examiner e path := by
  rw [answer, answer, get?_discover]
  cases hget : l.get? e'.id path' with
  | some hit => exact .inl rfl
  | none =>
    by_cases hkey : (e'.id, path') = (e.id, path)
    · rw [if_pos hkey, Option.none_or]
      cases examiner e path with
      | ok found => exact .inr ⟨Prod.mk.inj hkey, rfl⟩
      | error failure => exact .inl rfl
    · rw [if_neg hkey]
      exact .inl rfl

/-- A question about one of the entries keeps an answer of the examiner for it. -/
theorem Within.discover (h : l.Within examiner asked l') {e : Entry} (he : asked e)
    (path : String) :
    l.Within examiner asked ((LookupM.discover examiner e path).run.run l').2 := by
  intro e' he' path'
  rcases answer_discover_eq_or examiner e e' path path' l' with hsame | ⟨⟨hid, rfl⟩, hfresh⟩
  · rw [hsame]
    exact h e' he' path'
  · exact .inr ⟨e, he, hid.symm, hfresh⟩

/-- **Questions about some entries** give them no other answers. -/
theorem Within.after (h : l.Within examiner asked l') {e : Entry} (he : asked e)
    (paths : List String) : l.Within examiner asked (l'.after examiner (paths.map (e, ·))) := by
  induction paths generalizing l' with
  | nil => exact h
  | cons path rest ih => exact ih (h.discover he path)

end Lookups

/-! ### The first entry of a number -/

/-- The first entry of a list that has the number of an entry. -/
def leader (entries : List Entry) (e : Entry) : Entry :=
  (entries.find? (·.id == e.id)).getD e

section Leaders

variable {entries : List Entry} {e e' : Entry}

theorem leader_id (entries : List Entry) (e : Entry) : (leader entries e).id = e.id := by
  rw [leader]
  cases h : entries.find? (·.id == e.id) with
  | none => rfl
  | some first => simpa using List.find?_some h

theorem leader_mem (he : e ∈ entries) : leader entries e ∈ entries := by
  rw [leader]
  cases h : entries.find? (·.id == e.id) with
  | none => exact he
  | some first => exact List.mem_of_find?_eq_some h

/-- Entries of one number have the same leader. -/
theorem leader_congr (he : e ∈ entries) (hid : e.id = e'.id) :
    leader entries e = leader entries e' := by
  rw [leader, leader, ← hid]
  cases h : entries.find? (·.id == e.id) with
  | none => exact absurd (List.find?_eq_none.1 h e he) (by simp)
  | some first => rfl

/-- An entry is a leader, or its leader comes in front of it. -/
theorem leader_append_cons (before rest : List Entry) (e : Entry) :
    leader (before ++ e :: rest) e = e ∨ leader (before ++ e :: rest) e ∈ before := by
  rw [leader, List.find?_append]
  cases h : before.find? (·.id == e.id) with
  | none => exact .inl (by simp)
  | some first => exact .inr (List.mem_of_find?_eq_some h)

/-- Leaving out entries of some numbers altogether does not change who leads the others. -/
theorem leader_filter {p : Entry → Bool} (hp : ∀ e' ∈ entries, e'.id = e.id → p e' = true) :
    leader (entries.filter p) e = leader entries e := by
  rw [leader, leader, List.find?_filter]
  congr 1
  induction entries with
  | nil => rfl
  | cons first rest ih =>
    have hrest := ih fun e' he' => hp e' (List.mem_cons_of_mem _ he')
    have hfirst := hp first List.mem_cons_self
    rw [List.find?_cons, List.find?_cons, hrest]
    cases hid : first.id == e.id with
    | true => simp [hfirst (by simpa using hid)]
    | false => simp

end Leaders

namespace Lookups

variable {examiner : Examiner} {entries : List Entry} {l l' : Lookups} {e : Entry} {path : String}

/-! ### Answering entries as their leaders -/

/-- How an entry is answered where it is answered as its leader is. -/
def leading (l : Lookups) (examiner : Examiner) (entries : List Entry) : Examiner :=
  fun e => l.answer examiner (leader entries e)

/-- The leaders are still answered as they were. -/
def Upholds (examiner : Examiner) (entries : List Entry) (l l' : Lookups) : Prop :=
  ∀ e ∈ entries, ∀ path,
    l'.answer examiner (leader entries e) path = l.leading examiner entries e path

/-- A question is about a leader, or about something that is kept. -/
def Settled (entries : List Entry) (l : Lookups) (e : Entry) (path : String) : Prop :=
  leader entries e = e ∨ (l.get? e.id path).isSome = true

theorem upholds_refl (examiner : Examiner) (entries : List Entry) (l : Lookups) :
    Upholds examiner entries l l :=
  fun _ _ _ => rfl

/-- **A settled question is answered as it is for the leader.** -/
theorem Upholds.answer_eq (h : Upholds examiner entries l l') (he : e ∈ entries)
    (hsettled : Settled entries l' e path) :
    l'.answer examiner e path = l.leading examiner entries e path := by
  rcases hsettled with hleads | hkept
  · have hanswer := h e he path
    rwa [hleads] at hanswer
  · obtain ⟨hit, hhit⟩ := Option.isSome_iff_exists.1 hkept
    have hleader : l'.get? (leader entries e).id path = some hit := by
      rw [leader_id]
      exact hhit
    rw [← h e he path, answer_of_some hhit, answer_of_some hleader]

/-- A settled question leaves what leaders are answered alone. -/
theorem Upholds.discover (h : Upholds examiner entries l l')
    (hsettled : Settled entries l' e path) :
    Upholds examiner entries l ((LookupM.discover examiner e path).run.run l').2 := by
  rcases hsettled with hleads | hkept
  · intro e' he' path'
    refine (answer_discover (fun hid => ?_) path path' l').trans (h e' he' path')
    rw [leader_id] at hid
    exact congrArg examiner ((leader_congr he' hid).trans hleads)
  · obtain ⟨hit, hhit⟩ := Option.isSome_iff_exists.1 hkept
    rw [LookupM.discover_hit hhit]
    exact h

/-- **Settled questions about an entry leave what leaders are answered alone.** -/
theorem Upholds.after (h : Upholds examiner entries l l') {paths : List String}
    (hsettled : ∀ path ∈ paths, Settled entries l' e path) :
    Upholds examiner entries l (l'.after examiner (paths.map (e, ·))) := by
  induction paths generalizing l' with
  | nil => exact h
  | cons path rest ih =>
    refine ih (h.discover (hsettled path List.mem_cons_self)) fun path' hpath' => ?_
    refine (hsettled path' (List.mem_cons_of_mem _ hpath')).imp_right fun hkept => ?_
    exact isSome_get?_after_entry hkept e [path]

/-- Leaders of a part of a list are answered as they were if those of the list are. -/
theorem Upholds.filter (h : Upholds examiner entries l l') {p : Entry → Bool}
    (hp : ∀ e ∈ entries, ∀ e' ∈ entries, e.id = e'.id → p e = p e') :
    Upholds examiner (entries.filter p) l l' := by
  intro e he path
  obtain ⟨hmem, hpe⟩ := List.mem_filter.1 he
  have hleader : leader (entries.filter p) e = leader entries e :=
    leader_filter fun e' he' hid => (hp e' he' e hmem hid).trans hpe
  rw [leading, hleader]
  exact h e hmem path

/-- Where the examiner answers, so does a state. -/
theorem exists_answer_eq_ok (h : ∃ found, examiner e path = .ok found) :
    ∃ found, l.answer examiner e path = .ok found := by
  cases hget : l.get? e.id path with
  | some hit => exact ⟨hit, answer_of_some hget⟩
  | none =>
    obtain ⟨found, hfound⟩ := h
    exact ⟨found, (answer_of_none hget).trans hfound⟩

end Lookups

end ObjectQuery
