import ObjectQuery.Plan
import ObjectQuery.Proofs.Store.NameSet

/-!
# What planning puts in

What a plan has to be is said by positions of the script: `Plan.Needs` tells which index,
if any, belongs in front of the instruction at a position, and only looks at the script as
it was written. A plan **completes** a script if it is the script with these indexes in
front of the instructions that need them (`Plan.Completes`), and there is just one such
plan (`Plan.Completes.unique`).

Planning goes through the script once and carries the instructions in front, so that what
it puts in never counts as being in front of a query (`Plan.needs_indexFor?`). Putting all
indexes in afterwards, at the positions where they belong in the script and the last one
first, comes to the same (`Plan.foldr_insertIndex`).
-/

namespace ObjectQuery

namespace Plan

/-! ### Refusal -/

/-- The instruction is an index or a query and names no schema. -/
inductive NamesNoSchema : Instruction → Prop
  | index {i : IndexInstruction} (h : i.target.schemas = .empty) : NamesNoSchema (.index i)
  | query {q : QueryInstruction} (h : q.target.schemas = .empty) : NamesNoSchema (.query q)

theorem lacksSchema_iff {x : Instruction} : lacksSchema x = true ↔ NamesNoSchema x := by
  cases x with
  | index i =>
    rw [lacksSchema, NameSet.isEmpty_iff]
    exact ⟨.index, fun h => by cases h; assumption⟩
  | query q =>
    rw [lacksSchema, NameSet.isEmpty_iff]
    exact ⟨.query, fun h => by cases h; assumption⟩
  | update u => exact iff_of_false (by rintro ⟨⟩) (by rintro ⟨⟩)

instance {x : Instruction} : Decidable (NamesNoSchema x) :=
  decidable_of_iff _ lacksSchema_iff

/-! ### What a plan has to be -/

/-- What belongs in front of the instruction at a position of a script. -/
inductive Needs (strategy : Strategy) (script : Script) (position : Nat) :
    Option IndexInstruction → Prop
  | index {q : QueryInstruction} (hq : script[position]? = some (.query q))
    (hnone : ∀ i, .index i ∈ script.take position → i.target ≠ q.target) :
    Needs strategy script position (some { target := q.target, strategy, isImplicit := true })
  | nothing (h : ∀ q, script[position]? = some (.query q) →
      ∃ i, .index i ∈ script.take position ∧ i.target = q.target) :
    Needs strategy script position none

/-- At every position at most one thing is needed. -/
theorem Needs.unique {strategy : Strategy} {script : Script} {position : Nat}
    {i? i?' : Option IndexInstruction} (h : Needs strategy script position i?)
    (h' : Needs strategy script position i?') : i? = i?' := by
  cases h with
  | index hq hnone =>
    cases h' with
    | index hq' _ =>
      rw [hq] at hq'
      cases hq'
      rfl
    | nothing hindexed =>
      obtain ⟨i, hi, htarget⟩ := hindexed _ hq
      exact absurd htarget (hnone i hi)
  | nothing hindexed =>
    cases h' with
    | index hq hnone =>
      obtain ⟨i, hi, htarget⟩ := hindexed _ hq
      exact absurd htarget (hnone i hi)
    | nothing _ => rfl

/-- An instruction behind the index that goes in front of it, if one does. -/
def piece (p : Option IndexInstruction × Instruction) : Plan :=
  (p.1.map .index).toList ++ [p.2]

/-- The plan is the script, with what is needed in front of every instruction. -/
def Completes (strategy : Strategy) (script : Script) (plan : Plan) : Prop :=
  ∃ pieces : List (Option IndexInstruction × Instruction),
    pieces.map Prod.snd = script ∧ plan = pieces.flatMap piece ∧
      ∀ position p, pieces[position]? = some p → Needs strategy script position p.1

/-- **Only one plan completes a script.** -/
theorem Completes.unique {strategy : Strategy} {script : Script} {plan plan' : Plan}
    (h : Completes strategy script plan) (h' : Completes strategy script plan') :
    plan = plan' := by
  obtain ⟨pieces, hscript, rfl, hneeds⟩ := h
  obtain ⟨pieces', hscript', rfl, hneeds'⟩ := h'
  have hpieces : pieces = pieces' := by
    have hlength := congrArg List.length (hscript.trans hscript'.symm)
    rw [List.length_map, List.length_map] at hlength
    refine List.ext_getElem hlength fun position hlt hlt' => Prod.ext ?_ ?_
    · exact (hneeds position _ (List.getElem?_eq_getElem hlt)).unique
        (hneeds' position _ (List.getElem?_eq_getElem hlt'))
    · have hsnd := congrArg (fun xs : List Instruction => xs[position]?)
        (hscript.trans hscript'.symm)
      simpa [List.getElem?_eq_getElem, hlt, hlt'] using hsnd
  rw [hpieces]

/-! ### What planning makes -/

/-- The index that goes in front of an instruction, given those in front of it. -/
def indexFor? (strategy : Strategy) (before : List Instruction) :
    Instruction → Option IndexInstruction
  | .query q =>
    if before.any (isIndexFor q) then none
    else some { target := q.target, strategy, isImplicit := true }
  | _ => none

theorem withIndex_eq (strategy : Strategy) (before : List Instruction) (x : Instruction) :
    withIndex strategy before x = piece (indexFor? strategy before x, x) := by
  cases x with
  | query q =>
    rw [withIndex, indexFor?]
    split <;> rfl
  | index i => rfl
  | update u => rfl

theorem any_isIndexFor_iff {before : List Instruction} {q : QueryInstruction} :
    before.any (isIndexFor q) = true ↔ ∃ i, .index i ∈ before ∧ i.target = q.target := by
  rw [List.any_eq_true]
  constructor
  · rintro ⟨x, hx, hindex⟩
    cases x with
    | index i => exact ⟨i, hx, eq_of_beq hindex⟩
    | query q' => cases hindex
    | update u => cases hindex
  · rintro ⟨i, hi, htarget⟩
    exact ⟨.index i, hi, beq_iff_eq.2 htarget⟩

/-- **What goes in front of an instruction is what is needed there.** -/
theorem needs_indexFor? (strategy : Strategy) (before : List Instruction) (x : Instruction)
    (rest : List Instruction) :
    Needs strategy (before ++ x :: rest) before.length (indexFor? strategy before x) := by
  have hget : (before ++ x :: rest)[before.length]? = some x := by simp
  have htake : (before ++ x :: rest).take before.length = before := by simp
  -- only a query can need an index
  have hother : (∀ q, x ≠ .query q) → Needs strategy (before ++ x :: rest) before.length none :=
    fun hx => .nothing fun q hq => absurd (Option.some.inj (hget.symm.trans hq)) (hx q)
  cases x with
  | index i => exact hother (by rintro q ⟨⟩)
  | update u => exact hother (by rintro q ⟨⟩)
  | query q =>
    rw [indexFor?]
    split
    · next hindexed =>
      refine .nothing fun q' hq' => ?_
      rw [hget] at hq'
      cases hq'
      rw [htake]
      exact any_isIndexFor_iff.1 hindexed
    · next hindexed =>
      refine .index hget fun i hi htarget => hindexed ?_
      rw [htake] at hi
      exact any_isIndexFor_iff.2 ⟨i, hi, htarget⟩

/-- The instructions with what goes in front of each. -/
def pieces (strategy : Strategy) (before : List Instruction) :
    List Instruction → List (Option IndexInstruction × Instruction)
  | [] => []
  | x :: rest => (indexFor? strategy before x, x) :: pieces strategy (before ++ [x]) rest

theorem flatMap_pieces (strategy : Strategy) (before rest : List Instruction) :
    withIndexes strategy before rest = (pieces strategy before rest).flatMap piece := by
  induction rest generalizing before with
  | nil => rfl
  | cons x rest ih => rw [withIndexes, pieces, List.flatMap_cons, withIndex_eq, ih]

theorem map_snd_pieces (strategy : Strategy) (before rest : List Instruction) :
    (pieces strategy before rest).map Prod.snd = rest := by
  induction rest generalizing before with
  | nil => rfl
  | cons x rest ih => rw [pieces, List.map_cons, ih]

theorem needs_of_getElem?_pieces {strategy : Strategy} {before rest : List Instruction}
    {n : Nat} {p : Option IndexInstruction × Instruction}
    (h : (pieces strategy before rest)[n]? = some p) :
    Needs strategy (before ++ rest) (before.length + n) p.1 := by
  induction rest generalizing before n with
  | nil => simp [pieces] at h
  | cons x rest ih =>
    rw [pieces] at h
    cases n with
    | zero =>
      cases h
      exact needs_indexFor? strategy before x rest
    | succ n =>
      have hrest := ih h
      rwa [List.append_assoc, List.singleton_append, List.length_append, List.length_singleton,
        Nat.add_assoc, Nat.add_comm 1] at hrest

/-- **Planning completes a script.** -/
theorem completes_withIndexes (strategy : Strategy) (script : Script) :
    Completes strategy script (withIndexes strategy [] script) := by
  refine ⟨pieces strategy [] script, map_snd_pieces _ _ _, flatMap_pieces _ _ _,
    fun position p hp => ?_⟩
  have hneeds := needs_of_getElem?_pieces hp
  rwa [List.nil_append, List.length_nil, Nat.zero_add] at hneeds

/-- Planning puts in nothing but the indexes of queries. -/
theorem mem_withIndexes {strategy : Strategy} {before rest : List Instruction} {x : Instruction}
    (h : x ∈ withIndexes strategy before rest) :
    x ∈ rest ∨ ∃ q, .query q ∈ rest ∧ x = implicitFor q strategy := by
  induction rest generalizing before with
  | nil => simp [withIndexes] at h
  | cons first rest ih =>
    have hown : x = first → x ∈ first :: rest := fun heq => heq ▸ List.mem_cons_self
    rw [withIndexes, List.mem_append] at h
    rcases h with h | h
    · cases first with
      | query q =>
        rw [withIndex] at h
        split at h
        · exact .inl (hown (List.mem_singleton.1 h))
        · rcases List.mem_cons.1 h with rfl | h
          · exact .inr ⟨q, List.mem_cons_self, rfl⟩
          · exact .inl (hown (List.mem_singleton.1 h))
      | index i => exact .inl (hown (List.mem_singleton.1 h))
      | update u => exact .inl (hown (List.mem_singleton.1 h))
    · rcases ih h with h | ⟨q, hq, heq⟩
      · exact .inl (List.mem_cons_of_mem _ h)
      · exact .inr ⟨q, List.mem_cons_of_mem _ hq, heq⟩

/-! ### Queries are indexed -/

/-- In front of the query of a piece there is its index only. -/
theorem eq_of_piece_eq_append {p : Option IndexInstruction × Instruction}
    {before after : List Instruction} {q : QueryInstruction}
    (h : piece p = before ++ .query q :: after) :
    p.2 = .query q ∧ before = (p.1.map .index).toList := by
  obtain ⟨i?, x⟩ := p
  rcases i? with _ | i <;> rcases before with _ | ⟨_, _ | ⟨_, before⟩⟩ <;> simp_all [piece]

/-- **Every query has an index of its target in front of it**, in the plan or among the
instructions carried. -/
theorem exists_index_of_withIndexes {strategy : Strategy}
    {carried rest before after : List Instruction} {q : QueryInstruction}
    (h : withIndexes strategy carried rest = before ++ .query q :: after) :
    ∃ i, .index i ∈ carried ++ before ∧ i.target = q.target := by
  induction rest generalizing carried before with
  | nil => simp [withIndexes] at h
  | cons x rest ih =>
    rw [withIndexes, withIndex_eq] at h
    have hlater : ∀ before', before = piece (indexFor? strategy carried x, x) ++ before' →
        withIndexes strategy (carried ++ [x]) rest = before' ++ .query q :: after →
        ∃ i, .index i ∈ carried ++ before ∧ i.target = q.target := by
      rintro before' rfl hrest
      obtain ⟨i, hi, htarget⟩ := ih hrest
      refine ⟨i, ?_, htarget⟩
      have hx : x ∈ piece (indexFor? strategy carried x, x) :=
        List.mem_append_right _ (List.mem_singleton_self x)
      rw [List.mem_append, List.mem_append, List.mem_singleton] at hi
      rw [List.mem_append, List.mem_append]
      rcases hi with (hi | hi) | hi
      · exact .inl hi
      · exact .inr (.inl (hi ▸ hx))
      · exact .inr (.inr hi)
    rcases List.append_eq_append_iff.1 h with ⟨before', hbefore, hrest⟩ | ⟨after', hpiece, hrest⟩
    · exact hlater before' hbefore hrest
    · cases after' with
      | nil =>
        rw [List.append_nil] at hpiece
        exact hlater [] (by rw [hpiece, List.append_nil]) hrest.symm
      | cons y after' =>
        -- the query is the one that the piece is about
        cases hrest
        obtain ⟨hx, hbefore⟩ := eq_of_piece_eq_append hpiece
        change x = .query q at hx
        rw [hx, indexFor?] at hbefore
        split at hbefore
        · next hindexed =>
          obtain ⟨i, hi, htarget⟩ := any_isIndexFor_iff.1 hindexed
          exact ⟨i, List.mem_append_left _ hi, htarget⟩
        · rw [hbefore]
          exact ⟨_, List.mem_append_right _ (List.mem_singleton_self _), rfl⟩

/-! ### Putting indexes in afterwards -/

/-- The indexes that instructions need, each with the position where it belongs, given the
instructions in front of them. -/
def insertions (strategy : Strategy) (before : List Instruction) :
    List Instruction → List (Nat × IndexInstruction)
  | [] => []
  | x :: rest =>
    ((indexFor? strategy before x).map (before.length, ·)).toList ++
      insertions strategy (before ++ [x]) rest

/-- Puts an index in at its position. -/
def insertIndex (placed : Nat × IndexInstruction) (plan : Plan) : Plan :=
  plan.insertIdx placed.1 (.index placed.2)

theorem insertIdx_length_append (before rest : List Instruction) (x : Instruction) :
    (before ++ rest).insertIdx before.length x = before ++ x :: rest := by
  induction before with
  | nil => rfl
  | cons y before ih =>
    rw [List.cons_append, List.length_cons, List.insertIdx_succ_cons, ih, List.cons_append]

theorem foldr_insertIndex (strategy : Strategy) (before rest : List Instruction) :
    (insertions strategy before rest).foldr insertIndex (before ++ rest) =
      before ++ withIndexes strategy before rest := by
  induction rest generalizing before with
  | nil => rfl
  | cons x rest ih =>
    have hrest := ih (before ++ [x])
    rw [List.append_assoc, List.singleton_append] at hrest
    rw [insertions, List.foldr_append, hrest, withIndexes, withIndex_eq, List.append_assoc]
    cases indexFor? strategy before x with
    | none => rfl
    | some i => exact insertIdx_length_append _ _ _

/-- **Putting in all indexes, the last one first**, gives the plan: none of them moves the
position of one that is still to come. -/
theorem foldr_insertIndex_script (strategy : Strategy) (script : Script) :
    (insertions strategy [] script).foldr insertIndex script = withIndexes strategy [] script :=
  foldr_insertIndex strategy [] script

/-! ### Planning a script -/

theorem ofScript_eq_ok {script : Script} (h : ∀ x ∈ script, ¬NamesNoSchema x)
    (strategy : Strategy) : ofScript script strategy = .ok (withIndexes strategy [] script) := by
  have hfind : script.find? lacksSchema = none :=
    List.find?_eq_none.2 fun x hx hlacks => h x hx (lacksSchema_iff.1 hlacks)
  rw [ofScript, hfind]

theorem ofScript_eq_error {before : List Instruction} {x : Instruction}
    (hbefore : ∀ y ∈ before, ¬NamesNoSchema y) (hx : NamesNoSchema x) (after : List Instruction)
    (strategy : Strategy) :
    ofScript (before ++ x :: after) strategy = .error (schemaRequired x) := by
  have hfind : (before ++ x :: after).find? lacksSchema = some x := by
    refine List.find?_eq_some_iff_append.2 ⟨lacksSchema_iff.2 hx, before, after, rfl, ?_⟩
    intro y hy
    rw [Bool.not_eq_true', ← Bool.not_eq_true, lacksSchema_iff]
    exact hbefore y hy
  rw [ofScript, hfind]

/-- A script that is refused has a first instruction that should name a schema and does not. -/
theorem exists_split_of_ofScript_eq_error {script : Script} {strategy : Strategy}
    {failure : Failure} (h : ofScript script strategy = .error failure) :
    ∃ before x after, script = before ++ x :: after ∧ (∀ y ∈ before, ¬NamesNoSchema y) ∧
      NamesNoSchema x := by
  rw [ofScript] at h
  split at h
  · next x hfind =>
    obtain ⟨hx, before, after, hscript, hbefore⟩ := List.find?_eq_some_iff_append.1 hfind
    refine ⟨before, x, after, hscript, fun y hy hlacks => ?_, lacksSchema_iff.1 hx⟩
    have hnot := hbefore y hy
    rw [lacksSchema_iff.2 hlacks] at hnot
    cases hnot
  · cases h

/-- **A script is refused exactly if an instruction should name a schema and does not.** -/
theorem exists_ofScript_eq_error_iff {script : Script} {strategy : Strategy} :
    (∃ failure, ofScript script strategy = .error failure) ↔ ∃ x ∈ script, NamesNoSchema x := by
  rw [ofScript]
  cases hfind : script.find? lacksSchema with
  | none =>
    refine iff_of_false (by rintro ⟨_, ⟨⟩⟩) ?_
    rintro ⟨x, hx, hlacks⟩
    exact List.find?_eq_none.1 hfind x hx (lacksSchema_iff.2 hlacks)
  | some x =>
    exact iff_of_true ⟨_, rfl⟩
      ⟨x, List.mem_of_find?_eq_some hfind, lacksSchema_iff.1 (List.find?_some hfind)⟩

/-- What an accepted script is planned to. -/
theorem ofScript_eq_ok_iff {script : Script} {strategy : Strategy} {plan : Plan} :
    ofScript script strategy = .ok plan ↔
      (∀ x ∈ script, ¬NamesNoSchema x) ∧ plan = withIndexes strategy [] script := by
  constructor
  · intro h
    have hnames : ∀ x ∈ script, ¬NamesNoSchema x := by
      intro x hx hnone
      obtain ⟨failure, hrefused⟩ := exists_ofScript_eq_error_iff.2 ⟨x, hx, hnone⟩
      rw [hrefused] at h
      cases h
    rw [ofScript_eq_ok hnames] at h
    exact ⟨hnames, (Except.ok.inj h).symm⟩
  · rintro ⟨hnames, rfl⟩
    exact ofScript_eq_ok hnames strategy

/-- **Planning refuses or completes.** A script is refused exactly if one of its indexes or
queries names no schema, with the text of the first that does not. Any other one is
completed, by the only plan there is, and in that every query has an index of exactly its
target in front of it. -/
theorem ofScript_completes (script : Script) (strategy : Strategy) :
    ((∃ failure, ofScript script strategy = .error failure) ↔ ∃ x ∈ script, NamesNoSchema x) ∧
    (∀ before x after, script = before ++ x :: after → (∀ y ∈ before, ¬NamesNoSchema y) →
      NamesNoSchema x → ofScript script strategy =
        .error (.impermissible "instruction must name at least one schema" x.text)) ∧
    ((∀ x ∈ script, ¬NamesNoSchema x) → ∃ plan, ofScript script strategy = .ok plan ∧
      Completes strategy script plan ∧
      (∀ plan', Completes strategy script plan' → plan' = plan) ∧
      ∀ before q after, plan = before ++ .query q :: after →
        ∃ i, .index i ∈ before ∧ i.target = q.target) := by
  refine ⟨exists_ofScript_eq_error_iff, ?_, fun h => ?_⟩
  · rintro before x after rfl hbefore hx
    exact ofScript_eq_error hbefore hx after strategy
  · have hcompletes := completes_withIndexes strategy script
    refine ⟨_, ofScript_eq_ok h strategy, hcompletes, fun plan' h' => h'.unique hcompletes, ?_⟩
    intro before q after hplan
    exact exists_index_of_withIndexes hplan

/-! ### Scripts in two parts -/

theorem withIndexes_append (strategy : Strategy) (before front back : List Instruction) :
    withIndexes strategy before (front ++ back) =
      withIndexes strategy before front ++ withIndexes strategy (before ++ front) back := by
  induction front generalizing before with
  | nil => rw [withIndexes, List.append_nil, List.nil_append, List.nil_append]
  | cons x rest ih =>
    rw [List.cons_append, withIndexes, withIndexes, ih, List.append_assoc, List.append_assoc,
      List.singleton_append]

/-- **The front of a script is planned as if nothing came behind it.** -/
theorem ofScript_append {front back : Script} {strategy : Strategy} {plan : Plan}
    (h : ofScript (front ++ back) strategy = .ok plan) :
    ∃ plan' later, ofScript front strategy = .ok plan' ∧ plan = plan' ++ later := by
  obtain ⟨hnames, rfl⟩ := ofScript_eq_ok_iff.1 h
  rw [withIndexes_append]
  exact ⟨_, _, ofScript_eq_ok (fun x hx => hnames x (List.mem_append_left _ hx)) strategy, rfl⟩

/-! ### A query asked twice -/

/-- Asks for what is in a schema. -/
def queryOf (schema : String) : QueryInstruction where
  target := { schemas := NameSet.ofList [schema] }

/-- One query twice, and another one behind an index of its target. -/
def askedTwice : Script :=
  [.query (queryOf "house"), .query (queryOf "house"), .index { target := (queryOf "town").target },
    .query (queryOf "town")]

theorem ofScript_completes_askedTwice :
    (∀ x ∈ askedTwice, ¬NamesNoSchema x) ∧
    ∃ plan, ofScript askedTwice .initial = .ok plan ∧ Completes .initial askedTwice plan ∧
      (∀ plan', Completes .initial askedTwice plan' → plan' = plan) ∧
      ∀ before q after, plan = before ++ .query q :: after →
        ∃ i, .index i ∈ before ∧ i.target = q.target := by
  have hnames : ∀ x ∈ askedTwice, ¬NamesNoSchema x := by decide
  exact ⟨hnames, (ofScript_completes askedTwice .initial).2.2 hnames⟩

/-- The index put in for the first query does not serve the second. -/
example :
    ofScript askedTwice .initial =
      .ok [implicitFor (queryOf "house") .initial, .query (queryOf "house"),
        implicitFor (queryOf "house") .initial, .query (queryOf "house"),
        .index { target := (queryOf "town").target }, .query (queryOf "town")] :=
  rfl

end Plan

end ObjectQuery
