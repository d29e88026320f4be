import ObjectQuery.Sorting.Short

/-!
# Sorting by runs

A list of more than some sixty elements is cut into **runs**. A part of the list that is in
order already, or in strictly descending order, is a run if it is long enough; elsewhere a run
takes a fixed number of elements. Runs that lie side by side are merged in the order of a
balanced tree over the whole list, which is worked out from where they begin and end.

A run that is not in order is not sorted when it is cut off. Where two such runs meet they make
one longer run, as long as there is room to sort it in; it is sorted when it meets a run that is
in order, or at the end. This is done **by pivots**: the elements less than a pivot go to one
side and the others to the other one, and a list that has turned out badly for its pivots too
often is cut into runs again, each of which is sorted at once. So is a list that is too short
for pivots to be of use.

All of this compares elements as often as it must and no more, and trusts the answers. If the
comparison is not an order, elements come out in some order or other, or the sort breaks off
where it merges from both ends (`Sorting.mergeEnds`).
-/

namespace ObjectQuery.Sorting

variable {α ρ : Type}

/-! ### Cutting runs -/

/-- The elements behind a first one up to where two neighbours are not as they should be, and
the rest. -/
def follow (goesOn : α → α → Bool) (x : α) : List α → List α × List α
  | [] => ([], [])
  | y :: ys =>
    if goesOn x y then
      let (run, rest) := follow goesOn y ys
      (y :: run, rest)
    else ([], y :: ys)

theorem follow_append (goesOn : α → α → Bool) (x : α) (xs : List α) :
    (follow goesOn x xs).1 ++ (follow goesOn x xs).2 = xs := by
  induction xs generalizing x with
  | nil => rfl
  | cons y ys ih =>
    rw [follow]
    split
    · exact congrArg (y :: ·) (ih y)
    · rfl

theorem length_follow_le (goesOn : α → α → Bool) (x : α) (xs : List α) :
    (follow goesOn x xs).2.length ≤ xs.length := by
  have happend := congrArg List.length (follow_append goesOn x xs)
  rw [List.length_append] at happend
  omega

/-- The part in front of a list that is in order, or that is when it is turned round, and the
rest. The first two elements decide which. -/
def naturalRun (less : α → α → Bool) (x : α) (xs : List α) : List α × List α :=
  let descends := xs.head?.any fun y => less y x
  let (run, rest) := follow (fun x y => less y x == descends) x xs
  (if descends then (x :: run).reverse else x :: run, rest)

theorem length_naturalRun_le (less : α → α → Bool) (x : α) (xs : List α) :
    (naturalRun less x xs).2.length ≤ xs.length :=
  length_follow_le _ x xs

/-- Cuts a list into runs: parts that are in order if they have a good length, and otherwise
what can be made of the elements that come next. -/
def cutRuns (less : α → α → Bool) (natural : List α → ρ) (other : List α → Option ρ)
    (good size : Nat) : List α → Option (List ρ)
  | [] => some []
  | x :: xs =>
    if good ≤ (naturalRun less x xs).1.length then do
      let runs ← cutRuns less natural other good size (naturalRun less x xs).2
      return natural (naturalRun less x xs).1 :: runs
    else do
      let run ← other (x :: xs.take (size - 1))
      let runs ← cutRuns less natural other good size (xs.drop (size - 1))
      return run :: runs
termination_by xs => xs.length
decreasing_by
  · exact Nat.lt_succ_of_le (length_naturalRun_le less x xs)
  · rw [List.length_drop, List.length_cons]
    omega

/-- The square root of a number, roughly. -/
def roughRoot (n : Nat) : Nat :=
  let shift := (1 + (n ||| 1).log2) / 2
  (1 <<< shift + n >>> shift) / 2

/-- The length from which on a part that is in order is worth a run of its own. -/
def goodLength (n : Nat) : Nat :=
  if n ≤ 4096 then min (n - n / 2) 64 else roughRoot n

/-! ### Merging runs -/

/-- How deep in the tree over a list of length `n` two neighbouring runs meet: the number of
leading binary digits that their midpoints have in common, on the scale of 63 digits. -/
def nodeDepth (n left middle right : Nat) : Nat :=
  let scale := ((1 <<< 62) + n - 1) / n
  let parting := (scale * (left + middle)) ^^^ (scale * (middle + right))
  if parting = 0 then 64 else 63 - parting.log2

/-- Merges a run with those in front of it, the last of which comes first, as long as they meet
deeper than at a given depth. -/
def collapse (join : ρ → ρ → Option ρ) (depth : Nat) :
    List (ρ × Nat) → ρ → Option (List (ρ × Nat) × ρ)
  | [], run => some ([], run)
  | (left, d) :: stack, run =>
    if depth ≤ d then do collapse join depth stack (← join left run)
    else some ((left, d) :: stack, run)

/-- Merges a run that begins at a given place with those in front of it and those behind it. -/
def mergeFrom (length : ρ → Nat) (join : ρ → ρ → Option ρ) (n : Nat) (stack : List (ρ × Nat))
    (start : Nat) (run : ρ) : List ρ → Option ρ
  | [] => do return (← collapse join 0 stack run).2
  | next :: rest => do
    let stop := start + length run
    let depth := nodeDepth n start stop (stop + length next)
    let (stack, run) ← collapse join depth stack run
    mergeFrom length join n ((run, depth) :: stack) stop next rest

/-- Merges the runs of a list of length `n`. -/
def mergeRuns (length : ρ → Nat) (join : ρ → ρ → Option ρ) (n : Nat) (empty : ρ) :
    List ρ → Option ρ
  | [] => some empty
  | run :: rest => mergeFrom length join n [] 0 run rest

/-- Merges two lists, from the end at which the shorter one is. -/
def merge (less : α → α → Bool) (xs ys : List α) : List α :=
  if xs.length ≤ ys.length then mergeUp less xs ys else mergeDown less xs ys

/-- Sorts a list by runs that are sorted at once. -/
def sortAtOnce (less : α → α → Bool) (xs : List α) : Option (List α) := do
  let runs ← cutRuns less id (sortByHalves less) (goodLength xs.length) 32 xs
  mergeRuns List.length (fun xs ys => some (merge less xs ys)) xs.length [] runs

/-! ### Sorting by pivots -/

/-- The one of three elements that stands between the others. -/
def medianOf (less : α → α → Bool) {xs : List α} (i j k : Fin xs.length) : Fin xs.length :=
  if less (xs.get i) (xs.get j) = less (xs.get i) (xs.get k) then
    if less (xs.get j) (xs.get k) = less (xs.get i) (xs.get j) then j else k
  else i

/-- An element that stands somewhere in the middle of a part of the list: the first one of a
short part, and else the median of such elements of three parts of it. -/
def pivotOf (less : α → α → Bool) (xs : List α) (start n : Nat) (h : start + n ≤ xs.length)
    (hn : 0 < n) : Fin xs.length :=
  if hlong : 8 ≤ n then
    medianOf less (pivotOf less xs start (n / 8) (by omega) (by omega))
      (pivotOf less xs (start + 4 * (n / 8)) (n / 8) (by omega) (by omega))
      (pivotOf less xs (start + 7 * (n / 8)) (n / 8) (by omega) (by omega))
  else ⟨start, by omega⟩

/-- The elements that go to one side of a pivot, and the others. The pivot itself is not
asked. -/
def part (goesLeft : α → Bool) (pivotLeft : Bool) (xs : List α) (i : Fin xs.length) :
    List α × List α :=
  let side (left : Bool) : List α :=
    (xs.take i).filter (fun x => goesLeft x == left) ++
      (if pivotLeft = left then [xs.get i] else []) ++
        (xs.drop (i + 1)).filter fun x => goesLeft x == left
  (side true, side false)

/-- Sorts a list by pivots, of which a limited number may be tried one within the other. Nothing
in the list is less than `floor?`, which is the last pivot that it was to the right of. If
nothing is less than the pivot either, the elements equal to it are done with. -/
def sortByPivots (less : α → α → Bool) (limit : Nat) (floor? : Option α) (xs : List α) :
    Option (List α) :=
  if h : xs.length ≤ 32 then sortByHalves less xs
  else match limit with
    | 0 => sortAtOnce less xs
    | limit + 1 =>
      let i := pivotOf less xs 0 xs.length (by omega) (by omega)
      let pivot := xs.get i
      let (below, others) := part (fun x => less x pivot) false xs i
      if floor?.any (fun floor => !less floor pivot) || below.isEmpty then do
        let (equal, above) := part (fun x => !less pivot x) true xs i
        return equal ++ (← sortByPivots less limit none above)
      else do
        let right ← sortByPivots less limit (some pivot) others
        let left ← sortByPivots less limit floor? below
        return left ++ right

/-! ### Runs that are sorted later -/

/-- A run, which is in order or not. -/
structure Run (α : Type) where
  elements : List α
  sorted : Bool

namespace Run

/-- The elements of a run in order. -/
def settle (less : α → α → Bool) (run : Run α) : Option (List α) :=
  if run.sorted then some run.elements
  else sortByPivots less (2 * (run.elements.length ||| 1).log2) none run.elements

/-- Two runs in one. They are merged if one of them is in order or there is no room for sorting
them together. -/
def join (less : α → α → Bool) (room : Nat) (left right : Run α) : Option (Run α) :=
  if left.sorted || right.sorted || room < left.elements.length + right.elements.length then do
    return ⟨merge less (← left.settle less) (← right.settle less), true⟩
  else some ⟨left.elements ++ right.elements, false⟩

end Run

/-- The room for sorting a list of length `n`. -/
def room (n : Nat) : Nat :=
  max 128 (max (n - n / 2) (min n 250000))

/-- Sorts a list by runs that are sorted when they are merged. -/
def sortByRuns (less : α → α → Bool) (xs : List α) : Option (List α) := do
  let good := goodLength xs.length
  let runs ← cutRuns less (⟨·, true⟩) (some ⟨·, false⟩) good good xs
  let whole ← mergeRuns (·.elements.length) (Run.join less (room xs.length)) xs.length
    ⟨[], true⟩ runs
  whole.settle less

/-! ### Sorting -/

/-- Sorts a list in the way that suits its length. -/
def sortMembers (less : α → α → Bool) (xs : List α) : Option (List α) :=
  if xs.length ≤ 20 then some (stableSort less xs)
  else if xs.length ≤ 64 then sortAtOnce less xs
  else sortByRuns less xs

/-- Sorts a list, or breaks off where the comparison turns out not to be an order. The elements
are compared as members of the list; what a comparison is like elsewhere is of no account. -/
def sort (less : α → α → Bool) (xs : List α) : Option (List α) :=
  (sortMembers (fun x y : { x // x ∈ xs } => less x y) xs.attach).map (List.map Subtype.val)

end ObjectQuery.Sorting
