/-!
# Sorting short lists

A short list is sorted by insertion, which takes any comparison. A list that is a little longer
is cut in the middle, the halves are sorted by insertion, the first four elements of each by a
fixed scheme of comparisons, and then they are **merged from both ends at once**. Such a merge
makes as many steps as there are elements in the smaller half from the front and as many from
the back, without asking whether a half is used up. It relies on the comparison being an order:
then what is drawn in front and what is drawn at the back fit together, and what is left over
between them is one element at most. Where they overlap, the merge **breaks off** without a
result.
-/

namespace ObjectQuery.Sorting

variable {α : Type}

/-! ### Insertion -/

/-- Puts an element in its place among sorted ones, the last of which comes first. It
moves past every element that it is less than and stops at the first that it is not,
so that it stays behind those it is equal to. -/
def insertFromEnd (less : α → α → Bool) (x : α) : List α → List α
  | [] => [x]
  | y :: ys => if less x y then y :: insertFromEnd less x ys else x :: y :: ys

/-- Puts elements, one after the other, in their places among sorted ones. -/
def insertAll (less : α → α → Bool) (sorted xs : List α) : List α :=
  (xs.foldl (fun sorted x => insertFromEnd less x sorted) sorted.reverse).reverse

/-- Sorts a list; elements neither of which is less than the other keep their order. -/
def stableSort (less : α → α → Bool) (xs : List α) : List α :=
  insertAll less [] xs

theorem insertFromEnd_perm (less : α → α → Bool) (x : α) (xs : List α) :
    (insertFromEnd less x xs).Perm (x :: xs) := by
  induction xs with
  | nil => exact .refl _
  | cons y ys ih =>
    rw [insertFromEnd]
    split
    · exact (ih.cons y).trans (.swap x y ys)
    · exact .refl _

theorem insertAll_perm (less : α → α → Bool) (sorted xs : List α) :
    (insertAll less sorted xs).Perm (sorted ++ xs) := by
  have fold : ∀ sorted : List α,
      (xs.foldl (fun sorted x => insertFromEnd less x sorted) sorted).Perm (sorted ++ xs) := by
    induction xs with
    | nil => exact fun sorted => .of_eq (List.append_nil _).symm
    | cons x xs ih =>
      intro sorted
      refine (ih _).trans (((insertFromEnd_perm less x sorted).append_right xs).trans ?_)
      exact List.perm_middle.symm
  exact (List.reverse_perm _).trans ((fold _).trans ((List.reverse_perm _).append_right xs))

/-- Sorting neither loses nor repeats an element. -/
theorem stableSort_perm (less : α → α → Bool) (xs : List α) :
    (stableSort less xs).Perm xs :=
  insertAll_perm less [] xs

/-! ### Merging -/

/-- Merges two lists from the front: an element of the second list goes first only if it is
less. -/
def mergeUp (less : α → α → Bool) (xs ys : List α) : List α :=
  xs.merge ys fun x y => !less y x

/-- Merges two lists from the back: an element of the first list goes last only if the other one
is less. -/
def mergeDown (less : α → α → Bool) (xs ys : List α) : List α :=
  (mergeUp (fun x y => less y x) ys.reverse xs.reverse).reverse

/-- Draws a number of elements from the fronts of two lists, as merging does, and counts those
that come from the first list. -/
def draw (less : α → α → Bool) : Nat → List α → List α → List α × Nat
  | 0, _, _ => ([], 0)
  | n + 1, x :: xs, y :: ys =>
    if less y x then
      let (drawn, count) := draw less n (x :: xs) ys
      (y :: drawn, count)
    else
      let (drawn, count) := draw less n xs (y :: ys)
      (x :: drawn, count + 1)
  | _ + 1, _, _ => ([], 0)

/-- Merges two lists from both ends at once, if what is drawn in front and what is drawn at the
back do not overlap. The second list is as long as the first one, or longer by one element. -/
def mergeEnds (less : α → α → Bool) (xs ys : List α) : Option (List α) :=
  let n := xs.length
  let (front, i) := draw less n xs ys
  let (back, j) := draw (fun x y => less y x) n ys.reverse xs.reverse
  if i ≤ j ∧ n - i ≤ ys.length - j then
    some (front ++ (xs.take j).drop i ++ (ys.take (ys.length - j)).drop (n - i) ++ back.reverse)
  else
    none

/-! ### Halves -/

/-- Merges two pairs: first the smaller and the greater elements of the pairs are compared, then
the two that are left. -/
def mergePairs (less : α → α → Bool) (a b c d : α) : List α :=
  let first := if less c a then c else a
  let last := if less d b then b else d
  let left := if less c a then a else if less d b then c else b
  let right := if less d b then d else if less c a then b else c
  if less right left then [first, right, left, last] else [first, left, right, last]

/-- Sorts four elements with five comparisons. -/
def sortFour (less : α → α → Bool) (w x y z : α) : List α :=
  let (a, b) := if less x w then (x, w) else (w, x)
  let (c, d) := if less z y then (z, y) else (y, z)
  mergePairs less a b c d

/-- Sorts a half, starting with its first four elements if they are to be sorted by themselves. -/
def sortHalf (less : α → α → Bool) (byFour : Bool) (xs : List α) : List α :=
  match byFour, xs with
  | true, w :: x :: y :: z :: rest => insertAll less (sortFour less w x y z) rest
  | _, xs => stableSort less xs

/-- Sorts a list of no more than some thirty elements by its halves. -/
def sortByHalves (less : α → α → Bool) (xs : List α) : Option (List α) :=
  if xs.length < 2 then some xs
  else
    let byFour := decide (8 ≤ xs.length)
    mergeEnds less (sortHalf less byFour (xs.take (xs.length / 2)))
      (sortHalf less byFour (xs.drop (xs.length / 2)))

end ObjectQuery.Sorting
