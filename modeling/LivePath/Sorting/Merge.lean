import LivePath.Sorting.Insertion

/-!
# Merging

Two sorted lists are merged from the front, from the back, or from both ends at once. Of equal items
those of the first list go in front, which keeps the merge stable. `less x y` asks whether `x` has
to stand before `y`; it may have effects, and a question is asked only where it is written.

The two ends may be told different things by answers that no order accounts for. Where they do not
meet, merging gives up with a `Disorder`.
-/

namespace LivePath

/-- Items were compared inconsistently, and what was made of the answers is of no use. -/
structure Disorder where
  deriving DecidableEq, Repr

def Disorder.message (_ : Disorder) : String :=
  "user-provided comparison function does not correctly implement a total order"

variable {α : Type} {m : Type → Type} [Monad m]

/-- Merges two lists. Of the items in front, `first` tells whether that of the first list is
next. -/
def mergeByM (first : α → α → m Bool) : List α → List α → m (List α)
  | [], ys => return ys
  | xs, [] => return xs
  | x :: xs, y :: ys => do
    if ← first x y then return x :: (← mergeByM first xs (y :: ys))
    else return y :: (← mergeByM first (x :: xs) ys)
termination_by xs ys => xs.length + ys.length

/-- Merges two sorted lists, from the front if the first is no longer than the second, and else from
the back. -/
def mergeM (less : α → α → m Bool) (xs ys : List α) : m (List α) := do
  if xs.length ≤ ys.length then mergeByM (fun x y => return !(← less y x)) xs ys
  else return (← mergeByM (fun x y => less y x) xs.reverse ys.reverse).reverse

/-- Takes an item from the front of one of two lists. Where only one has items, nothing is asked. -/
def takeOneM (first : α → α → m Bool) : List α → List α → m (List α × List α × List α)
  | [], ys => return (ys.take 1, [], ys.drop 1)
  | x :: xs, [] => return ([x], xs, [])
  | x :: xs, y :: ys => do
    if ← first x y then return ([x], xs, y :: ys) else return ([y], x :: xs, ys)

/--
Merges `n` items from the front and `n` from the back, in turns, and puts between them what neither
has taken. The fronts of the lists are `xs` and `ys`, and `sx` and `sy` are the same lists from the
back, so that an item may be asked about at one end after it was taken at the other. The lists have
`left` and `right` items. If more were taken of one of them, some were taken at both ends.
-/
def mergeEndsM [MonadExcept Disorder m] (less : α → α → m Bool) (left right : Nat) :
    Nat → List α → List α → List α → List α → m (List α)
  | 0, xs, ys, sx, sy =>
    if left ≤ xs.length + sx.length ∧ right ≤ ys.length + sy.length then
      return xs.take (xs.length + sx.length - left) ++ ys.take (ys.length + sy.length - right)
    else throw Disorder.mk
  | n + 1, xs, ys, sx, sy => do
    let (front, xs, ys) ← takeOneM (fun x y => return !(← less y x)) xs ys
    let (back, sx, sy) ← takeOneM (fun x y => less y x) sx sy
    return front ++ (← mergeEndsM less left right n xs ys sx sy) ++ back

/-- Merges two sorted lists of the same length, or the second longer by one item, from both ends. -/
def mergeBothWaysM [MonadExcept Disorder m] (less : α → α → m Bool) (xs ys : List α) : m (List α) :=
  mergeEndsM less xs.length ys.length xs.length xs ys xs.reverse ys.reverse

/-- Sorts four items by five questions: two about pairs, two about the ends, and one about the
middle. -/
def sortFourM (less : α → α → m Bool) (a b c d : α) : m (List α) := do
  let (a, b) := if ← less b a then (b, a) else (a, b)
  let (c, d) := if ← less d c then (d, c) else (c, d)
  let cFirst ← less c a
  let bLast ← less d b
  let (first, left) := if cFirst then (c, a) else (a, if bLast then c else b)
  let (last, right) := if bLast then (b, d) else (d, if cFirst then b else c)
  if ← less right left then return [first, right, left, last] else return [first, left, right, last]

/-- Sorts a beginning of four items at once; of a shorter one nothing is asked. -/
def sortStartM (less : α → α → m Bool) : List α → m (List α)
  | [a, b, c, d] => sortFourM less a b c d
  | xs => return xs

/-- The greatest length of a list that is sorted by halves. -/
def shortLength : Nat := 32

/-- Sorts a short list: both halves by insertion, from a start of four items if they have as many,
and a merge. -/
def shortSortM [MonadExcept Disorder m] (less : α → α → m Bool) (xs : List α) : m (List α) := do
  let (left, right) := xs.splitAt (xs.length / 2)
  let start := if 8 ≤ xs.length then 4 else 1
  let leftStart ← sortStartM less (left.take start)
  let rightStart ← sortStartM less (right.take start)
  let left ← insertAllM less leftStart (left.drop start)
  let right ← insertAllM less rightStart (right.drop start)
  mergeBothWaysM less left right

end LivePath
