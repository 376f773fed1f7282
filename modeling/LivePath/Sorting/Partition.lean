import LivePath.Sorting.Runs

/-!
# Sorting by partition

A long list is split around one of its items into those that have to stand before it and the others,
all in their old order, and the parts are sorted on their own. Items that equal the pivot are set
aside at once where many of them are to be expected.
-/

namespace LivePath

variable {α : Type} {m : Type → Type} [Monad m]

def medianOfThreeM (less : Nat → Nat → m Bool) (i j k : Nat) : m Nat := do
  let below ← less i j
  if (← less i k) = below then return if (← less j k) = below then j else k
  else return i

/-- The place of an item near the median. Each of three places stands for `size` items, and is
replaced by a median of some of them if there are enough. -/
def medianM (less : Nat → Nat → m Bool) (i j k size : Nat) : m Nat :=
  if size < 8 then medianOfThreeM less i j k
  else do
    let part := size / 8
    let i ← medianM less i (i + 4 * part) (i + 7 * part) part
    let j ← medianM less j (j + 4 * part) (j + 7 * part) part
    let k ← medianM less k (k + 4 * part) (k + 7 * part) part
    medianOfThreeM less i j k
termination_by size

def pivotPlaceM (less : α → α → m Bool) (xs : List α) : m Nat :=
  let part := xs.length / 8
  let lessAt (i j : Nat) : m Bool :=
    match xs[i]?, xs[j]? with
    | some x, some y => less x y
    | _, _ => return false
  medianM lessAt 0 (4 * part) (7 * part) part

/-- The items that `p` says go to the left, and the others. -/
def splitM (p : α → m Bool) : List α → m (List α × List α)
  | [] => return ([], [])
  | x :: xs => do
    let left ← p x
    let (ls, rs) ← splitM p xs
    return if left then (x :: ls, rs) else (ls, x :: rs)

/--
Sorts a list by partition. All items are known to be no less than `bound`, if there is one. The
number of splits on top of each other is limited; a list that is not short by then is sorted by
runs.
-/
def partitionSortM [MonadExcept Disorder m] (less : α → α → m Bool) :
    Nat → Option α → List α → m (List α)
  | 0, _, xs => if xs.length ≤ shortLength then shortSortM less xs else eagerSortM less xs
  | splits + 1, bound, xs =>
    if xs.length ≤ shortLength then shortSortM less xs
    else do
      let place ← pivotPlaceM less xs
      match xs.drop place with
      | [] => eagerSortM less xs
      | pivot :: behind =>
        let least ← match bound with
          | none => pure false
          | some b => pure !(← less b pivot)
        let (left, right) ←
          if least then pure ([], xs)
          else do
            let (l, r) ← splitM (less · pivot) (xs.take place)
            let (l', r') ← splitM (less · pivot) behind
            pure (l ++ l', r ++ pivot :: r')
        if left.isEmpty then
          -- Nothing is less than the pivot, so that its equals are in place at once.
          let notGreater (x : α) : m Bool := return !(← less pivot x)
          let (l, r) ← splitM notGreater (xs.take place)
          let (l', r') ← splitM notGreater behind
          return l ++ pivot :: l' ++ (← partitionSortM less splits none (r ++ r'))
        else
          let right ← partitionSortM less splits (some pivot) right
          return (← partitionSortM less splits bound left) ++ right

end LivePath
