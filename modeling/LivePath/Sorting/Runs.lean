import LivePath.Sorting.Merge

/-!
# Merging runs

A list is cut into runs, which are merged as the leaves of a tree: between two adjacent runs there
is a node, and a node that lies deeper is merged before one above it. Where a list is sorted
already, either way, it is left as one run; elsewhere runs are made, which may put off being sorted.
-/

namespace LivePath

variable {α : Type} {m : Type → Type} [Monad m]

/-- A stretch of a list that is sorted, or is to be sorted later. -/
inductive Run (α : Type) where
  | sorted (items : List α)
  | raw (items : List α)

namespace Run

def items : Run α → List α
  | sorted items => items
  | raw items => items

def length (r : Run α) : Nat :=
  r.items.length

def settleM (sort : List α → m (List α)) : Run α → m (List α)
  | sorted items => return items
  | raw items => sort items

/-- Joins two adjacent runs. Only if both are still to be sorted, the joint run is so too. -/
def joinM (less : α → α → m Bool) (sort : List α → m (List α)) : Run α → Run α → m (Run α)
  | raw xs, raw ys => return raw (xs ++ ys)
  | left, right => do
    let xs ← left.settleM sort
    let ys ← right.settleM sort
    return sorted (← mergeM less xs ys)

end Run

/-- The number of items in front that go on from `x` as a run does, `down` or not. -/
def runsOnM (less : α → α → m Bool) (down : Bool) (x : α) : List α → m Nat
  | [] => return 0
  | y :: ys => do
    if (← less y x) = down then return (← runsOnM less down y ys) + 1 else return 0

/-- The length of the run that a list begins with, and whether it goes down, each item being less
than the last. -/
def firstRunM (less : α → α → m Bool) : List α → m (Nat × Bool)
  | x :: y :: ys => do
    let down ← less y x
    return ((← runsOnM less down y ys) + 2, down)
  | xs => return (xs.length, false)

/-- The least length at which a run among `n` items is worth keeping. -/
def goodLength (n : Nat) : Nat :=
  if n ≤ 64 * 64 then min (n - n / 2) 64
  else
    -- About the square root of `n`, by one step of approximation.
    let root := 1 <<< ((1 + n.log2) / 2)
    (root + n / root) / 2

/-- The next run: the one that the list begins with if that is long enough, or else one that `make`
provides. -/
def nextRunM (less : α → α → m Bool) (good : Nat) (make : List α → m (Run α))
    (xs : List α) : m (Run α) := do
  if good ≤ xs.length then
    let (n, down) ← firstRunM less xs
    if good ≤ n then return .sorted (if down then (xs.take n).reverse else xs.take n) else make xs
  else make xs

/--
The depth of the node between two adjacent runs of `n` items, the first from `start` to `middle` and
the second from there to `stop`: the number of leading binary digits in which the centres of the two
agree, as fractions of `n`.
-/
def nodeDepth (n start middle stop : Nat) : Nat :=
  let scale := (1 <<< 62 + n - 1) / n
  let differing := (scale * (start + middle)) ^^^ (scale * (middle + stop))
  if differing = 0 then 64 else 63 - differing.log2

/-- Joins the last run with pending ones whose nodes are no less deep than `depth`. -/
def collapseM (less : α → α → m Bool) (sort : List α → m (List α)) (depth : Nat) :
    List (Run α × Nat) → Run α → m (Run α × List (Run α × Nat))
  | [], last => return (last, [])
  | (run, d) :: pending, last => do
    if depth ≤ d then collapseM less sort depth pending (← run.joinM less sort last)
    else return (last, (run, d) :: pending)

/-- Cuts the rest of `n` items into runs and joins them. In front of the rest there is `last`, and
before that are the pending runs, the nearest first, each with the depth of the node behind it. -/
def joinRunsM (less : α → α → m Bool) (sort : List α → m (List α)) (next : List α → m (Run α))
    (n : Nat) (last : Run α) (pending : List (Run α × Nat)) : List α → m (Run α)
  | [] => return (← collapseM less sort 0 pending last).1
  | x :: xs => do
    let run ← next (x :: xs)
    let place := n - (x :: xs).length
    let depth := nodeDepth n (place - last.length) place (place + run.length)
    let (last, pending) ← collapseM less sort depth pending last
    joinRunsM less sort next n run ((last, depth) :: pending) (xs.drop (run.length - 1))
termination_by xs => xs.length
decreasing_by simp only [List.length_drop, List.length_cons]; omega

/-- Sorts a list by runs. Where it has no good one, `make` makes one, and `sort` sorts what was put
off. -/
def runSortM (less : α → α → m Bool) (make : List α → m (Run α)) (sort : List α → m (List α))
    (xs : List α) : m (List α) := do
  let next := nextRunM less (goodLength xs.length) make
  let run ← next xs
  (← joinRunsM less sort next xs.length run [] (xs.drop run.length)).settleM sort

/-- Sorts a list by runs that are sorted as soon as they are made, so that none is put off. -/
def eagerSortM [MonadExcept Disorder m] (less : α → α → m Bool) : List α → m (List α) :=
  runSortM less (fun xs => return .sorted (← shortSortM less (xs.take shortLength)))
    (insertAllM less [])

end LivePath
