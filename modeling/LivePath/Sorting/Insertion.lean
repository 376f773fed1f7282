/-!
# Stable sorting by insertion

Each item is put behind the earlier items that are not greater, so equal items keep their order.
Comparing may have effects. So it matters which items are compared, and in which order: each new
item is compared with the ones before it from the greatest down.
-/

namespace LivePath

variable {α : Type} {m : Type → Type} [Monad m]

/-- Puts `x` into a list that is kept backwards, past the items that it comes before, and no
further. -/
def insertBackM (less : α → α → m Bool) (x : α) : List α → m (List α)
  | [] => return [x]
  | y :: ys => do
    if ← less x y then return y :: (← insertBackM less x ys) else return x :: y :: ys

def insertAllM (less : α → α → m Bool) (sorted xs : List α) : m (List α) := do
  return (← xs.foldlM (fun back x => insertBackM less x back) sorted.reverse).reverse

end LivePath
