import LivePath.Sorting.Partition

/-!
# Stable sorting for any length

A list is sorted by insertion if it is very short, by runs of a short length if it is not much
longer, and else by runs and partition. The outcome for a consistent order is the same each time;
what differs is which questions are asked. For answers that contradict each other there may be no
outcome but a `Disorder`, unless the list is very short.
-/

namespace LivePath

variable {α : Type} {m : Type → Type} [Monad m] [MonadExcept Disorder m]

/-- Sorts items stably, asking for their order. -/
def sortM (order : α → α → m Ordering) (xs : List α) : m (List α) :=
  let less (x y : α) : m Bool := return decide ((← order x y) = .lt)
  if xs.length ≤ 20 then insertAllM less [] xs
  else if xs.length ≤ 2 * shortLength then eagerSortM less xs
  else
    let putOff (rest : List α) : m (Run α) := return .raw (rest.take (goodLength xs.length))
    let sort (items : List α) : m (List α) := partitionSortM less (2 * items.length.log2) none items
    runSortM less putOff sort xs

end LivePath
