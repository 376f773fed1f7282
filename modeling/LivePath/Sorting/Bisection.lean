/-!
# Bisection

`partitionPointM` finds by halving where a list changes from items of which a question is answered
with yes to items of which it is not. The question may have effects, and is asked about the item in
the middle of what is left each time.
-/

namespace LivePath

variable {α : Type} {m : Type → Type} [Monad m]

def holdsAtM (p : α → m Bool) (xs : List α) (i : Nat) : m Bool :=
  match xs[i]? with
  | none => return false
  | some x => p x

/-- Halves a stretch of the list, beginning at `base`, down to one item. -/
def narrowM (p : α → m Bool) (xs : List α) (base size : Nat) : m Nat :=
  if size ≤ 1 then return base
  else do
    let holds ← holdsAtM p xs (base + size / 2)
    narrowM p xs (if holds then base + size / 2 else base) (size - size / 2)
termination_by size

/-- The number of items in front of which `p` holds, the last question being about the one item
left. -/
def partitionPointM (p : α → m Bool) (xs : List α) : m Nat := do
  let base ← narrowM p xs 0 xs.length
  return if ← holdsAtM p xs base then base + 1 else base

end LivePath
