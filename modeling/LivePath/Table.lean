/-!
# Tables

A table holds an entry for every number, all but finitely many of them the default one. Reading
never fails, and writing behind the end fills the gap with default entries.
-/

namespace LivePath

/-- Entries by number; what is not stored is the default. -/
structure Table (α : Type) where
  entries : List α := []
  deriving Repr

namespace Table
variable {α : Type} [Inhabited α]

instance : Inhabited (Table α) := ⟨{}⟩

def get (t : Table α) (i : Nat) : α :=
  t.entries.getD i default

/-- The list with `a` at place `i`, made long enough. -/
def place (a : α) : Nat → List α → List α
  | 0, [] => [a]
  | 0, _ :: xs => a :: xs
  | i + 1, [] => default :: place a i []
  | i + 1, x :: xs => x :: place a i xs

def set (t : Table α) (i : Nat) (a : α) : Table α :=
  ⟨place a i t.entries⟩

def modify (t : Table α) (i : Nat) (f : α → α) : Table α :=
  t.set i (f (t.get i))

/-- The first number that nothing was ever stored under. -/
def next (t : Table α) : Nat :=
  t.entries.length

/-- Stores `a` under the next number. -/
def push (t : Table α) (a : α) : Table α :=
  ⟨t.entries ++ [a]⟩

theorem getD_place_self (a : α) (i : Nat) (xs : List α) : (place a i xs).getD i default = a := by
  induction i generalizing xs with
  | zero => cases xs <;> rfl
  | succ i ih => cases xs <;> simpa [place] using ih _

theorem getD_place_ne (a : α) {i j : Nat} (h : j ≠ i) (xs : List α) :
    (place a i xs).getD j default = xs.getD j default := by
  induction i generalizing xs j with
  | zero => cases j <;> cases xs <;> simp_all [place]
  | succ i ih =>
    cases j with
    | zero => cases xs <;> rfl
    | succ j =>
      have hj : j ≠ i := fun e => h (by rw [e])
      cases xs with
      | nil => simpa [place] using ih hj []
      | cons x xs => simpa [place] using ih hj xs

@[simp] theorem get_set_self (t : Table α) (i : Nat) (a : α) : (t.set i a).get i = a :=
  getD_place_self a i t.entries

theorem get_set_ne (t : Table α) {i j : Nat} (h : j ≠ i) (a : α) : (t.set i a).get j = t.get j :=
  getD_place_ne a h t.entries

theorem get_set (t : Table α) (i j : Nat) (a : α) :
    (t.set i a).get j = if j = i then a else t.get j := by
  split
  · next h => rw [h, get_set_self]
  · next h => exact t.get_set_ne h a

/-- Writing changes nothing that the new entry agrees on with the old one. -/
theorem apply_get_set {β : Type} (f : α → β) {t : Table α} {i : Nat} {a : α} (h : f a = f (t.get i))
    (j : Nat) :
    f ((t.set i a).get j) = f (t.get j) := by
  rw [get_set]
  split
  · next hj => rw [hj, h]
  · rfl

@[simp] theorem get_push_next (t : Table α) (a : α) : (t.push a).get t.next = a := by
  simp [get, push, next]

theorem get_push_ne (t : Table α) {i : Nat} (h : i ≠ t.next) (a : α) :
    (t.push a).get i = t.get i := by
  simp only [get, push, next] at *
  rcases Nat.lt_or_gt_of_ne h with hi | hi
  · simp [List.getD_eq_getElem?_getD, List.getElem?_append_left hi]
  · rw [List.getD_eq_getElem?_getD, List.getD_eq_getElem?_getD,
      List.getElem?_eq_none (by simp; omega), List.getElem?_eq_none (Nat.le_of_lt hi)]

theorem length_place (a : α) (i : Nat) (xs : List α) :
    (place a i xs).length = max (i + 1) xs.length := by
  induction i generalizing xs with
  | zero => cases xs <;> simp [place]
  | succ i ih => cases xs <;> simp [place, ih]

theorem next_set (t : Table α) (i : Nat) (a : α) : (t.set i a).next = max (i + 1) t.next :=
  length_place a i t.entries

theorem next_le_set (t : Table α) (i : Nat) (a : α) : t.next ≤ (t.set i a).next := by
  rw [next_set]; omega

theorem next_set_of_lt (t : Table α) {i : Nat} (h : i < t.next) (a : α) :
    (t.set i a).next = t.next := by
  rw [next_set]; omega

omit [Inhabited α] in
@[simp] theorem next_push (t : Table α) (a : α) : (t.push a).next = t.next + 1 := by
  simp [next, push]

theorem get_of_next_le (t : Table α) {i : Nat} (h : t.next ≤ i) : t.get i = default :=
  by simp [get, List.getD_eq_getElem?_getD, List.getElem?_eq_none h]

theorem place_getD {i : Nat} {xs : List α} (h : i < xs.length) :
    place (xs.getD i default) i xs = xs := by
  induction xs generalizing i with
  | nil => exact absurd h (Nat.not_lt_zero i)
  | cons x xs ih =>
    cases i with
    | zero => rfl
    | succ i => exact congrArg (x :: ·) (ih (Nat.lt_of_succ_lt_succ h))

/-- Storing what is stored already changes nothing. -/
theorem set_get (t : Table α) {i : Nat} (h : i < t.next) : t.set i (t.get i) = t :=
  congrArg Table.mk (place_getD h)

end Table

end LivePath
