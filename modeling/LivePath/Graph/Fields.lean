import LivePath.Value

/-!
# Fields

The named attributes of a model. A name has at most one value; assigning a value that is strictly
equal to the one in place leaves that one in place.
-/

namespace LivePath

/-- Attribute values by name, each name once. -/
structure Fields where
  pairs : List (String × Value) := []
  deriving Repr

namespace Fields

instance : Inhabited Fields := ⟨{}⟩

def get? (f : Fields) (name : String) : Option Value :=
  f.pairs.lookup name

def size (f : Fields) : Nat :=
  f.pairs.length

/-- The pairs with the value of `name` replaced, or with a new pair at the end. -/
def putPair (name : String) (v : Value) : List (String × Value) → List (String × Value)
  | [] => [(name, v)]
  | (n, w) :: pairs => if n = name then (n, v) :: pairs else (n, w) :: putPair name v pairs

def put (f : Fields) (name : String) (v : Value) : Fields :=
  ⟨putPair name v f.pairs⟩

def erase (f : Fields) (name : String) : Fields :=
  ⟨f.pairs.filter (·.1 ≠ name)⟩

/-- The fields with the given initial values, the last one where a name is repeated. -/
def ofList (pairs : List (String × Value)) : Fields :=
  pairs.foldl (fun f p => f.put p.1 p.2) {}

/-- Whether assigning `v` would change the attribute, be it only to a value that is not strictly
equal. -/
def changesBy (f : Fields) (name : String) (v : Value) : Bool :=
  !(f.get? name).any (·.same v)

/-- Assigns the pairs from left to right, and lists the names that changed, each once, by their
first change. -/
def assign (f : Fields) (changed : List String) : List (String × Value) → Fields × List String
  | [] => (f, changed)
  | (name, v) :: pairs =>
    if f.changesBy name v then
      (f.put name v).assign (if name ∈ changed then changed else changed ++ [name]) pairs
    else f.assign changed pairs

theorem lookup_pair (n m : String) (v : Value) (pairs : List (String × Value)) :
    ((m, v) :: pairs).lookup n = if n = m then some v else pairs.lookup n := by
  by_cases h : n = m
  · simp [h]
  · simp [List.lookup_cons, h, beq_eq_false_iff_ne.mpr h]

theorem lookup_putPair (name n : String) (v : Value) (pairs : List (String × Value)) :
    (putPair name v pairs).lookup n = if n = name then some v else pairs.lookup n := by
  induction pairs with
  | nil => simp [putPair, lookup_pair]
  | cons p pairs ih =>
    obtain ⟨m, w⟩ := p
    by_cases hm : m = name
    · by_cases h : n = name <;> simp [putPair, hm, lookup_pair, h]
    · by_cases hn : n = m
      · simp [putPair, hm, hn]
      · simp [putPair, hm, lookup_pair, hn, ih]

@[simp] theorem get?_put (f : Fields) (name n : String) (v : Value) :
    (f.put name v).get? n = if n = name then some v else f.get? n :=
  lookup_putPair name n v f.pairs

@[simp] theorem get?_erase (f : Fields) (name n : String) :
    (f.erase name).get? n = if n = name then none else f.get? n := by
  obtain ⟨pairs⟩ := f
  simp only [erase, get?]
  induction pairs with
  | nil => simp
  | cons p pairs ih =>
    obtain ⟨m, w⟩ := p
    by_cases hm : m = name
    · by_cases h : n = name
      · rw [if_pos h] at ih ⊢
        simpa [hm] using ih
      · rw [if_neg h] at ih ⊢
        simpa [hm, lookup_pair, h] using ih
    · by_cases hn : n = m
      · simp [hm, hn]
      · simpa [hm, lookup_pair, hn] using ih

end Fields

end LivePath
