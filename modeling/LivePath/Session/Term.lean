import LivePath.Session.World

/-!
# Terms

Commands denote values by terms. A term is evaluated when its command runs: names stand for what
they mean then, and a list is a new array each time.
-/

namespace LivePath

/-- A denotation of a value. No term denotes an object that has no name. -/
inductive Term where
  | bool (b : Bool)
  | int (n : Int64)
  | float (x : Binary64)
  | str (s : String)
  /-- A new array. -/
  | list (items : List Term)
  /-- The object of that name. -/
  | reference (name : String)
  deriving Inhabited

namespace World
variable {F : Type} [Foreign F]

mutual

def evaluate (w : World F) : Term → Except Failure (Value × World F)
  | .bool b => .ok (.bool b, w)
  | .int n => .ok (.int n, w)
  | .float x => .ok (.float x, w)
  | .str s => .ok (.str s, w)
  | .reference name =>
    match w.value name with
    | .ok v => .ok (v, w)
    | .error e => .error e
  | .list items =>
    match evaluateList w items with
    | .ok (values, w) => .ok (.array (w.addArray values).1, (w.addArray values).2)
    | .error e => .error e

def evaluateList (w : World F) : List Term → Except Failure (List Value × World F)
  | [] => .ok ([], w)
  | t :: ts =>
    match evaluate w t with
    | .error e => .error e
    | .ok (v, w) =>
      match evaluateList w ts with
      | .error e => .error e
      | .ok (vs, w) => .ok (v :: vs, w)

end

def evaluatePairs (w : World F) (pairs : List (String × Term)) :
    Except Failure (List (String × Value) × World F) :=
  match w.evaluateList (pairs.map (·.2)) with
  | .ok (values, w) => .ok ((pairs.map (·.1)).zip values, w)
  | .error e => .error e

def evaluateOption (w : World F) : Option Term → Except Failure (Option Value × World F)
  | none => .ok (none, w)
  | some t =>
    match w.evaluate t with
    | .ok (v, w) => .ok (some v, w)
    | .error e => .error e

def evaluateOptions (w : World F) :
    List (Option Term) → Except Failure (List (Option Value) × World F)
  | [] => .ok ([], w)
  | t :: ts =>
    match w.evaluateOption t with
    | .error e => .error e
    | .ok (v, w) =>
      match w.evaluateOptions ts with
      | .error e => .error e
      | .ok (vs, w) => .ok (v :: vs, w)

def evaluateRotations (w : World F) :
    List (String × List (Option Term)) →
      Except Failure (List (String × List (Option Value)) × World F)
  | [] => .ok ([], w)
  | (name, ts) :: fields =>
    match w.evaluateOptions ts with
    | .error e => .error e
    | .ok (vs, w) =>
      match w.evaluateRotations fields with
      | .error e => .error e
      | .ok (rest, w) => .ok ((name, vs) :: rest, w)

end World

end LivePath
