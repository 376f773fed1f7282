import LivePath.Numeric.Shortest
import LivePath.Session.World
import LivePath.Text.Quoted

/-!
# Diagnostic texts

One line about the state of a tracker or an object, for people who look for a fault. References to
models and collections are not followed.
-/

namespace LivePath

/-- Diagnostic texts write numbers around a point between `0.0001` and `10 ^ 16`. -/
def diagnosticStyle : DecimalStyle :=
  { least := -4, limit := 16, plus := false, evenTies := false }

/-- A name with fields in braces. -/
def braced (name : String) (fields : List String) : String :=
  name ++ " \x7b " ++ ", ".intercalate fields ++ " \x7d"

def Phase.name : Phase → String
  | bound => "Bound"
  | rebinding => "Rebinding"
  | disposed => "Disposed"

namespace World
variable {F : Type}

/-- A value; `depth` bounds how far arrays are looked into. -/
def describeValue (w : World F) : Nat → Value → String
  | _, .bool b => s!"Bool({b})"
  | _, .int n => s!"Int({n.toInt})"
  | _, .float x => s!"Float({x.write diagnosticStyle})"
  | _, .str s => s!"Str({quoted s})"
  | 0, .array _ => "Array([..])"
  | depth + 1, .array a =>
    "Array([" ++ ", ".intercalate ((w.graph.arrays.get a).map (w.describeValue depth)) ++ "])"
  | _, .model _ => "Model(..)"
  | _, .collection _ => "Collection(..)"

/-- A value with all its arrays, which can only hold older ones. -/
def describe (w : World F) (v : Value) : String :=
  w.describeValue w.graph.arrays.next v

def describeRegistry {τ α : Type} (r : Registry τ α) : String :=
  braced "Dispatcher" [s!"len: {r.size}", ".."]

def describeTracker (w : World F) (t : Tracker) : String :=
  let last := match t.last with
    | none => "None"
    | some v => s!"Some({w.describe v})"
  braced "ChangeTracker"
    [s!"path: {t.accessor.render}", s!"last: {last}", s!"records: {t.records.length}",
      s!"state: {t.phase.name}"]

def describeObject (w : World F) (o : ObjectId) : String :=
  let listeners := s!"listeners: {describeRegistry (w.graph.registries.get o)}"
  match w.graph.objects.get o with
  | .model fields => braced "Model" [s!"attrs: {fields.size}", listeners]
  | .collection items ranking =>
    let inside := ", ".intercalate (items.map w.describe)
    braced "Collection" [s!"items: [{inside}]", s!"sorted: {ranking.isSome}", listeners]
  | .foreign _ => braced "Foreign" [listeners]

/-- The text about the tracker of a name, or else about the object. -/
def describeNamed (w : World F) (name : String) : Except Failure String :=
  match w.names.trackers.lookup name with
  | some id => .ok (w.describeTracker (w.trackers.get id))
  | none =>
    match w.names.objects.lookup name with
    | some (.model o) => .ok (w.describeObject o)
    | some (.collection o) => .ok (w.describeObject o)
    | some (.dispatcher d) => .ok (describeRegistry (w.dispatchers.get d))
    | _ => .error (.missing name)

end World

end LivePath
