import LivePath.Session.Term

/-!
# Commands

The commands of a session, sorted by what they do. They refer to objects, accessors, trackers and
subscriptions by name; what a name stands for is settled when the command runs, which for the script
of a listener may be much later than when it was written.
-/

namespace LivePath

/-- An object to be made. -/
inductive Blueprint (F : Type) where
  | model (attrs : List (String × Term))
  | array (items : List Term)
  | collection (items : List Term) (ranking : Option Ranking)
  | dispatcher
  /-- A foreign container, made from the answers of its fields. -/
  | foreign (fields : List (String × List (Option Term)))
      (make : List (String × List (Option Value)) → F)

inductive Question where
  | equal (a b : Term)
  | compare (a b : Term)
  | kind (v : Term)
  | get (on name : String)
  | has (on name : String)
  | field (on name : String)
  | itemAt (on : String) (index : Nat)
  | indexOf (on : String) (v : Term)
  | items (on : String)
  /-- The length of a collection and one of its items. -/
  | ordered (on : String) (index : Nat)
  /-- The number of listeners to a topic. -/
  | count (on : String) (topic : Topic)
  | contains (on label : String)
  | size (on : String)
  | countTagged (on : String) (tag : Int)
  | describe (on : String)

inductive Edit where
  | set (name : String) (v : Term)
  | setAll (pairs : List (String × Term))
  | unset (name : String)
  /-- Assigns a field of a model or of a foreign container. -/
  | setField (name : String) (v : Term)
  | unsetField (name : String)
  | add (v : Term)
  | insert (index : Nat) (v : Term)
  | remove (v : Term)
  | removeAt (index : Nat)
  | reset (items : List Term)
  | sort

/-- Where an accessor comes from. -/
inductive Route where
  | named (name : String)
  | text (path : String)
  | nodes (path : Path)

/-- Something done with accessors. -/
inductive AccessAction where
  | store (name : String) (route : Route)
  /-- Stores an accessor with one more step. -/
  | join (name : String) (route : Route) (node : Node)
  | get (route : Route) (root : Term)
  | set (route : Route) (root v : Term)

/-- Something done with the tracker of a name. -/
inductive TrackerAction where
  | track (root : Term) (route : Route)
  /-- Gives the tracker one more name. -/
  | clone (name : String)
  | drop
  | get
  | hasValue
  | set (v : Term)
  | observed
  | dispose
  | isDisposed

/-- What a scripted listener is registered with. -/
inductive Source where
  | topic (on : String) (topic : Topic)
  | topics (on : String) (topics : List Topic)
  /-- The texts that a dispatcher emits for a tag. -/
  | dispatcher (on : String) (tag : Int)
  /-- Whatever an accessor depends on. -/
  | accessor (route : Route) (root : Term)
  /-- The values that a tracker announces. -/
  | tracker (on : String)

/-- A command that is carried out at once and gives no further commands to anyone. -/
inductive Action (F : Type) where
  | create (name : String) (blueprint : Blueprint F)
  | ask (question : Question)
  | edit (on : String) (edit : Edit)
  /-- Makes a foreign container announce a topic. -/
  | fire (on : String) (topic : Topic)
  | clear (on : String)
  /-- Emits a text to the listeners of a dispatcher that have one of the tags, or to all of them. -/
  | emit (on text : String) (tags : Option (List Int))
  | access (action : AccessAction)
  | tracker (name : String) (action : TrackerAction)
  /-- Takes the newest subscription of a label back. -/
  | off (label : String)
  /-- A command that there is not. -/
  | unknown (text : String)

inductive Command (F : Type) where
  | act (action : Action F)
  /-- Registers a listener under a label. It runs its commands on each of its first `times`
  calls. -/
  | listen (label : String) (source : Source) (times : Nat) (commands : List (Command F))

instance {F : Type} : Inhabited (Command F) := ⟨.act (.unknown "")⟩

/-- A listener as it is registered: its label, and the commands that it runs on so many further
calls. -/
structure Script (F : Type) where
  label : String
  times : Nat := 0
  commands : List (Command F) := []

instance {F : Type} : Inhabited (Script F) := ⟨{ label := "" }⟩

end LivePath
