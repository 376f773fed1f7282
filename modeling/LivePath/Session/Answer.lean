import LivePath.Tracker.Basic

/-!
# Answers and events

Every command of a session is answered. In between, listeners are called and entries are logged;
these are the events of the session.
-/

namespace LivePath

/-- Why a command could not do what it asks for. -/
inductive Failure where
  /-- The name stands for nothing of the kind that is needed. -/
  | missing (name : String)
  /-- There is no such command. -/
  | unknown (text : String)
  | malformed (e : SyntaxError)
  | access (e : AccessError)
  deriving DecidableEq, Repr

def Failure.message : Failure → String
  | missing name => name
  | unknown text => text
  | malformed e => e.message
  | access e => e.message

inductive Answer where
  | done
  | nothing
  | truth (b : Bool)
  | number (n : Nat)
  | ordering (o : Option Ordering)
  | value (v : Option Value)
  | text (s : String)
  | kind (v : Value)
  | items (items : List Value) (sorted : Bool)
  | item (length : Nat) (v : Option Value)
  | size (n : Nat)
  | accessor (a : Accessor)
  | tracker (accessor : Accessor) (root : Value) (observed : Nat)
  /-- What one listener was attached to. -/
  | attached (r : Record)
  /-- What an accessor was found to depend on. -/
  | subscribed (rs : List Record)
  | failed (f : Failure)
  deriving Repr

def Reply.answer : Reply → Answer
  | nothing => .nothing
  | place none => .nothing
  | place (some i) => .number i
  | item v => .value v
  | disorder d => .text d.message

/-- What happens besides answers. A listener is known by the label it was registered with. -/
inductive Event where
  | topic (label : String) (topic : Topic)
  | text (label : String) (text : String)
  | change (label : String) (value : Option Value)
  /-- A command of a listener's script was answered. -/
  | ran (answer : Answer)
  | logged (entry : LogEntry)
  deriving Repr

end LivePath
