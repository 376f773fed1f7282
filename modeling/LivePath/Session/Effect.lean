import LivePath.Session.World

/-!
# Effects

The immediate effect of a command: the world after it, its answer, and what is to be announced now
that all is done. No listener is called before that.
-/

namespace LivePath

/-- What a command leaves to be announced. -/
inductive Notice where
  | silent
  /-- The topics of an object, one after the other. -/
  | topics (source : ObjectId) (topics : List Topic)
  /-- A text, to the listeners of a dispatcher that have one of the tags, or to all of them. -/
  | text (source : DispatcherId) (text : String) (tags : Option (List Int))
  deriving Repr

/-- The world after a command, the answer, and what is left to be announced. -/
structure Effect (F : Type) where
  world : World F
  answer : Answer
  notice : Notice := .silent

end LivePath
