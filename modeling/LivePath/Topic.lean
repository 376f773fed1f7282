/-!
# Topics

What an object announces to its listeners: a field that changed, or a change to the items of a
collection.
-/

namespace LivePath

/-- An announcement of an object. -/
inductive Topic where
  /-- The value of the field `name` changed. -/
  | change (name : String)
  /-- An item was added. -/
  | add
  /-- An item was removed. -/
  | remove
  /-- All items were replaced or put into another order. -/
  | reset
  deriving DecidableEq, Repr

namespace Topic

/-- The topics that can put another item at a place of a collection. -/
def structural : List Topic :=
  [add, remove, reset]

def render : Topic → String
  | change name => "change:" ++ name
  | add => "add"
  | remove => "remove"
  | reset => "reset"

end Topic

end LivePath
