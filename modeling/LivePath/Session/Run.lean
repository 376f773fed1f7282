import LivePath.Session.Rank

/-!
# Sessions

A session carries out commands one after the other. Each is followed by everything it leads to,
however deep announcements nest, before the next one is looked at.
-/

namespace LivePath

/-- The answer to a command and the events that it led to, in order. -/
structure Report where
  answer : Answer
  events : List Event
  deriving Repr

namespace Machine
variable {F : Type} [Foreign F]

/-- Takes turns until no work is left. -/
def run (m : Machine F) : Machine F :=
  if _h : m.stack = [] then m else m.next.run
termination_by m.rank
decreasing_by exact rank_next_lt m _h

/-- Carries out a command with all that it leads to. -/
def execute (m : Machine F) (c : Command F) : Report × Machine F :=
  let (after, answer, notice) := { m with world := { m.world with trace := [] } }.perform c
  let settled := (after.notify notice).run
  (⟨answer, settled.world.trace.reverse⟩, settled)

/-- Carries out commands in order. -/
def executeAll (m : Machine F) : List (Command F) → List Report × Machine F
  | [] => ([], m)
  | c :: cs =>
    let (report, m) := m.execute c
    let (reports, m) := m.executeAll cs
    (report :: reports, m)

end Machine

end LivePath
