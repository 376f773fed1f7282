/-!
# Log entries

What the library reports of its own doings, besides answers and announcements.
-/

namespace LivePath

inductive Level where
  | error
  | warn
  | debug
  | trace
  deriving DecidableEq, Repr

def Level.name : Level → String
  | error => "ERROR"
  | warn => "WARN"
  | debug => "DEBUG"
  | trace => "TRACE"

structure LogEntry where
  level : Level
  message : String
  deriving DecidableEq, Repr

end LivePath
