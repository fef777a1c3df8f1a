/-!
# Log entries

Components report what they do as entries of a log with a level. The log is a
value that operations extend, so the order of entries is the order of events.
-/

namespace Linkage

/-- How serious an entry is. -/
inductive Level
  | error
  | warning
  | info
  | debug
  deriving DecidableEq, Repr, Inhabited

/-- One line of the log. -/
structure LogEntry where
  level : Level
  text : String
  deriving DecidableEq, Repr, Inhabited

/-- Entries in the order in which they were made. -/
abbrev Log := List LogEntry

end Linkage
