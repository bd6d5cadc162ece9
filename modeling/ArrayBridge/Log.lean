/-!
# Log records

What the library reports while it works. Records are values: each activity lists its own.
-/

namespace ArrayBridge.Log

/-- How much a record matters. -/
inductive Level where
  | trace
  | debug
  | info
deriving DecidableEq, Repr

/-- The name of a level. -/
def Level.text : Level → String
  | trace => "TRACE"
  | debug => "DEBUG"
  | info => "INFO"

/-- A report of something that was done. -/
structure Record where
  level : Level
  message : String
deriving DecidableEq, Repr

/-- A record on a line. -/
def Record.line (r : Record) : String := r.level.text ++ " " ++ r.message

end ArrayBridge.Log
