namespace Pathwise

namespace Log

inductive Level where
  | debug
  | warning
  | error
  deriving DecidableEq, Repr

namespace Level

def text : Level → String
  | debug => "DEBUG"
  | warning => "WARNING"
  | error => "ERROR"

/-- Whether a record of this level is at least as urgent as `threshold`. -/
def reaches : Level → (threshold : Level) → Bool
  | error, _ | warning, warning | warning, debug | debug, debug => true
  | debug, _ | warning, error => false

end Level

/-- One line of the log: a message with named values. -/
structure Record where
  level : Level
  message : String
  fields : List (String × String)
  deriving DecidableEq, Repr

namespace Record

/-- The record as the logger of one routine writes it. -/
def within (routine : String) (r : Record) : Record :=
  { r with fields := ("routine", routine) :: r.fields }

def text (r : Record) : String :=
  ", ".intercalate ((r.level.text ++ " " ++ r.message) :: r.fields.map fun f => f.1 ++ ": " ++ f.2)

end Record

end Log

/-- A log, in the order of writing. -/
abbrev Log := Array Log.Record

end Pathwise
