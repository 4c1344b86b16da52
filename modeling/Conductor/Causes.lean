/-!
# Causes

A failure is told with its causes: what went wrong, and behind it what made it
go wrong.
-/

namespace Conductor

/-- Causes of a failure, the outermost first. -/
abbrev Causes := List String

/-- Causes in one line. -/
def Causes.text (c : Causes) : String := String.intercalate ": " c

end Conductor
