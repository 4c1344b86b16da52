import Conductor.Run.Basic
/-!
# Local backends — the environment of an instance

An instance learns about its run from variables. The parameters of its group
are one variable: a key, an equals sign and a value for each, with bars
between them, in the order of the keys.
-/

namespace Conductor

namespace Local

/-- The parameters of a group as one text. -/
def encodeParameters (t : Table String) : String :=
  String.intercalate "|" (t.map fun e => e.1 ++ "=" ++ e.2)

/-- The variables that all instances of a group have in common. -/
def instanceEnv (input : RunInput) (g : RunGroup) : List (String × String) :=
  [("TEST_PLAN", input.plan), ("TEST_CASE", input.case), ("TEST_RUN", input.runId),
   ("TEST_GROUP_ID", g.id), ("TEST_GROUP_INSTANCE_COUNT", toString g.instances),
   ("TEST_INSTANCE_COUNT", toString input.total),
   ("TEST_INSTANCE_PARAMS", encodeParameters g.parameters)]

end Local

end Conductor
