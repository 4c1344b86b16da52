import Conductor.Json.Decode
/-!
# Runs — what a runner receives and returns

A runner receives the groups of a run, each with its size, its artifact, its
parameters and its own configuration, and returns how many instances it
started and how many did not start.
-/

namespace Conductor

/-- A group as a runner sees it. -/
structure RunGroup where
  id : String
  instances : Nat
  artifact : String
  parameters : Table String
  config : Json

/-- Everything a runner needs for a run. -/
structure RunInput where
  runId : String
  plan : String
  case : String
  total : Nat
  groups : List RunGroup
  config : Json

/-- What a runner reports when all instances have been started or given up. -/
structure RunOutput where
  runId : String
  started : Nat
  failedToStart : Nat
  deriving DecidableEq

/-- A group as JSON. -/
def RunGroup.toJson (g : RunGroup) : Json :=
  .object [("artifact", .string g.artifact), ("id", .string g.id), ("instances", .nat g.instances),
    ("parameters", Json.ofTexts g.parameters), ("run_config", g.config)]

/-- A run input as JSON. -/
def RunInput.toJson (r : RunInput) : Json :=
  .object [("case", .string r.case), ("groups", .array (r.groups.map RunGroup.toJson)),
    ("plan", .string r.plan), ("run_config", r.config), ("run_id", .string r.runId),
    ("total_instances", .nat r.total)]

/-- A run output as JSON. -/
def RunOutput.toJson (r : RunOutput) : Json :=
  .object [("failed_to_start", .nat r.failedToStart), ("run_id", .string r.runId),
    ("started", .nat r.started)]

namespace RunInput

open Json.Decode

/-- The shape of a group. -/
def groupShape : Shape RunGroup where
  title := "struct RunGroup"
  fields :=
    [field "id" .required text fun x g => { g with id := x },
     field "instances" .required nat32 fun x g => { g with instances := x },
     field "artifact" .required text fun x g => { g with artifact := x },
     field "parameters" .required (table text) fun x g => { g with parameters := x },
     field "run_config" .required value fun x g => { g with config := x }]
  empty := ⟨"", 0, "", [], .null⟩
  exact := false

/-- The shape of a run input. -/
def shape : Shape RunInput where
  title := "struct RunInput"
  fields :=
    [field "run_id" .required text fun x r => { r with runId := x },
     field "plan" .required text fun x r => { r with plan := x },
     field "case" .required text fun x r => { r with case := x },
     field "total_instances" .required nat32 fun x r => { r with total := x },
     field "groups" .required (list (record groupShape)) fun x r => { r with groups := x },
     field "run_config" .required value fun x r => { r with config := x }]
  empty := ⟨"", "", "", 0, [], .null⟩
  exact := false

/-- A run input from JSON. -/
def decode : Json.Decoder RunInput := record shape

end RunInput

end Conductor
