import Conductor.Composition.Basic
import Conductor.Selector
/-!
# Builds — what a builder receives and returns

A builder receives a plan with the requests of the groups that share the
build, and returns an artifact. The result kept of a build names the groups
that it is for and the fingerprint of what was asked.
-/

namespace Conductor

/-- Everything a builder needs for one build. -/
structure BuildInput where
  /-- The number of the build in the life of the engine. -/
  build : Nat
  plan : String
  /-- The directory with the sources of the plan. -/
  source : String
  groupIds : List String
  selectors : List String
  /-- The version asked for each module. -/
  dependencies : Table String
  config : Json
  fingerprint : String

/-- What a builder returns: the artifact, and the versions used. -/
structure BuildOutput where
  artifact : String
  dependencies : Table String
  deriving DecidableEq

/-- A finished build. -/
structure BuildResult where
  builder : Selector
  artifact : String
  groupIds : List String
  fingerprint : String
  dependencies : Table String
  deriving DecidableEq

namespace BuildOutput

open Json.Decode

/-- A build output as JSON. -/
def toJson (b : BuildOutput) : Json :=
  .object [("artifact", .string b.artifact), ("dependencies", Json.ofTexts b.dependencies)]

/-- The shape of a build output. -/
def shape : Shape BuildOutput where
  title := "struct BuildOutput"
  fields :=
    [field "artifact" .required text fun x b => { b with artifact := x },
     field "dependencies" .defaulted (table text) fun x b => { b with dependencies := x }]
  empty := ⟨"", []⟩
  exact := false

/-- A build output from JSON. -/
def decode : Json.Decoder BuildOutput := record shape

end BuildOutput

namespace BuildResult

open Json.Decode

/-- A build result as JSON. -/
def toJson (b : BuildResult) : Json :=
  .object [("artifact", .string b.artifact), ("builder", b.builder.toJson),
    ("dependencies", Json.ofTexts b.dependencies), ("fingerprint", .string b.fingerprint),
    ("group_ids", .array (b.groupIds.map .string))]

/-- A build result while its fields are read; its builder comes first or not at all. -/
structure Draft where
  builder : Option Selector
  artifact : String
  groupIds : List String
  fingerprint : String
  dependencies : Table String

/-- The shape of a build result. -/
def shape : Shape Draft where
  title := "struct BuildResult"
  fields :=
    [field "builder" .required Selector.decode fun x b => { b with builder := some x },
     field "artifact" .required text fun x b => { b with artifact := x },
     field "group_ids" .required (list text) fun x b => { b with groupIds := x },
     field "fingerprint" .required text fun x b => { b with fingerprint := x },
     field "dependencies" .required (table text) fun x b => { b with dependencies := x }]
  empty := ⟨none, "", [], "", []⟩
  exact := false

/-- A build result from JSON. -/
def decode : Json.Decoder BuildResult := fun s d => do
  let r ← record shape s d
  match r.builder with
  | some builder => return ⟨builder, r.artifact, r.groupIds, r.fingerprint, r.dependencies⟩
  | none => throw (.shape (.missingField "builder"))

end BuildResult

end Conductor
