import Conductor.Composition.Basic
import Conductor.Json.Decode
/-!
# Compositions — decoding

The fields of a composition document in their order of declaration. Nearly
every field has a default; a composition needs its `global` part, a group its
id, and a dependency both of its texts.
-/

namespace Conductor

namespace Composition

open Json.Decode

/-- A configuration table: an object of any values. -/
def decodeConfig : Json.Decoder ConfigTable := table value

/-- The shape of `Metadata`. -/
def metadataShape : Shape Metadata where
  title := "struct Metadata"
  fields :=
    [field "name" .defaulted text fun x m => { m with name := x },
     field "author" .defaulted text fun x m => { m with author := x }]
  empty := ⟨"", ""⟩
  exact := false

/-- The shape of `Dependency`. -/
def dependencyShape : Shape Dependency where
  title := "struct Dependency"
  fields :=
    [field "module" .required text fun x d => { d with package := x },
     field "version" .required text fun x d => { d with version := x }]
  empty := ⟨"", ""⟩
  exact := false

/-- The shape of `BuildOptions`. -/
def buildShape : Shape BuildOptions where
  title := "struct Build"
  fields :=
    [field "selectors" .defaulted (list text) fun x b => { b with selectors := x },
     field "dependencies" .defaulted (list (record dependencyShape))
      fun x b => { b with dependencies := x }]
  empty := .none
  exact := false

/-- The shape of `RunOptions`. -/
def runShape : Shape RunOptions where
  title := "struct Run"
  fields :=
    [field "artifact" .defaulted (nullable text) fun x r => { r with artifact := x },
     field "test_params" .defaulted (table text) fun x r => { r with parameters := x }]
  empty := .none
  exact := false

/-- The shape of `Sizing`. -/
def sizingShape : Shape Sizing where
  title := "struct Instances"
  fields :=
    [field "count" .defaulted nat32 fun x s => { s with count := x },
     field "percentage" .defaulted real fun x s => { s with percentage := x }]
  empty := .unset
  exact := false

/-- The shape of `Settings`. -/
def settingsShape : Shape Settings where
  title := "struct Global"
  fields :=
    [field "plan" .defaulted text fun x s => { s with plan := x },
     field "case" .defaulted text fun x s => { s with case := x },
     field "total_instances" .defaulted nat32 fun x s => { s with total := x },
     field "builder" .defaulted text fun x s => { s with builder := x },
     field "runner" .defaulted text fun x s => { s with runner := x },
     field "build_config" .defaulted decodeConfig fun x s => { s with buildConfig := x },
     field "build" .defaulted (nullable (record buildShape)) fun x s => { s with build := x },
     field "run_config" .defaulted decodeConfig fun x s => { s with runConfig := x },
     field "run" .defaulted (nullable (record runShape)) fun x s => { s with run := x }]
  empty := ⟨"", "", 0, "", "", [], none, [], none⟩
  exact := false

/-- The shape of `Group`. -/
def groupShape : Shape Group where
  title := "struct Group"
  fields :=
    [field "id" .required text fun x g => { g with id := x },
     field "instances" .defaulted (record sizingShape) fun x g => { g with sizing := x },
     field "build" .defaulted (record buildShape) fun x g => { g with build := x },
     field "build_config" .defaulted decodeConfig fun x g => { g with buildConfig := x },
     field "run_config" .defaulted decodeConfig fun x g => { g with runConfig := x },
     field "run" .defaulted (record runShape) fun x g => { g with run := x }]
  empty := ⟨"", .unset, .none, [], [], .none⟩
  exact := false

/-- The shape of `Composition`. -/
def shape : Shape Composition where
  title := "struct Composition"
  fields :=
    [field "metadata" .defaulted (record metadataShape) fun x c => { c with metadata := x },
     field "global" .required (record settingsShape) fun x c => { c with settings := x },
     field "groups" .defaulted (list (record groupShape)) fun x c => { c with groups := x }]
  empty := ⟨⟨"", ""⟩, settingsShape.empty, []⟩
  exact := false

/-- A composition from a document. -/
def decode : Json.Decoder Composition := record shape

/-- A composition from a JSON text. -/
def ofJsonText (bs : List UInt8) : Except Json.DecodeError Composition :=
  Json.decodeText decode bs

end Composition

end Conductor
