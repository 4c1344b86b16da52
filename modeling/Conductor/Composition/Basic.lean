import Conductor.Json.Basic
/-!
# Compositions

A composition describes a test run: what plan and case to run, with which
builder and runner, and the groups of instances that take part. Settings of
the whole run are defaults for the groups. The two configuration tables of a
run and of a group are free in form; only a builder or a runner interprets
them.
-/

namespace Conductor

/-- A configuration table: free values by key. -/
abbrev ConfigTable := Table Json

/-- A module replaced by a version of it. -/
structure Dependency where
  package : String
  version : String
  deriving DecidableEq

/-- What a group asks of its build: behaviours selected by name, and replaced dependencies. -/
structure BuildOptions where
  selectors : List String
  dependencies : List Dependency
  deriving DecidableEq

/-- What a group asks of its run: an artifact that exists already, and the
parameters handed to each instance. -/
structure RunOptions where
  artifact : Option String
  parameters : Table String
  deriving DecidableEq

/-- The size of a group: a number of instances, or a share of all instances of
the run. A group sets one of them; zero counts as not set. -/
structure Sizing where
  count : Nat
  percentage : Binary64
  deriving DecidableEq

/-- A group of instances of one kind. -/
structure Group where
  id : String
  sizing : Sizing
  build : BuildOptions
  buildConfig : ConfigTable
  runConfig : ConfigTable
  run : RunOptions

/-- The settings of a whole run. A total of zero is inferred from the groups. -/
structure Settings where
  plan : String
  case : String
  total : Nat
  builder : String
  runner : String
  buildConfig : ConfigTable
  build : Option BuildOptions
  runConfig : ConfigTable
  run : Option RunOptions

/-- A composition's name and author. -/
structure Metadata where
  name : String
  author : String
  deriving DecidableEq

/-- The description of a test run. -/
structure Composition where
  metadata : Metadata
  settings : Settings
  groups : List Group

namespace BuildOptions

/-- No requests. -/
def none : BuildOptions := ⟨[], []⟩

/-- The version asked for each module; the last entry for a module wins. -/
def versions (b : BuildOptions) : Table String :=
  Table.ofList (b.dependencies.map fun d => (d.package, d.version))

end BuildOptions

/-- No requests. -/
def RunOptions.none : RunOptions := ⟨.none, []⟩

/-- Neither size is set. -/
def Sizing.unset : Sizing := ⟨0, .zero⟩

end Conductor
