import Conductor.Config.Layers
/-!
# Local backends — configuration

The tables of the two local backends. A key that a backend does not know is
refused.
-/

namespace Conductor

namespace Local

open Json.Decode

/-- The selector of the local builder. -/
def builderId : Selector := ⟨"exec", "bin", by decide, by decide⟩

/-- The selector of the local runner. -/
def runnerId : Selector := ⟨"local", "exec", by decide, by decide⟩

/-- The configuration of the local builder: the path of the executable within
the sources of the plan, if it is not the name of the plan. -/
structure BuilderConfig where
  binary : Option String
  deriving DecidableEq

/-- The shape of the builder's configuration. -/
def builderShape : Shape BuilderConfig where
  title := "struct ExecBinConfig"
  fields := [field "binary" .defaulted (nullable text) fun x c => { c with binary := x }]
  empty := ⟨none⟩
  exact := true

/-- The configuration of the local runner: arguments for every instance, and
variables for its environment. -/
structure RunnerConfig where
  args : List String
  env : Table String
  deriving DecidableEq

/-- The shape of the runner's configuration. -/
def runnerShape : Shape RunnerConfig where
  title := "struct LocalExecConfig"
  fields :=
    [field "args" .defaulted (list text) fun x c => { c with args := x },
     field "env" .defaulted (table text) fun x c => { c with env := x }]
  empty := ⟨[], []⟩
  exact := true

/-- The builder's configuration from a coalesced table. -/
def builderConfig (config : Json) : Except ConfigError BuilderConfig :=
  ConfigTable.decodeFor builderId (record builderShape) config

/-- The runner's configuration from a coalesced table. -/
def runnerConfig (config : Json) : Except ConfigError RunnerConfig :=
  ConfigTable.decodeFor runnerId (record runnerShape) config

end Local

end Conductor
