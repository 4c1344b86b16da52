import Conductor.Composition.Decode
import Conductor.Config.Layers
import Conductor.Health.Report
/-!
# Configuration — environments

An environment lives in a home directory. Its optional file holds default
tables for builders and runners, by the text of their selectors, and says
whether health is checked before a run.
-/

namespace Conductor

/-- Whether health is checked before every run, unless the caller says otherwise. -/
structure ServiceConfig where
  healthcheckBeforeRun : Bool
  deriving DecidableEq

namespace ServiceConfig

/-- Health is checked. -/
def standard : ServiceConfig := ⟨true⟩

/-- The policy for runs whose caller picks none. -/
def policy (c : ServiceConfig) : HealthPolicy :=
  if c.healthcheckBeforeRun then .standard else .disabled

/-- A service configuration as JSON. -/
def toJson (c : ServiceConfig) : Json :=
  .object [("healthcheck_before_run", .bool c.healthcheckBeforeRun)]

open Json.Decode

/-- The shape of a service configuration. -/
def shape : Shape ServiceConfig where
  title := "struct DaemonConfig"
  fields :=
    [field "healthcheck_before_run" .defaulted flag fun x c => { c with healthcheckBeforeRun := x }]
  empty := standard
  exact := false

/-- A service configuration from a document. -/
def decode : Json.Decoder ServiceConfig := record shape

end ServiceConfig

/-- What the file of an environment holds. -/
structure Environment where
  builders : Table ConfigTable
  runners : Table ConfigTable
  service : ServiceConfig

namespace Environment

/-- The environment of a home without a file. -/
def standard : Environment := ⟨[], [], .standard⟩

/-- The layer for a builder. -/
def builderLayer (e : Environment) (s : Selector) : ConfigTable :=
  (e.builders.get? s.text).getD []

/-- The layer for a runner. -/
def runnerLayer (e : Environment) (s : Selector) : ConfigTable :=
  (e.runners.get? s.text).getD []

open Json.Decode

/-- The shape of an environment. -/
def shape : Shape Environment where
  title := "struct EnvConfig"
  fields :=
    [field "builders" .defaulted (table Composition.decodeConfig) fun x e => { e with builders := x },
     field "runners" .defaulted (table Composition.decodeConfig) fun x e => { e with runners := x },
     field "daemon" .defaulted ServiceConfig.decode fun x e => { e with service := x }]
  empty := standard
  exact := false

/-- An environment from a document. -/
def decode : Json.Decoder Environment := record shape

end Environment

end Conductor
