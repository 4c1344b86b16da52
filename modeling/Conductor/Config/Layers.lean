import Conductor.Composition.Basic
import Conductor.Config.Error
import Conductor.Json.Decode
import Conductor.Selector
/-!
# Configuration — layers

The configuration of a component is put together from layers: the table of the
environment, that of the composition, that of the group. A later layer wins
key by key; a value is replaced as a whole and never merged with another.
-/

namespace Conductor

namespace ConfigTable

/-- The layers as one table, later ones on top. -/
def coalesce (layers : List ConfigTable) : ConfigTable :=
  layers.foldl Table.overlay []

/-- Decodes a coalesced configuration for a component. -/
def decodeFor {α : Type} (component : Selector) (item : Json.Decoder α) (config : Json) :
    Except ConfigError α :=
  match Json.decodeValue item config with
  | .ok a => .ok a
  | .error e => .error (.mismatch component.text e.message)

end ConfigTable

end Conductor
