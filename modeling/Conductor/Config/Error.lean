import Conductor.Files.Fault
import Conductor.Json.Shape
/-!
# Configuration — errors

Why a configuration could not be read or does not fit the component that it
is for.
-/

namespace Conductor

/-- Why a configuration is refused. -/
inductive ConfigError
  /-- The coalesced table does not fit the component. -/
  | mismatch (component reason : String)
  | toml
  | json (error : Json.DecodeError)
  | envFile (path : String)
  | files (path : String) (fault : FileFault)
  | homeNotDirectory (path : String)
  | noHome

/-- The message of a configuration error. That of a document that cannot be
read ends where the words of the reader would follow. -/
def ConfigError.message : ConfigError → String
  | .mismatch component reason =>
    "error while coalescing configuration values for " ++ component ++ ": " ++ reason
  | .toml => "failed to parse TOML document: "
  | .json (.shape e) => "failed to parse JSON document: " ++ e.message
  | .json (.flaw _) => "failed to parse JSON document: "
  | .envFile path => "found .env.toml at " ++ path ++ ", but failed to parse: "
  | .files path fault => "filesystem error at " ++ path ++ ": " ++ fault.message
  | .homeNotDirectory path => "home path is not a directory: " ++ path
  | .noHome => "could not determine a home directory; set GROUNDWORK_HOME"

end Conductor
