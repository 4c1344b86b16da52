import Conductor.Config.Environment
import Conductor.Files.Tree
import Conductor.Toml.Reader
/-!
# Configuration — home directories

An environment is found in a home directory, whose place the variables of the
process decide. Loading it makes the directories that are missing and then reads
the file, if there is one; so the directories are there also when the file is
no good.
-/

namespace Conductor

/-- What decides where the home directory is. -/
structure HomeVariables where
  /-- The variable for this very purpose. -/
  home : Option String
  /-- The variable for the directory of configurations. -/
  configHome : Option String
  /-- The variable for the home of the user. -/
  userHome : Option String
  /-- The home that the system has on record for the user. -/
  accountHome : Option String

/-- A value that is set and not empty. -/
def HomeVariables.nonempty (v : Option String) : Option String := v.filter (· ≠ "")

/-- The home directory: the one named, or one in the directory of
configurations, which has to be an absolute path or is found in the home of the
user. -/
def HomeVariables.resolve (v : HomeVariables) : Except ConfigError String :=
  match nonempty v.home with
  | some home => .ok home
  | none =>
    let config := (v.configHome.filter Path.isAbsolute).or
      (((nonempty v.userHome).or v.accountHome).map fun h => Path.join h ".config")
    match config with
    | some config => .ok (Path.join config "groundwork")
    | none => .error .noHome

/-- The directories of an environment. -/
structure Directories where
  home : String
  deriving DecidableEq

namespace Directories

/-- Where instances leave their outputs, by run. -/
def outputs (d : Directories) : String := Path.join d.home "outputs"

/-- Where builders work. -/
def work (d : Directories) : String := Path.join d.home "work"

/-- Where the sources of plans are. -/
def plans (d : Directories) : String := Path.join d.home "plans"

/-- The file of the environment. -/
def file (d : Directories) : String := Path.join d.home ".env.toml"

/-- The outputs of one instance. -/
def instanceOutputs (d : Directories) (runId group : String) (seq : Nat) : String :=
  Path.join (Path.join (Path.join d.outputs runId) group) (toString seq)

/-- Makes directories in order, up to the first that cannot be made. -/
def makeAll (t : FileTree) : List String → Except ConfigError Unit × FileTree
  | [] => (.ok (), t)
  | path :: rest =>
    match t.createAll path with
    | (.ok (), t) => makeAll t rest
    | (.error e, t) => (.error (.files path e), t)

/-- Makes the directories that are missing. -/
def ensure (d : Directories) (t : FileTree) : Except ConfigError Unit × FileTree :=
  if t.exists? d.home && !t.isDirectory d.home then (.error (.homeNotDirectory d.home), t)
  else makeAll t [d.home, d.outputs, d.work, d.plans]

end Directories

namespace Environment

/-- Reads the file of an environment, if there is one. -/
def readFile (t : FileTree) (d : Directories) : Except ConfigError Environment :=
  if t.isFile d.file then
    match t.readText d.file with
    | .error e => .error (.files d.file e)
    | .ok s =>
      match Toml.decodeText decode s with
      | some e => .ok e
      | none => .error (.envFile d.file)
  else .ok standard

/-- Loads the environment of a home directory. -/
def load (t : FileTree) (d : Directories) : Except ConfigError Environment × FileTree :=
  match d.ensure t with
  | (.ok (), t) => (readFile t d, t)
  | (.error e, t) => (.error e, t)

end Environment

end Conductor
