import Conductor.Files.Tree
import Conductor.Health.Check
/-!
# Health — directories

The stock check that a directory is there, and the stock fix that makes it. A
missing directory is a problem that can be fixed; a file in its place, or a path
that cannot be followed, is not.
-/

namespace Conductor

namespace Health

/-- Checks that a path leads to a directory. -/
def checkDirectory (t : FileTree) (path : String) : CheckResult :=
  match t.metadata path with
  | .ok n =>
    if n.isDirectory then .ok ⟨true, "directory already exists."⟩
    else .error ⟨"expected directory. found regular file. please fix manually.",
      ["not a directory: " ++ path]⟩
  | .error .notFound => .ok ⟨false, "directory does not exist. can recreate."⟩
  | .error e => .error ⟨"filesystem error. cannot recreate.", [e.message]⟩

/-- Makes a directory, with what is missing above it. -/
def makeDirectory (t : FileTree) (path : String) : FixResult × FileTree :=
  match t.createAll path with
  | (.ok (), t) => (.ok "directory created.", t)
  | (.error e, t) => (.error ⟨"failed to create directory.", [e.message]⟩, t)

end Health

end Conductor
