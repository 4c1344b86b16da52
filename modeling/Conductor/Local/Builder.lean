import Conductor.Build.Basic
import Conductor.Engine.Error
import Conductor.Files.Tree
import Conductor.Local.Config
/-!
# Local backends — the builder

The local builder compiles nothing: a plan ships with an executable, and to
build it is to find the executable among the sources of the plan and to see that
it can be run.
-/

namespace Conductor

namespace Local

/-- The path of the executable. -/
def executablePath (input : BuildInput) (config : BuilderConfig) : String :=
  Path.join input.source (config.binary.getD input.plan)

/-- Why a path is not that of an executable. -/
def executableFault? (t : FileTree) (path : String) : Option String :=
  match t.metadata path with
  | .error e => some ("artifact " ++ path ++ ": " ++ e.message)
  | .ok n =>
    match n with
    | .file _ _ =>
      if n.isExecutable then none else some ("artifact " ++ path ++ " is not executable")
    | _ => some ("artifact " ++ path ++ " is not a regular file")

/-- Builds: the artifact is the path of the executable, without links. -/
def build (t : FileTree) (canceled : Bool) (input : BuildInput) : Except BuildError BuildOutput :=
  if canceled then .error .canceled
  else if !input.dependencies.isEmpty then
    .error (.failed [builderId.text ++ " cannot override dependencies: " ++
      Text.quotedList input.dependencies.keys])
  else
    match builderConfig input.config with
    | .error e => .error (.failed [e.message])
    | .ok config =>
      let path := executablePath input config
      match executableFault? t path with
      | some reason => .error (.failed [reason])
      | none =>
        match t.canonical path with
        | .ok artifact => .ok ⟨artifact, []⟩
        | .error _ => .ok ⟨path, []⟩

end Local

end Conductor
