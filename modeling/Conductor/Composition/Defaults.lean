import Conductor.Composition.Basic
/-!
# Compositions — defaults of groups

The settings of a run hold defaults for every group. A default fills what a
group leaves unset and nothing else: the selectors when a group names none,
the version of a module that a group does not name, the artifact when a group
has none, and the parameters that a group does not set.
-/

namespace Conductor

/-- The requests of a group over defaults for them. -/
def BuildOptions.over (b defaults : BuildOptions) : BuildOptions where
  selectors := if b.selectors.isEmpty then defaults.selectors else b.selectors
  dependencies :=
    b.dependencies ++
      defaults.dependencies.filter fun d => !(b.dependencies.any fun e => e.package = d.package)

/-- The run requests of a group over defaults for them. -/
def RunOptions.over (r defaults : RunOptions) : RunOptions where
  artifact := r.artifact.or defaults.artifact
  parameters := Table.overlay defaults.parameters r.parameters

namespace Composition

/-- A group with the defaults of the settings. -/
def withDefaults (s : Settings) (g : Group) : Group :=
  { g with
    build := match s.build with
      | some b => g.build.over b
      | none => g.build
    run := match s.run with
      | some r => g.run.over r
      | none => g.run }

/-- The composition with the defaults applied to every group. -/
def applyDefaults (c : Composition) : Composition :=
  { c with groups := c.groups.map (withDefaults c.settings) }

end Composition

end Conductor
