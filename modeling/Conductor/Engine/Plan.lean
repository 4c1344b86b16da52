import Conductor.Build.Fingerprint
import Conductor.Composition.Key
import Conductor.Composition.Validation
import Conductor.Config.Home
import Conductor.Engine.Registry
/-!
# Engine — plans of builds

An engine knows its components, its environment and its home. Before anything
is built it plans what to build: one unit for all groups with one build key, in
the order in which the keys first appear, and none for a group that has its
artifact already. A plan fails, and names everything that is wrong, when groups
ask for selectors that the builder does not know; and it fails at the first
configuration that the builder refuses.
-/

namespace Conductor

/-- What an engine is made of. -/
structure Engine where
  registry : Registry
  environment : Environment
  home : Directories

/-- A build that groups share. -/
structure BuildUnit where
  /-- The build key of each of the groups. -/
  key : String
  groupIds : List String
  selectors : List String
  dependencies : Table String
  config : ConfigTable
  fingerprint : String

namespace BuildUnit

/-- The groups that have no artifact yet. -/
def groupsToBuild (v : ValidComposition) : List Group :=
  v.composition.groups.filter fun g => g.run.artifact.isNone

/-- The selectors of a group that a builder does not know. -/
def unknownSelectors (b : Builder) (g : Group) : List String :=
  g.build.selectors.filter fun s => !b.selectors.contains s

/-- The error that names every group with an unknown selector, and every such selector. -/
def unsupported? (b : Builder) (groups : List Group) : Option OrchestrationError :=
  match groups.filter fun g => !(unknownSelectors b g).isEmpty with
  | [] => none
  | offending =>
    some (.unsupportedSelector (offending.map Group.id)
      ⟨b.id, sortDistinct (groups.flatMap (unknownSelectors b))⟩)

/-- The configuration of a group's build: that of the environment, that of the
composition, and its own. -/
def configOf (e : Engine) (v : ValidComposition) (b : Builder) (g : Group) : ConfigTable :=
  ConfigTable.coalesce
    [e.environment.builderLayer b.id, v.composition.settings.buildConfig, g.buildConfig]

/-- The unit of a group alone, unless the builder refuses its configuration. -/
def ofGroup (e : Engine) (v : ValidComposition) (b : Builder) (g : Group) :
    Except ConfigError BuildUnit :=
  let config := configOf e v b g
  match b.accepts config with
  | .error error => .error error
  | .ok () =>
    .ok {
      key := g.buildKey
      groupIds := [g.id]
      selectors := sortDistinct g.build.selectors
      dependencies := g.build.versions
      config
      fingerprint := Conductor.fingerprint b.id v.composition.settings.plan g.buildKey
        (.object config) }

/-- The unit with one more group. -/
def enlist (u : BuildUnit) (g : Group) : BuildUnit := { u with groupIds := u.groupIds ++ [g.id] }

/-- Adds a group to the unit with its key, or a unit for it behind the others. -/
def add (e : Engine) (v : ValidComposition) (b : Builder) (units : List BuildUnit) (g : Group) :
    Except ConfigError (List BuildUnit) :=
  if units.any (·.key = g.buildKey) then
    .ok (units.map fun u => if u.key = g.buildKey then u.enlist g else u)
  else (ofGroup e v b g).map fun u => units ++ [u]

/-- Adds groups one by one. -/
def addAll (e : Engine) (v : ValidComposition) (b : Builder) (units : List BuildUnit) :
    List Group → Except ConfigError (List BuildUnit)
  | [] => .ok units
  | g :: gs =>
    match add e v b units g with
    | .ok units => addAll e v b units gs
    | .error error => .error error

end BuildUnit

/-- Plans the builds of a composition. -/
def Engine.planBuilds (e : Engine) (v : ValidComposition) (b : Builder) :
    Except OrchestrationError (List BuildUnit) :=
  let groups := BuildUnit.groupsToBuild v
  match BuildUnit.unsupported? b groups with
  | some error => .error error
  | none => (BuildUnit.addAll e v b [] groups).mapError (.config .build)

/-- The directory with the sources of a plan, unless the caller names another. -/
def Engine.sourceOf (e : Engine) (plan : String) (source : Option String) : String :=
  source.getD (Path.join e.home.plans plan)

end Conductor
