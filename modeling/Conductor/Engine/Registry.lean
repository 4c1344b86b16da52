import Conductor.Config.Error
import Conductor.Engine.Error
/-!
# Engine — the registry

What the engine knows of its builders and runners before it uses them. A
registry holds at most one of each id, the later registration replacing the
earlier, and lists them by kind and implementation.
-/

namespace Conductor

/-- A builder as the engine sees it: its name, the selectors it knows, and what
it says to a configuration. -/
structure Builder where
  id : Selector
  selectors : List String
  accepts : ConfigTable → Except ConfigError Unit

/-- A runner as the engine sees it: its name, the kinds of builder whose
artifacts it runs, what it says to a configuration, and the items of its health
check, if it has one. -/
structure Runner where
  id : Selector
  compatible : List String
  accepts : ConfigTable → Except ConfigError Unit
  health : Option (List HealthItem)

/-- The runner runs what a builder makes. -/
def Runner.isCompatible (r : Runner) (builder : Selector) : Bool :=
  r.compatible.contains builder.kind

/-- The runner takes the artifacts of a builder, or the error that says which it takes. -/
def Runner.checkCompatible (r : Runner) (builder : Selector) : Except IncompatiblePair Unit :=
  if r.isCompatible builder then .ok () else .error ⟨r.id, builder, r.compatible⟩

/-- Registered builders and runners, each list in the order of the ids. -/
structure Registry where
  builders : List Builder
  runners : List Runner

namespace Registry

/-- Nothing is registered. -/
def empty : Registry := ⟨[], []⟩

/-- Puts a component in its place, instead of one with the same id. -/
def place {α : Type} (id : α → Selector) (x : α) : List α → List α
  | [] => [x]
  | y :: ys =>
    if (id x).precedes (id y) then x :: y :: ys
    else if id x = id y then x :: ys
    else y :: place id x ys

/-- Registers a builder under its id. -/
def addBuilder (r : Registry) (b : Builder) : Registry :=
  { r with builders := place Builder.id b r.builders }

/-- Registers a runner under its id. -/
def addRunner (r : Registry) (x : Runner) : Registry :=
  { r with runners := place Runner.id x r.runners }

/-- The builder with an id. -/
def builder (r : Registry) (s : Selector) : Except UnknownSelector Builder :=
  match r.builders.find? fun b => b.id = s with
  | some b => .ok b
  | none => .error ⟨.builder, s⟩

/-- The runner with an id. -/
def runner (r : Registry) (s : Selector) : Except UnknownSelector Runner :=
  match r.runners.find? fun x => x.id = s with
  | some x => .ok x
  | none => .error ⟨.runner, s⟩

end Registry

end Conductor
