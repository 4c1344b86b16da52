import Conductor.Rehearsal.Performance
/-!
# Rehearsal — troupes

A troupe is a set of builders and runners by script, enough to make an engine.
Of components with one id the last one counts.
-/

namespace Conductor

namespace Rehearsal

/-- How a builder by script builds. -/
inductive BuilderPart
  | stock (builder : StockBuilder)
  | byGroup (builder : GroupBuilder)

/-- What a builder by script does for a build. -/
def BuilderPart.script : BuilderPart → BuildInput → BuildScript
  | .stock b => b.script
  | .byGroup b => b.script

/-- The builder is the stock one, which keeps count of its builds. -/
def BuilderPart.isStock : BuilderPart → Bool
  | .stock _ => true
  | .byGroup _ => false

/-- A builder by script. -/
structure BuilderRole where
  id : Selector
  selectors : List String
  /-- The key that no configuration may have. -/
  refuses : Option String
  part : BuilderPart

/-- A runner by script. -/
structure RunnerRole where
  id : Selector
  compatible : List String
  /-- The key that no configuration may have. -/
  refuses : Option String
  part : StockRunner
  health : Option (List ScriptedItem)

/-- What a component says to a configuration when there is a key that it may not have. -/
def accepts (component : Selector) (refuses : Option String) (config : ConfigTable) :
    Except ConfigError Unit :=
  match refuses with
  | none => .ok ()
  | some key =>
    if (config.get? key).isSome then
      .error (.mismatch component.text ("unknown field `" ++ key ++ "`"))
    else .ok ()

/-- Components by script. -/
structure Troupe where
  builders : List BuilderRole
  runners : List RunnerRole

namespace Troupe

/-- The builder as the engine sees it. -/
def builderOf (b : BuilderRole) : Builder := ⟨b.id, b.selectors, accepts b.id b.refuses⟩

/-- The runner as the engine sees it. -/
def runnerOf (r : RunnerRole) : Runner :=
  ⟨r.id, r.compatible, accepts r.id r.refuses, r.health.map fun items => items.map (·.item)⟩

/-- All components, registered in order. -/
def registry (t : Troupe) : Registry :=
  let r := t.builders.foldl (fun r b => r.addBuilder (builderOf b)) .empty
  t.runners.foldl (fun r x => r.addRunner (runnerOf x)) r

/-- The builder that counts for an id. -/
def builder? (t : Troupe) (id : Selector) : Option BuilderRole :=
  t.builders.reverse.find? fun b => b.id = id

/-- The runner that counts for an id. -/
def runner? (t : Troupe) (id : Selector) : Option RunnerRole :=
  t.runners.reverse.find? fun r => r.id = id

/-- The components at work. One that is not there does nothing and fails. -/
def cast (t : Troupe) : Cast where
  build _ id input :=
    match t.builder? id with
    | some b => b.part.script input
    | none => ⟨none, 0, false, false, false, .returned (.error .canceled)⟩
  run b id input :=
    match t.runner? id with
    | some r => (r.part.script input, b)
    | none => (⟨[], none, false, .error .canceled⟩, b)
  task id n := (t.runner? id).bind fun r => r.health.bind fun items => taskOf? items n

end Troupe

/-- How often each of some components was called, when a call goes to the last of
those with one id. -/
def tally (called : List Selector) : List Selector → List Nat
  | [] => []
  | id :: rest => (if id ∈ rest then 0 else called.count id) :: tally called rest

end Rehearsal

end Conductor
