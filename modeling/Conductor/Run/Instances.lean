import Conductor.Decimal.Layout
import Conductor.Run.Basic
/-!
# Runs — instances

The instances of a run are those of its first group, then those of the next, and
so on. Within its group an instance has a number, from zero on; in the run it
has a name.
-/

namespace Conductor

/-- The name of an instance: its group, and its number with three digits at least. -/
def instanceId (group : String) (seq : Nat) : String :=
  let digits := toString seq
  group ++ "[" ++ Decimal.zeros (3 - digits.length) ++ digits ++ "]"

/-- An instance that is to be started: its group and its number in it. -/
structure InstanceSlot where
  group : RunGroup
  seq : Nat

/-- The name of the instance. -/
def InstanceSlot.id (s : InstanceSlot) : String := instanceId s.group.id s.seq

namespace RunInput

/-- The instances of a group in order. -/
def slotsOf (g : RunGroup) : List InstanceSlot := (List.range g.instances).map (⟨g, ·⟩)

/-- The instances of the run in order. -/
def slots (r : RunInput) : List InstanceSlot := r.groups.flatMap slotsOf

/-- The number of instances of each group; of equal ids the last counts. -/
def sizes (r : RunInput) : Table Nat :=
  Table.ofList (r.groups.map fun g => (g.id, g.instances))

end RunInput

end Conductor
