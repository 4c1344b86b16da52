import Conductor.Composition.Defaults
import Conductor.Decimal.Width
import Conductor.Selector
/-!
# Compositions — validation

Validation finds every violation of a composition, in a fixed order: the
settings first, then each group with its id before its size, then the total.
A composition without violations is turned into a `ValidComposition`: the
defaults are applied, the total is filled in, the selectors are read, and each
group has its number of instances.

A build needs less than a run: for it, the case is not looked at, and an empty
runner is no violation.
-/

namespace Conductor

/-- The two kinds of component that a selector can name. -/
inductive Component
  | builder
  | runner
  deriving DecidableEq

/-- The word for a kind of component. -/
def Component.name : Component → String
  | .builder => "builder"
  | .runner => "runner"

/-- What is wrong with a composition. -/
inductive Violation
  | emptyPlan
  | emptyCase
  | malformedSelector (component : Component) (error : SelectorError)
  | noGroups
  | emptyGroupId (index : Nat)
  | duplicateGroupId (id : String)
  | countAndPercentage (group : String)
  | percentageWithoutTotal (group : String)
  | percentageOutOfRange (group : String) (percentage : Binary64)
  | zeroInstances (group : String)
  | totalMismatch (total calculated : Nat)
  | totalOverflow (calculated : Nat)
  | groupIndexOutOfRange (index : Nat)
  deriving DecidableEq

/-- The largest total of instances. -/
def maxTotal : Nat := Width.natBound32 - 1

/-- The total of numbers of instances. -/
def totalOf (counts : List Nat) : Nat := counts.foldr (· + ·) 0

/-- The message of a violation. -/
def Violation.message : Violation → String
  | .emptyPlan => "global.plan must not be empty"
  | .emptyCase => "global.case must not be empty"
  | .malformedSelector c e => "global." ++ c.name ++ ": " ++ e.message
  | .noGroups => "composition declares no groups"
  | .emptyGroupId i => "group at index " ++ toString i ++ " has an empty id"
  | .duplicateGroupId g => "group ids not unique; found duplicate: " ++ g
  | .countAndPercentage g =>
    "group " ++ g ++ ": instances must set either count or percentage, not both"
  | .percentageWithoutTotal g =>
    "group " ++ g ++ ": percentage requires global.total_instances to be set"
  | .percentageOutOfRange g p =>
    "group " ++ g ++ ": percentage " ++ Decimal.Layout.plain.write p ++ " outside of (0, 1]"
  | .zeroInstances g => "group " ++ g ++ ": instance count must be greater than zero"
  | .totalMismatch t c =>
    "sum of calculated instances per group doesn't match total; total=" ++ toString t ++
      ", calculated=" ++ toString c
  | .totalOverflow c =>
    "sum of instances per group (" ++ toString c ++ ") exceeds the maximum of " ++
      toString maxTotal
  | .groupIndexOutOfRange i => "invalid group index " ++ toString i

/-- The message of a list of violations. -/
def Violation.summary (vs : List Violation) : String :=
  "invalid composition (" ++ toString vs.length ++ " violation(s))" ++
    String.join (vs.map fun v => "; " ++ v.message)

/-- The violation says why the group with the id given has no usable percentage. -/
def Violation.blamesSizing (group : String) : Violation → Bool
  | .countAndPercentage g => g = group
  | .percentageWithoutTotal g => g = group
  | .percentageOutOfRange g _ => g = group
  | _ => false

/-! ## Sizes -/

/-- Why the size of a group does not resolve to a number of instances. -/
inductive SizingFault
  | both
  | outOfRange
  | withoutTotal
  | zero
  deriving DecidableEq

/-- The number of instances of a size, for the total given. A count stands for
itself, a percentage for its rounded share; a half is rounded up. -/
def Sizing.resolve (total : Nat) (s : Sizing) : Except SizingFault Nat :=
  if 0 < s.count ∧ s.percentage.isPositive then .error .both
  else if 0 < s.count then .ok s.count
  else if Binary64.unit.lt s.percentage then .error .outOfRange
  else if s.percentage.isPositive then
    if total = 0 then .error .withoutTotal
    else
      let n := (s.percentage.mulNat total).round
      if 0 < n then .ok n else .error .zero
  else .error .zero

/-- The violation that a fault of a group is, if a violation is to be added for
it. A group of size zero is not reported when `reported` holds a violation that
blames the size of a group with this id. -/
def SizingFault.violation? (g : Group) (reported : List Violation) :
    SizingFault → Option Violation
  | .both => some (.countAndPercentage g.id)
  | .outOfRange => some (.percentageOutOfRange g.id g.sizing.percentage)
  | .withoutTotal => some (.percentageWithoutTotal g.id)
  | .zero => if reported.any (·.blamesSizing g.id) then none else some (.zeroInstances g.id)

/-! ## Groups -/

/-- What validation keeps from group to group. -/
structure GroupWalk where
  /-- The ids met that are not blank. -/
  seen : List String
  /-- The violations found, in order. -/
  violations : List Violation
  /-- The numbers of instances, zero where a size does not resolve. -/
  counts : List Nat
  /-- Every size resolved. -/
  resolved : Bool

/-- The violation in the id of the group at an index. -/
def Group.idViolation? (g : Group) (index : Nat) (seen : List String) : Option Violation :=
  if Text.AllBlank g.id then some (.emptyGroupId index)
  else if g.id ∈ seen then some (.duplicateGroupId g.id)
  else none

/-- Takes in one group. -/
def GroupWalk.step (total index : Nat) (w : GroupWalk) (g : Group) : GroupWalk :=
  let violations := w.violations ++ (g.idViolation? index w.seen).toList
  let seen := if Text.AllBlank g.id then w.seen else g.id :: w.seen
  match g.sizing.resolve total with
  | .ok n => ⟨seen, violations, w.counts ++ [n], w.resolved⟩
  | .error f => ⟨seen, violations ++ (f.violation? g violations).toList, w.counts ++ [0], false⟩

/-- Takes in groups, the first of which has the index given. -/
def GroupWalk.run (total index : Nat) (w : GroupWalk) : List Group → GroupWalk
  | [] => w
  | g :: gs => (w.step total index g).run total (index + 1) gs

/-! ## Compositions -/

/-- What a composition is validated for. -/
inductive Purpose
  | build
  | run
  deriving DecidableEq

/-- A composition that passed validation. -/
structure ValidComposition where
  /-- The composition with the defaults applied and the total filled in. -/
  composition : Composition
  builder : Selector
  /-- Absent only when validated for a build with an empty runner. -/
  runner : Option Selector
  /-- The number of instances of each group. -/
  counts : List Nat

/-- The number of instances of the group at an index, zero behind the last one. -/
def ValidComposition.count (v : ValidComposition) (index : Nat) : Nat :=
  v.counts.getD index 0

/-- The total of instances. -/
def ValidComposition.total (v : ValidComposition) : Nat :=
  v.composition.settings.total

namespace Composition

/-- The violation that the outcome of reading a selector is, if it is one. -/
def selectorViolation {α : Type} (c : Component) : Except SelectorError α → List Violation
  | .ok _ => []
  | .error e => [.malformedSelector c e]

/-- The runner named in the settings; a build may leave it empty. -/
def runnerFor (purpose : Purpose) (s : Settings) : Except SelectorError (Option Selector) :=
  if purpose = .build ∧ s.runner = "" then .ok none else (Selector.parse s.runner).map some

/-- The violations in the settings of a run and in the list of groups as a whole. -/
def settingsViolations (purpose : Purpose) (c : Composition) : List Violation :=
  (if Text.AllBlank c.settings.plan then [.emptyPlan] else []) ++
    (if purpose = .run ∧ Text.AllBlank c.settings.case then [.emptyCase] else []) ++
    selectorViolation .builder (Selector.parse c.settings.builder) ++
    selectorViolation .runner (runnerFor purpose c.settings) ++
    (if c.groups.isEmpty then [.noGroups] else [])

/-- The groups taken in behind the violations of the settings. -/
def walk (purpose : Purpose) (c : Composition) : GroupWalk :=
  GroupWalk.run c.settings.total 0 ⟨[], settingsViolations purpose c, [], true⟩ c.groups

/-- The violations of the total: the numbers of instances exceed what a total
can be when it is inferred, or differ from it when it is given. -/
def totalViolations (total : Nat) (w : GroupWalk) : List Violation :=
  if total = 0 then
    if maxTotal < totalOf w.counts then [.totalOverflow (totalOf w.counts)] else []
  else if w.resolved ∧ total ≠ totalOf w.counts then [.totalMismatch total (totalOf w.counts)]
  else []

/-- All violations, in order. -/
def violations (purpose : Purpose) (c : Composition) : List Violation :=
  let w := walk purpose c
  w.violations ++ totalViolations c.settings.total w

/-- The composition with the total filled in and the defaults applied. -/
def complete (c : Composition) (counts : List Nat) : Composition :=
  let total := if c.settings.total = 0 then totalOf counts else c.settings.total
  applyDefaults { c with settings := { c.settings with total } }

/-- Validates a composition for a purpose, or lists its violations. -/
def validateFor (purpose : Purpose) (c : Composition) : Except (List Violation) ValidComposition :=
  match violations purpose c, Selector.parse c.settings.builder, runnerFor purpose c.settings with
  | [], .ok builder, .ok runner =>
    let counts := (walk purpose c).counts
    .ok ⟨complete c counts, builder, runner, counts⟩
  | vs, _, _ => .error vs

/-- Validates a composition that is to be built and run. -/
def validate (c : Composition) : Except (List Violation) ValidComposition :=
  validateFor .run c

/-- Validates a composition that is to be built only. -/
def validateForBuild (c : Composition) : Except (List Violation) ValidComposition :=
  validateFor .build c

/-- The composition with the groups at the indices given, in that order, or a
violation for each index that is out of range. -/
def pickGroups (c : Composition) (indices : List Nat) : Except (List Violation) Composition :=
  match indices.filter fun i => c.groups.length ≤ i with
  | [] => .ok { c with groups := indices.filterMap fun i => c.groups[i]? }
  | bad => .error (bad.map .groupIndexOutOfRange)

end Composition

end Conductor
