import Conductor.Health.Check
/-!
# Health — fixers

A fixer is a single step, or made of fixers: all of them, or any one of them.
Steps work on a state, which they may change also when they fail, and a step may
never come to an end. They are taken from left to right, and none is taken
behind the one that decides.
-/

namespace Conductor

/-- A fixer over single steps. -/
inductive Fixer (β : Type)
  | step (step : β)
  | all (fixers : List (Fixer β))
  | any (fixers : List (Fixer β))

namespace Fixer

/-- The error of a choice among no fixers. -/
def noFixers : CheckError := ⟨"no fixers to try.", ["empty fixer list"]⟩

variable {β σ : Type}

mutual

/-- Takes the steps of a fixer. There is no result when a step does not come to an end. -/
def run (take : β → σ → Option FixResult × σ) : Fixer β → σ → Option FixResult × σ
  | .step b, s => take b s
  | .all fs, s => runAll take [] fs s
  | .any fs, s => runAny take noFixers fs s

/-- Takes fixers until one fails; behind all of them stand their messages. -/
def runAll (take : β → σ → Option FixResult × σ) (messages : List String) :
    List (Fixer β) → σ → Option FixResult × σ
  | [], s => (some (.ok (String.intercalate "; " messages)), s)
  | f :: fs, s =>
    match run take f s with
    | (some (.ok m), s) => runAll take (messages ++ [m]) fs s
    | (some (.error e), s) => (some (.error e), s)
    | (none, s) => (none, s)

/-- Takes fixers until one succeeds; behind all of them stands the last error. -/
def runAny (take : β → σ → Option FixResult × σ) (last : CheckError) :
    List (Fixer β) → σ → Option FixResult × σ
  | [], s => (some (.error last), s)
  | f :: fs, s =>
    match run take f s with
    | (some (.ok m), s) => (some (.ok m), s)
    | (some (.error e), s) => runAny take e fs s
    | (none, s) => (none, s)

end

end Fixer

end Conductor
