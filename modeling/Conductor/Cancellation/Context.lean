import Conductor.Cancellation.Tokens
/-!
# Cancellation — contexts

A context is what the parts of a run are handed: the id of the run, and the
token by which the run can be canceled. Contexts are derived from contexts. A
child has a token of its own below that of its parent, a copy has the same
token, and a context for another run may share the token of an older one.
-/

namespace Conductor

/-- A run's id and the token that cancels it. -/
structure Context where
  runId : String
  token : Nat
  deriving DecidableEq

/-- The contexts made so far, over their tokens. -/
structure Contexts where
  tokens : Tokens
  toList : List Context
  deriving DecidableEq

namespace Contexts

/-- What can be done with a context, which is named by its place in the list. -/
inductive Step
  | child (context : Nat)
  | copy (context : Nat)
  | share (context : Nat) (runId : String)
  | cancel (context : Nat)
  deriving DecidableEq

/-- The context of a run that begins. -/
def root (runId : String) : Contexts := ⟨.root, [⟨runId, 0⟩]⟩

/-- Takes a step; one at a context that does not exist changes nothing. -/
def step (c : Contexts) : Step → Contexts
  | .child i =>
    match c.toList[i]? with
    | some parent => ⟨c.tokens.child parent.token, c.toList ++ [⟨parent.runId, c.tokens.size⟩]⟩
    | none => c
  | .copy i => { c with toList := c.toList ++ c.toList[i]?.toList }
  | .share i runId =>
    { c with toList := c.toList ++ (c.toList[i]?.map fun x => ⟨runId, x.token⟩).toList }
  | .cancel i =>
    match c.toList[i]? with
    | some x => { c with tokens := c.tokens.cancel x.token }
    | none => c

/-- The contexts after some steps. -/
def run (c : Contexts) (steps : List Step) : Contexts :=
  steps.foldl step c

/-- Whether a context is canceled. -/
def isCanceled (c : Contexts) (x : Context) : Bool := c.tokens.isCanceled x.token

end Contexts

end Conductor
