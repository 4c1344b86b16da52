/-!
# Cancellation — tokens

Tokens form a forest: a token is a root, or the child of an older one. To
cancel a token cancels everything below it and nothing else, and a child of a
canceled token is canceled from the start. A token is named by its place in the
order of creation, so a parent stands in front of its children, and one pass
over the list reaches all descendants of a token.
-/

namespace Conductor

/-- A token: its parent, and whether it is canceled. -/
structure Token where
  parent : Option Nat
  canceled : Bool
  deriving DecidableEq

/-- A forest of tokens, in order of creation. -/
structure Tokens where
  toList : List Token
  deriving DecidableEq

namespace Tokens

/-- One root, not canceled. -/
def root : Tokens := ⟨[⟨none, false⟩]⟩

/-- The token has been canceled. A token that does not exist has not. -/
def isCanceled (t : Tokens) (i : Nat) : Bool :=
  match t.toList[i]? with
  | some token => token.canceled
  | none => false

/-- The name of the next token. -/
def size (t : Tokens) : Nat := t.toList.length

/-- A new child of a token, whose name is the size before. -/
def child (t : Tokens) (i : Nat) : Tokens :=
  ⟨t.toList ++ [⟨some i, t.isCanceled i⟩]⟩

/-- Whether a token is among those to cancel, when `marks` says it of the tokens before it. -/
def reached (target index : Nat) (marks : List Bool) (token : Token) : Bool :=
  index = target ||
    match token.parent with
    | some p => marks.getD p false
    | none => false

/-- Cancels the target and what is below it among the tokens from `index` on. -/
def cancelFrom (target index : Nat) (marks : List Bool) : List Token → List Token
  | [] => []
  | token :: rest =>
    let mark := reached target index marks token
    { token with canceled := token.canceled || mark } ::
      cancelFrom target (index + 1) (marks ++ [mark]) rest

/-- Cancels a token and everything below it. -/
def cancel (t : Tokens) (i : Nat) : Tokens :=
  ⟨cancelFrom i 0 [] t.toList⟩

/-- The parent of a token. -/
def IsChild (t : Tokens) (child parent : Nat) : Prop :=
  ∃ token, t.toList[child]? = some token ∧ token.parent = some parent

/-- The first token is the second or lies above it. -/
inductive Above (t : Tokens) : Nat → Nat → Prop
  | self (i : Nat) : Above t i i
  | parent {i p j : Nat} : t.IsChild j p → Above t i p → Above t i j

end Tokens

end Conductor
