/-!
# Files — paths

A path is a text whose components stand between slashes. Two or more slashes
count as one, and a component that is a single dot means nothing, except in
front of all others. A path that begins with a slash starts at the root.
-/

namespace Conductor

namespace Path

/-- The path starts at the root. -/
def isAbsolute (path : String) : Bool := path.toList.head? = some '/'

/-- The path of `part` below `base`: an absolute part replaces the base, and an
empty one closes the base with a slash. -/
def join (base part : String) : String :=
  if isAbsolute part then part
  else if base.isEmpty || base.toList.getLast? = some '/' then base ++ part
  else base ++ "/" ++ part

/-- The texts between slashes, without empty ones. -/
def parts (path : String) : List String :=
  (path.splitOn "/").filter (· ≠ "")

/-- The components: the parts without single dots, but for one that opens a
relative path. -/
def components (path : String) : List String :=
  match parts path with
  | [] => []
  | p :: ps =>
    if p = "." ∧ ¬ isAbsolute path then p :: ps.filter (· ≠ ".")
    else (p :: ps).filter (· ≠ ".")

/-- The path without its last component; none for the root and the empty path. -/
def parent? (path : String) : Option String :=
  match components path with
  | [] => none
  | cs => some ((if isAbsolute path then "/" else "") ++ String.intercalate "/" cs.dropLast)

end Path

end Conductor
