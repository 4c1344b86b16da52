import Conductor.Json.Decode
import Conductor.Toml.Tree
/-!
# TOML — documents

A TOML text is a sequence of lines, each a header or a key with its value,
with blanks and comments around them. `Toml.parse` gives the root table as a
document of the form that JSON texts are read into; its times are objects with
a single member.
-/

namespace Conductor

namespace Toml

/-- The characters behind blanks, comments and line ends. -/
def skipLines (fuel : Nat) (cs : List Char) : List Char :=
  match fuel with
  | 0 => cs
  | fuel + 1 =>
    let cs := skipComment (skipGap cs)
    match newline? cs with
    | some cs => skipLines fuel cs
    | none => cs

/-- A word that stands for itself. -/
def scanWord (word : List Char) (d : Json.Document) (cs : List Char) :
    Option (Json.Document × List Char) :=
  if cs.take word.length = word then some (d, cs.drop word.length) else none

mutual

/-- A value, with at most `depth` arrays and inline tables open at once. -/
def scanValue (fuel depth : Nat) (cs : List Char) : Option (Json.Document × List Char) :=
  match fuel with
  | 0 => none
  | fuel + 1 =>
    match cs with
    | [] => none
    | c :: behind =>
      if c = '"' then (scanString .double behind).map fun (s, cs) => (.string s, cs)
      else if c = '\'' then (scanString .single behind).map fun (s, cs) => (.string s, cs)
      else if c = '[' then
        match depth with
        | 0 => none
        | depth + 1 =>
          (scanItems fuel depth behind).map fun (ds, cs) => (.array ds .closed, cs)
      else if c = '\x7b' then
        match depth with
        | 0 => none
        | depth + 1 =>
          match skipGap behind with
          | [] => none
          | d :: cs =>
            if d = '\x7d' then some (.object [] .closed, cs)
            else
              (scanMembers fuel depth (.emptyTable .defined) (d :: cs)).map fun (n, cs) =>
                (n.document, cs)
      else if c = 't' then scanWord ['t', 'r', 'u', 'e'] (.bool true) cs
      else if c = 'f' then scanWord ['f', 'a', 'l', 's', 'e'] (.bool false) cs
      else scanNumber cs

/-- The items of an array behind its opening bracket or a comma, up to and with
the closing bracket. A comma may follow the last item. -/
def scanItems (fuel depth : Nat) (cs : List Char) : Option (List Json.Document × List Char) :=
  match fuel with
  | 0 => none
  | fuel + 1 =>
    match skipLines cs.length cs with
    | [] => none
    | c :: behind =>
      if c = ']' then some ([], behind)
      else
        match scanValue fuel depth (c :: behind) with
        | none => none
        | some (d, cs) =>
          match skipLines cs.length cs with
          | [] => none
          | c :: behind =>
            if c = ']' then some ([d], behind)
            else if c = ',' then
              match scanItems fuel depth behind with
              | some (ds, cs) => some (d :: ds, cs)
              | none => none
            else none

/-- The members of an inline table from the start of a key, up to and with the
closing brace. They stand on one line. -/
def scanMembers (fuel depth : Nat) (t : Node) (cs : List Char) : Option (Node × List Char) :=
  match fuel with
  | 0 => none
  | fuel + 1 =>
    match scanKey cs with
    | none => none
    | some (parts, cs) =>
      match expect '=' cs with
      | none => none
      | some cs =>
        match scanValue fuel depth (skipGap cs) with
        | none => none
        | some (d, cs) =>
          let (path, k) := splitKey parts
          match t.assign path k d, skipGap cs with
          | some t, c :: behind =>
            if c = '\x7d' then some (t, behind)
            else if c = ',' then scanMembers fuel depth t behind
            else none
          | _, _ => none

end

/-- A header: whether it adds to an array of tables, its key, and what follows. -/
def scanHeader (cs : List Char) : Option (Bool × List String × List Char) :=
  match cs with
  | '[' :: '[' :: cs => do
    let (parts, cs) ← scanKey cs
    let cs ← expect ']' (← expect ']' cs)
    return (true, parts, ← lineEnd? cs)
  | '[' :: cs => do
    let (parts, cs) ← scanKey cs
    let cs ← expect ']' cs
    return (false, parts, ← lineEnd? cs)
  | _ => none

/-- A key with its value, and what follows its line. -/
def scanAssignment (cs : List Char) : Option (List String × Json.Document × List Char) := do
  let (parts, cs) ← scanKey cs
  let cs ← expect '=' cs
  let (d, cs) ← scanValue (2 * cs.length + 2) maxDepth (skipGap cs)
  return (parts, d, ← lineEnd? cs)

/-- Reads the lines of a document into a tree. -/
def readLines (fuel : Nat) (root : Node) (header : List String) (cs : List Char) : Option Node :=
  match fuel with
  | 0 => none
  | fuel + 1 =>
    match skipGap cs with
    | [] => some root
    | '#' :: cs => do
      let cs ← lineEnd? ('#' :: cs)
      readLines fuel root header cs
    | '[' :: cs => do
      let (inArray, parts, cs) ← scanHeader ('[' :: cs)
      let root ← if inArray then root.extend parts else root.define parts
      readLines fuel root parts cs
    | c :: cs =>
      match newline? (c :: cs) with
      | some cs => readLines fuel root header cs
      | none => do
        let (parts, d, cs) ← scanAssignment (c :: cs)
        let root ← root.assignIn header parts d
        readLines fuel root header cs

/-- The root table of a text; a byte order mark may stand in front. -/
def parse (s : String) : Option Json.Document :=
  let cs := match s.toList with
    | '\uFEFF' :: cs => cs
    | cs => cs
  (readLines (cs.length + 1) (.emptyTable .defined) [] cs).map Node.document

/-- Decodes a TOML text; a text that is none, or that has the wrong shape, is
refused without a reason. -/
def decodeText {α : Type} (item : Json.Decoder α) (s : String) : Option α := do
  let d ← parse s
  (item .table d).toOption

end Toml

end Conductor
