import Conductor.Toml.Scan
/-!
# TOML — the tree of tables

A document builds a tree, and three rules keep a table from being defined
twice. A table that a header names is defined by it, once, even when it began
as a mere step on the way to another table. A table that a dotted key steps
through belongs to the place where the key stands, and no header can name it.
An array of tables is extended by headers with its name alone, and a path
through it goes into its last table.
-/

namespace Conductor

namespace Toml

/-- How a table came to be. -/
inductive Origin
  /-- A header or braces define it. -/
  | defined
  /-- A header steps through it. -/
  | implied
  /-- A dotted key steps through it. -/
  | dotted
  deriving DecidableEq

/-- A node of the tree. -/
inductive Node
  | leaf (value : Json.Document)
  | table (origin : Origin) (entries : List (String × Node))
  /-- An array of tables, the last one first. -/
  | tables (items : List Node)

/-- A table with nothing in it. -/
def Node.emptyTable (o : Origin) : Node := .table o []

/-- Changes the table that a path leads to. Missing steps are made with the
origin given; a step of dotted keys enters no table that a header defines. -/
def Node.change (steps : Origin) (f : Node → Option Node) : List String → Node → Option Node
  | [], n => f n
  | k :: ks, .table o entries =>
    match Table.get? k entries with
    | none => do
      let n ← Node.change steps f ks (.emptyTable steps)
      return .table o (Table.insert k n entries)
    | some (.leaf _) => none
    | some (.tables []) => none
    | some (.tables (last :: others)) => do
      let n ← Node.change steps f ks last
      return .table o (Table.insert k (.tables (n :: others)) entries)
    | some (.table inner es) =>
      if steps = .dotted ∧ inner = .defined then none
      else do
        let n ← Node.change steps f ks (.table inner es)
        return .table o (Table.insert k n entries)
  | _ :: _, _ => none

/-- Sets a key of a table that has no such key. -/
def Node.put (k : String) (value : Json.Document) : Node → Option Node
  | .table o entries =>
    match Table.get? k entries with
    | some _ => none
    | none => some (.table o (Table.insert k (.leaf value) entries))
  | _ => none

/-- Sets the value of a dotted key within a table. The last table on the path
has to be the table itself or one that dotted keys made. -/
def Node.assign (path : List String) (k : String) (value : Json.Document) (t : Node) :
    Option Node :=
  t.change .dotted (fun
    | .table o entries =>
      if path = [] ∨ o = .dotted then Node.put k value (.table o entries) else none
    | _ => none) path

/-- The path and the last part of a key. -/
def splitKey (parts : List String) : List String × String :=
  (parts.dropLast, parts.getLastD "")

mutual

/-- The document of a node. -/
def Node.document : Node → Json.Document
  | .leaf d => d
  | .table _ entries => .object (Node.members entries) .closed
  | .tables items => .array (Node.documents items).reverse .closed

/-- The documents of nodes. -/
def Node.documents : List Node → List Json.Document
  | [] => []
  | n :: ns => Node.document n :: Node.documents ns

/-- The members of a table. -/
def Node.members : List (String × Node) → List (Json.Document × Json.Document)
  | [] => []
  | (k, n) :: es => (.string k, Node.document n) :: Node.members es

end

/-- Defines the table that a header names: one that is only implied goes on,
and one that is missing begins. -/
def Node.define (parts : List String) (root : Node) : Option Node :=
  let (path, k) := splitKey parts
  root.change .implied (fun
    | .table o entries =>
      match Table.get? k entries with
      | none => some (.table o (Table.insert k (.emptyTable .defined) entries))
      | some (.table .implied es) => some (.table o (Table.insert k (.table .defined es) entries))
      | some _ => none
    | _ => none) path

/-- Adds a table to the array of tables that a header names. -/
def Node.extend (parts : List String) (root : Node) : Option Node :=
  let (path, k) := splitKey parts
  root.change .implied (fun
    | .table o entries =>
      match Table.get? k entries with
      | none => some (.table o (Table.insert k (.tables [.emptyTable .defined]) entries))
      | some (.tables items) =>
        some (.table o (Table.insert k (.tables (.emptyTable .defined :: items)) entries))
      | some _ => none
    | _ => none) path

/-- Sets a key in the table of the last header. -/
def Node.assignIn (header parts : List String) (value : Json.Document) (root : Node) :
    Option Node :=
  let (path, k) := splitKey parts
  root.change .implied (Node.assign path k value) header

end Toml

end Conductor
