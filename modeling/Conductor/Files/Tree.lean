import Conductor.Files.Fault
import Conductor.Files.Path
import Conductor.Table
import Conductor.Text.Utf8
/-!
# Files — trees

A tree of directories, files and symbolic links, with the operations that the
program asks of it. Every operation finds its path first: component by
component from the root, through links, of which forty may be followed. Nobody
is denied anything but the execution of a file that no one may execute.
-/

namespace Conductor

/-- A node of a tree. The entries of a directory are sorted by name. -/
inductive FileNode
  | file (octets : List UInt8) (mode : Nat)
  | link (target : String)
  | directory (entries : List (String × FileNode))
  deriving Inhabited

/-- The node is a directory. -/
def FileNode.isDirectory : FileNode → Bool
  | .directory _ => true
  | _ => false

/-- The file may be executed by somebody. -/
def FileNode.isExecutable : FileNode → Bool
  | .file _ mode => mode &&& 0o111 ≠ 0
  | _ => false

/-- A tree is its root directory. -/
structure FileTree where
  root : Table FileNode

namespace FileTree

/-- The tree with nothing in its root. -/
def empty : FileTree := ⟨[]⟩

/-- A place in a tree: the names from the root on, without links. -/
abbrev Place := List String

/-- The node of a name in the directory that a node is. -/
def child? (name : String) : FileNode → Option FileNode
  | .directory entries => Table.get? name entries
  | _ => none

/-- The node at a place. -/
def node? (t : FileTree) (place : Place) : Option FileNode :=
  place.foldl (fun n name => n.bind (child? name)) (some (.directory t.root))

/-! ## Finding -/

/-- What a path leads to: a node at a place, or a name in a directory that has
no such entry. -/
inductive Found
  | node (place : Place) (node : FileNode)
  | missing (directory : Place) (name : String)

/-- The links that one path may lead through. -/
def maxLinks : Nat := 40

/-- The longest name, in octets. -/
def maxName : Nat := 255

/-- The parts of a path; one that ends with a slash has to be a directory. -/
def partsOf (path : String) : List String :=
  Path.parts path ++ (if path.toList.getLast? = some '/' then ["."] else [])

/-- Goes on from a place along parts of a path. The last part is taken as it is
when links are not `followed`. The fuel bounds the steps. -/
def walk (t : FileTree) (followed : Bool) :
    (fuel links : Nat) → Place → List String → Except FileFault Found
  | 0, _, _, _ => .error .tooManyLinks
  | fuel + 1, links, place, parts =>
    match t.node? place with
    | none => .error .notFound
    | some here =>
      match parts with
      | [] => .ok (.node place here)
      | name :: rest =>
        if !here.isDirectory then .error .notDirectory
        else if name = "." then t.walk followed fuel links place rest
        else if name = ".." then t.walk followed fuel links place.dropLast rest
        else if maxName < name.utf8ByteSize then .error .nameTooLong
        else
          match child? name here with
          | none => if rest.isEmpty then .ok (.missing place name) else .error .notFound
          | some (.link target) =>
            if rest.isEmpty && !followed then .ok (.node (place ++ [name]) (.link target))
            else
              match links with
              | 0 => .error .tooManyLinks
              | links + 1 =>
                let start := if Path.isAbsolute target then [] else place
                t.walk followed fuel links start (partsOf target ++ rest)
          | some _ => t.walk followed fuel links (place ++ [name]) rest

/-- Follows a path from the root. -/
def locate (t : FileTree) (followed : Bool) (path : String) : Except FileFault Found :=
  if path.isEmpty then .error .notFound
  else if path.toList.contains '\x00' then .error .nulInName
  else t.walk followed (path.length + 4096 * (maxLinks + 1)) maxLinks [] (partsOf path)

/-- The node that a path leads to, and its place. -/
def find (t : FileTree) (path : String) : Except FileFault (Place × FileNode) := do
  match ← t.locate true path with
  | .node place n => return (place, n)
  | .missing _ _ => throw .notFound

/-- The node that a path leads to. -/
def metadata (t : FileTree) (path : String) : Except FileFault FileNode :=
  (t.find path).map Prod.snd

/-- The path leads to something. -/
def exists? (t : FileTree) (path : String) : Bool :=
  match t.metadata path with
  | .ok _ => true
  | .error _ => false

/-- The path leads to a directory. -/
def isDirectory (t : FileTree) (path : String) : Bool :=
  match t.metadata path with
  | .ok n => n.isDirectory
  | .error _ => false

/-- The path leads to a file. -/
def isFile (t : FileTree) (path : String) : Bool :=
  match t.metadata path with
  | .ok (.file _ _) => true
  | _ => false

/-- The path of a place. -/
def pathOf (place : Place) : String := "/" ++ String.intercalate "/" place

/-- The path without links to what a path leads to. -/
def canonical (t : FileTree) (path : String) : Except FileFault String :=
  (t.find path).map fun r => pathOf r.1

/-- The octets of a file. -/
def read (t : FileTree) (path : String) : Except FileFault (List UInt8) := do
  match ← t.metadata path with
  | .file octets _ => return octets
  | _ => throw .isDirectory

/-- The text of a file. -/
def readText (t : FileTree) (path : String) : Except FileFault String := do
  match Text.Utf8.toString? (← t.read path) with
  | some s => return s
  | none => throw .notText

/-! ## Changing -/

/-- Puts a node at a place, if the directory of the place exists. -/
def put (node : FileNode) : Place → FileNode → FileNode
  | [], _ => node
  | name :: rest, .directory entries =>
    match rest, Table.get? name entries with
    | [], _ => .directory (Table.insert name node entries)
    | rest, some child => .directory (Table.insert name (put node rest child) entries)
    | _, none => .directory entries
  | _, other => other

/-- The tree with a node at a place. -/
def set (t : FileTree) (place : Place) (node : FileNode) : FileTree :=
  match put node place (.directory t.root) with
  | .directory entries => ⟨entries⟩
  | _ => t

/-- A directory of a name that the path ends with, where slashes at the end do not count. -/
def trimSlashes (path : String) : String :=
  let s := String.ofList (path.toList.reverse.dropWhile (· = '/')).reverse
  if s.isEmpty && !path.isEmpty then "/" else s

/-- Makes one directory. -/
def makeDirectory (t : FileTree) (path : String) : Except FileFault FileTree := do
  match ← t.locate false (trimSlashes path) with
  | .node _ _ => throw .exists
  | .missing place name => return t.set (place ++ [name]) (.directory [])

/-- Makes a directory and all that are missing above it; what is a directory
already is left alone, and what has been made stays when something fails. The
fuel bounds the directories above. -/
def makeDirectories (t : FileTree) :
    (fuel : Nat) → (path : String) → Except FileFault Unit × FileTree
  | 0, _ => (.error .notFound, t)
  | fuel + 1, path =>
    if path.isEmpty then (.ok (), t)
    else
      match t.makeDirectory path with
      | .ok t => (.ok (), t)
      | .error .notFound =>
        match Path.parent? path with
        | none => (.error .notFound, t)
        | some above =>
          match t.makeDirectories fuel above with
          | (.error e, t) => (.error e, t)
          | (.ok (), t) =>
            match t.makeDirectory path with
            | .ok t => (.ok (), t)
            | .error e => (if t.isDirectory path then .ok () else .error e, t)
      | .error e => (if t.isDirectory path then .ok () else .error e, t)

/-- Makes a directory with all above it. -/
def createAll (t : FileTree) (path : String) : Except FileFault Unit × FileTree :=
  t.makeDirectories (path.length + 1) path

/-- Writes a file, anew or behind what is there. -/
def write (t : FileTree) (append : Bool) (path : String) (octets : List UInt8) :
    Except FileFault FileTree := do
  match ← t.locate true path with
  | .node place (.file before mode) =>
    return t.set place (.file (if append then before ++ octets else octets) mode)
  | .node _ _ => throw .isDirectory
  | .missing place name => return t.set (place ++ [name]) (.file octets 0o644)

/-- Sets who may do what with a file. -/
def setMode (t : FileTree) (path : String) (mode : Nat) : Except FileFault FileTree := do
  match ← t.find path with
  | (place, .file octets _) => return t.set place (.file octets mode)
  | _ => return t

/-- Makes a symbolic link. -/
def makeLink (t : FileTree) (path target : String) : Except FileFault FileTree := do
  match ← t.locate false path with
  | .node _ _ => throw .exists
  | .missing place name => return t.set (place ++ [name]) (.link target)

/-! ## Listing -/

mutual

/-- The paths of what is below a node, with a slash behind a directory. -/
def listing (above : String) : FileNode → List String
  | .directory entries => listingOf above entries
  | _ => []

/-- The paths of entries and of what is below them. -/
def listingOf (above : String) : List (String × FileNode) → List String
  | [] => []
  | (name, n) :: rest =>
    let path := above ++ name
    let own := match n with
      | .directory _ => path ++ "/"
      | _ => path
    own :: (listing (path ++ "/") n ++ listingOf above rest)

end

/-- Lists everything below a path. -/
def list (t : FileTree) (path : String) : List String :=
  match t.metadata path with
  | .ok n => listing "" n
  | .error _ => []

end FileTree

end Conductor
