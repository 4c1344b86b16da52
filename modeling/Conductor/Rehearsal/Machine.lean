import Conductor.Local.Builder
import Conductor.Local.Runner
import Conductor.Rehearsal.Performance
import Conductor.Shell.Execution
/-!
# Rehearsal — the machine

The local runner starts processes. In a rehearsal a machine takes the place of
the operating system: it has a tree of files, a few programs, and a shell that
executes scripts. What a script does happens at once, while it is started.
-/

namespace Conductor

namespace Rehearsal

namespace Machine

/-- The directory of the programs. -/
def programs : String := "/usr/bin"

/-- The shell. -/
def shell : String := "dash"

/-- The program that starts another one by name. -/
def starter : String := "env"

/-- The names of the programs. -/
def names : List String := [shell, starter, "true", "false", "echo", "printf", "cat", "sleep", "test"]

/-- The first octets of a program. -/
def programOctets : List UInt8 := [127, 69, 76, 70]

/-- Makes a file that everybody may execute. -/
def installProgram (t : FileTree) (name : String) : Except FileFault FileTree := do
  let path := Path.join programs name
  let t ← t.write false path programOctets
  t.setMode path 0o755

/-- The tree of a machine with nothing in it but the programs. -/
def files : FileTree :=
  let installed : Except FileFault FileTree := do
    let t ← (FileTree.empty.createAll programs).2.makeLink "/bin" "usr/bin"
    let t ← t.makeLink "/usr/bin/sh" shell
    names.foldlM installProgram t
  match installed with
  | .ok t => t
  | .error _ => .empty

/-- Where programs are looked for by name. -/
def searched : List String := ["/usr/local/bin", programs, "/bin"]

/-- The path of what is started under a name. One with a slash is a path. -/
def pathOf? (t : FileTree) (program : String) : Option String :=
  if program.toList.contains '/' then some program
  else
    (searched.map fun d => Path.join d program).find? fun path =>
      match t.metadata path with
      | .ok n => n.isExecutable
      | .error _ => false

/-- The process that an execution is, and the files that it leaves. -/
def processOf (x : Shell.Execution) : Local.Process × FileTree :=
  (⟨⟨[Shell.Raw.octets x.output], .closed⟩, ⟨[Shell.Raw.octets x.errors], .closed⟩, !x.rested⟩,
    x.files)

/-- The environment of a process as parameters of a shell. -/
def parametersOf (env : Table String) : Table Shell.Raw :=
  env.map fun e => (e.1, Shell.Raw.ofString e.2)

/-- The text is an option of the shell, other than that of a script. -/
def isOption (s : String) : Bool := s.startsWith "-" && s ≠ "-c"

/-- The shell executes a script: the one at the path that comes first behind
options, or the one behind `-c`. -/
def runShell (t : FileTree) (env : Table String) (args : List String) : Shell.Execution :=
  let start (script : String) (args : List String) : Shell.Execution :=
    .start script (args.map Shell.Raw.ofString) (parametersOf env) t
  match args.dropWhile isOption with
  | "-c" :: text :: rest =>
    (start (rest.headD shell) rest.tail).runScript (.read (Shell.Raw.ofString text))
  | script :: rest =>
    match t.read script with
    | .ok octets => (start script rest).runScript (.read (Shell.Raw.ofOctets octets))
    | .error _ => (start shell rest).refuse 0 ("cannot open " ++ script ++ ": No such file") 2
  | [] => start shell []

/-- The program of a name is executed. Behind its option the echo program writes
no newline; it knows no escapes. -/
def runProgram (t : FileTree) (env : Table String) (program : String) (args : List String) :
    Shell.Execution :=
  let x := Shell.Execution.start program [] (parametersOf env) t
  if program = shell then runShell t env args
  else if program = "echo" then
    x.write (Shell.Raw.ofString (match args with
      | "-n" :: rest => " ".intercalate rest
      | all => " ".intercalate all ++ "\n"))
  else (x.call? program (args.map Shell.Raw.ofString)).getD x

/-- The blanks around words in the first line of a script. -/
def trimBlanks (s : List Char) : List Char :=
  ((s.dropWhile fun c => c = ' ' || c = '\t').reverse.dropWhile fun c =>
    c = ' ' || c = '\t').reverse

/-- The interpreter that the first line of a script names, and its argument. -/
def interpreter? (octets : List UInt8) : Option (String × List String) :=
  match Shell.Raw.ofOctets octets with
  | '#' :: '!' :: rest =>
    match (trimBlanks (rest.takeWhile (· ≠ '\n'))).span fun c => c ≠ ' ' && c ≠ '\t' with
    | ([], _) => none
    | (path, argument) =>
      let argument := trimBlanks argument
      some (Shell.Raw.text path, if argument.isEmpty then [] else [Shell.Raw.text argument])
  | _ => none

/-- The name of the program at a path. -/
def programAt? (t : FileTree) (path : String) : Option String :=
  match t.canonical path with
  | .ok path => names.find? fun name => Path.join programs name = path
  | .error _ => none

/-- Executes what is at a path. The fuel bounds the interpreters of interpreters. -/
def execute (t : FileTree) (env : Table String) :
    (fuel : Nat) → (path : String) → List String → Except FileFault Shell.Execution
  | 0, _, _ => .error .tooManyLinks
  | fuel + 1, path, args =>
    match t.metadata path with
    | .error e => .error e
    | .ok n =>
      if !n.isExecutable then .error .permissionDenied
      else
        match programAt? t path with
        | some name =>
          if name = starter then
            match args with
            | program :: args =>
              match pathOf? t program with
              | some path => execute t env fuel path args
              | none => .error .notFound
            | [] => .ok (.start path [] [] t)
          else .ok (runProgram t env name args)
        | none =>
          match t.read path with
          | .error e => .error e
          | .ok octets =>
            match interpreter? octets with
            | some (interpreter, first) => execute t env fuel interpreter (first ++ path :: args)
            | none => .error .badFormat

/-- A text holds a zero character. -/
def hasNul (s : String) : Bool := s.toList.contains '\x00'

/-- More interpreters of interpreters than are ever followed. -/
def maxInterpreters : Nat := 5

/-- Starts the process of a command. -/
def launch : Local.Launcher := fun t c =>
  if hasNul c.program || c.args.any hasNul || c.env.any fun e => hasNul e.1 || hasNul e.2 then
    (.error .nulInCommand, t)
  else
    match pathOf? t c.program with
    | none => (.error .notFound, t)
    | some path =>
      match execute t c.env maxInterpreters path c.args with
      | .error e => (.error e, t)
      | .ok x =>
        let (p, t) := processOf x
        (.ok p, t)

end Machine

/-! ## The local backends -/

/-- The health check of the local runner, with the stock check and fix of directories. -/
def directoryItems (d : Directories) : List ScriptedItem :=
  (Local.healthDirectories d).map fun x =>
    ⟨x.1, .directory x.2, some (.step (.directory x.2))⟩

/-- The local backends at work on a machine. They do at once what they have to do. -/
def localCast (d : Directories) : Cast where
  build b _ input :=
    { label := none, delay := 0, heeds := false, waits := false, cancelsRun := false
      ending := .returned (Local.build b.files b.canceled input) }
  run b _ input :=
    let (r, files) := Local.run Machine.launch d (fun _ => b.canceled) input b.files
    (⟨r.launches.map Local.Launch.action, none, false, r.result⟩, { b with files })
  task _ n := taskOf? (directoryItems d) n

end Rehearsal

end Conductor
