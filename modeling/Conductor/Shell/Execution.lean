import Conductor.Files.Tree
import Conductor.Shell.Command
import Conductor.Shell.Format
/-!
# Shell — execution

A script is executed command by command. What it writes goes to its output, to
its errors, or into files; nothing is ever read from the input. The shell has no
other programs at hand than the usual small ones, and does not wait: of a script
that lets time pass it is only known that it has not come to its end at once.
-/

namespace Conductor

namespace Shell

/-- Where a stream leads. -/
inductive Sink
  | output
  | errors
  | file (path : String)
  | nowhere

/-- Where the two streams lead. -/
structure Sinks where
  output : Sink
  errors : Sink

namespace Sinks

/-- Each stream leads where its name says. -/
def standard : Sinks := ⟨.output, .errors⟩

/-- Where a stream leads, by number. -/
def get (s : Sinks) (stream : Nat) : Sink :=
  if stream = 1 then s.output else if stream = 2 then s.errors else .nowhere

/-- A stream leads somewhere else. -/
def set (s : Sinks) (stream : Nat) (sink : Sink) : Sinks :=
  if stream = 1 then { s with output := sink }
  else if stream = 2 then { s with errors := sink }
  else s

end Sinks

/-- A script at work. -/
structure Execution where
  /-- The path of the script. -/
  script : String
  arguments : List Raw
  /-- The parameters that have names. -/
  named : Table Raw
  files : FileTree
  sinks : Sinks
  /-- The status of the last command. -/
  status : Nat
  output : Raw
  errors : Raw
  /-- Time has passed. -/
  rested : Bool
  ended : Bool

namespace Execution

/-- The number by which a script knows its own process. -/
def ownNumber : String := "2"

/-- A script before its first command. -/
def start (script : String) (arguments : List Raw) (named : Table Raw) (files : FileTree) :
    Execution :=
  ⟨script, arguments, named, files, .standard, 0, [], [], false, false⟩

/-- The value of a parameter. -/
def value (x : Execution) (parameter : String) : Raw :=
  match parameter with
  | "#" => Raw.ofString (toString x.arguments.length)
  | "?" => Raw.ofString (toString x.status)
  | "$" => Raw.ofString ownNumber
  | "*" => [' '].intercalate x.arguments
  | "0" => Raw.ofString x.script
  | name =>
    if name.toList.all Char.isDigit then x.arguments.getD (name.toNat?.getD 0 - 1) []
    else (x.named.get? name).getD []

/-- What parameters mean. -/
def parameters (x : Execution) : Parameters := ⟨x.value, x.arguments⟩

/-- Text is written to where a stream leads. -/
def writeTo (x : Execution) (sink : Sink) (r : Raw) : Execution :=
  match sink with
  | .output => { x with output := x.output ++ r }
  | .errors => { x with errors := x.errors ++ r }
  | .file path =>
    match x.files.write true path r.octets with
    | .ok files => { x with files }
    | .error _ => x
  | .nowhere => x

/-- Text is written to the output. -/
def write (x : Execution) (r : Raw) : Execution := x.writeTo x.sinks.output r

/-- A line is written to the errors. -/
def complain (x : Execution) (line : String) : Execution :=
  x.writeTo x.sinks.errors (Raw.ofString (line ++ "\n"))

/-- The last command has a status. -/
def finish (x : Execution) (status : Nat) : Execution := { x with status }

/-- The script ends. -/
def stop (x : Execution) (status : Nat) : Execution := { x with status, ended := true }

/-- A complaint of the shell about a command. -/
def refuse (x : Execution) (line : Nat) (reason : String) (status : Nat) : Execution :=
  (x.complain (x.script ++ ": " ++ toString line ++ ": " ++ reason)).finish status

/-! ## Programs -/

/-- A parameter gets a value. -/
def assign (x : Execution) (a : String × Word) : Execution :=
  { x with named := x.named.insert a.1 (Word.flat x.parameters a.2) }

/-- Files are written to the output one after another. -/
def concatenate (x : Execution) (path : Raw) : Execution :=
  match x.files.read (Raw.text path) with
  | .ok octets => x.write (Raw.ofOctets octets)
  | .error _ => (x.complain ("cat: " ++ Raw.text path ++ ": No such file or directory")).finish 1

/-- Whether a condition on texts holds, if it is one. -/
def test? : List Raw → Option Bool
  | [] => some false
  | [r] => some !r.isEmpty
  | [['-', 'n'], r] => some !r.isEmpty
  | [['-', 'z'], r] => some r.isEmpty
  | [a, ['='], b] => some (a = b)
  | [a, ['!', '='], b] => some (a ≠ b)
  | _ => none

/-- The status of a condition. -/
def testStatus (arguments : List Raw) : Nat :=
  match test? arguments with
  | some true => 0
  | some false => 1
  | none => 2

/-- The status that an argument asks for. -/
def statusOf (x : Execution) (arguments : List Raw) : Nat :=
  match arguments with
  | [] => x.status
  | r :: _ => ((Raw.text r).toNat?.getD 2) % 256

/-- A time is no time at all. -/
def isInstant (r : Raw) : Bool := r.all fun c => c = '0' || c = '.'

/-- A program is executed with its arguments; nothing if there is none of its name.
The options that a script sets have no meaning here. -/
def call? (x : Execution) (program : String) (arguments : List Raw) : Option Execution :=
  match program with
  | ":" => some (x.finish 0)
  | "true" => some (x.finish 0)
  | "false" => some (x.finish 1)
  | "echo" => some ((x.write (echoed arguments)).finish 0)
  | "printf" => some ((x.write (formatted (arguments.headD []) arguments.tail)).finish 0)
  | "cat" => some (arguments.foldl concatenate (x.finish 0))
  | "sleep" => some { x.finish 0 with rested := x.rested || !arguments.all isInstant }
  | "test" => some (x.finish (testStatus arguments))
  | "[" =>
    some (x.finish (if arguments.getLast? = some [']'] then testStatus arguments.dropLast else 2))
  | "export" =>
    some ((arguments.foldl (fun x r =>
      match Word.assignment? [.text r] with
      | some a => x.assign a
      | none => x) x).finish 0)
  | "set" => some (x.finish 0)
  | "exit" => some (x.stop (x.statusOf arguments))
  | "kill" =>
    some (if Raw.ofString ownNumber ∈ arguments then x.stop 137 else x.finish 1)
  | _ => none

/-! ## Commands -/

/-- Why a file cannot be made, in the words of the shell. -/
def creationReason : FileFault → String
  | .notFound => "Directory nonexistent"
  | .notDirectory => "Directory nonexistent"
  | .isDirectory => "Is a directory"
  | _ => "Permission denied"

/-- Where all that is written to it gets lost. -/
def voidPath : String := "/dev/null"

/-- A stream is redirected, or the reason why it cannot be. -/
def redirect (x : Execution) (r : Redirect) : Except String Execution :=
  let target := Raw.text (Word.flat x.parameters r.target)
  let into (append : Bool) : Except String Execution :=
    if target = voidPath then .ok { x with sinks := x.sinks.set r.stream .nowhere }
    else
      match x.files.write append target [] with
      | .ok files => .ok { x with files, sinks := x.sinks.set r.stream (.file target) }
      | .error e => .error ("cannot create " ++ target ++ ": " ++ creationReason e)
  match r.how with
  | .write => into false
  | .append => into true
  | .copy => .ok { x with sinks := x.sinks.set r.stream (x.sinks.get (target.toNat?.getD 0)) }
  | .read => .ok x

/-- A program is executed, or the shell complains that there is none. -/
def perform (x : Execution) (line : Nat) (program : Raw) (arguments : List Raw) : Execution :=
  match x.call? (Raw.text program) arguments with
  | some x => x
  | none => x.refuse line (Raw.text program ++ ": not found") 127

/-- A command is executed. Its redirections hold for the command alone. Behind
`exec` a program takes the place of the script, and with no program the
redirections stay. -/
def run (x : Execution) (c : Command) : Execution :=
  if x.ended || !c.condition.holds x.status then x
  else
    let (assignments, words) := splitAssignments c.words
    let fields := words.flatMap (Word.fields x.parameters)
    match c.redirects.foldlM redirect x with
    | .error reason => x.refuse c.line reason 2
    | .ok y =>
      match fields with
      | [] => { assignments.foldl assign y with sinks := x.sinks, status := 0 }
      | program :: arguments =>
        if Raw.text program = "exec" then
          match arguments with
          | [] => y.finish 0
          | program :: arguments => { y.perform c.line program arguments with ended := true }
        else { y.perform c.line program arguments with sinks := x.sinks }

/-- A script is executed. Where something foreign begins it ends. -/
def runScript (x : Execution) (s : Script) : Execution :=
  let x := s.commands.foldl run x
  if x.ended || !s.broken then x else x.stop 2

end Execution

end Shell

end Conductor
