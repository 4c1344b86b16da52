import Conductor.Log.Line
/-!
# Runs — verdicts

Each instance of a run ends with a verdict, and the run with an outcome. An
instance that failed and one that ended without saying how count as failures;
one that a cancellation cut short does not.
-/

namespace Conductor

/-- What became of an instance. -/
inductive Verdict
  | running
  | passed
  | failed
  | incomplete
  | canceled
  deriving DecidableEq

namespace Verdict

/-- The names of verdicts. -/
def names : List (String × Verdict) :=
  [("running", .running), ("passed", .passed), ("failed", .failed), ("incomplete", .incomplete),
   ("canceled", .canceled)]

/-- The name of a verdict. -/
def name : Verdict → String
  | .running => "running"
  | .passed => "passed"
  | .failed => "failed"
  | .incomplete => "incomplete"
  | .canceled => "canceled"

/-- The verdict counts towards the failures of the run. -/
def isFailure : Verdict → Bool
  | .failed => true
  | .incomplete => true
  | _ => false

/-- A verdict from JSON. -/
def decode : Json.Decoder Verdict := Json.Decode.variant names

end Verdict

/-- What became of a run. -/
inductive RunOutcome
  | success
  | failure (failed : Nat)
  | canceled
  deriving DecidableEq

namespace RunOutcome

/-- The name of an outcome. -/
def name : RunOutcome → String
  | .success => "success"
  | .failure _ => "failure"
  | .canceled => "canceled"

/-- All instances passed. -/
def isSuccess : RunOutcome → Bool
  | .success => true
  | _ => false

/-- The message of an outcome. -/
def message : RunOutcome → String
  | .failure n => toString n ++ " instance(s) failed"
  | o => o.name

/-- An outcome as JSON: an object whose member `status` is the name. -/
def toJson : RunOutcome → Json
  | .failure n => .object [("failed", .nat n), ("status", .string "failure")]
  | o => .object [("status", .string o.name)]

/-- The kinds of outcome, as the member `status` names them. -/
inductive Tag
  | success
  | failure
  | canceled

/-- The names of the kinds. -/
def Tag.names : List (String × Tag) :=
  [("success", .success), ("failure", .failure), ("canceled", .canceled)]

/-- The kind that a document names. -/
def Tag.decode : Json.Decoder Tag
  | _, .string s => Json.Decode.alternative names s
  | _, d => .error (Json.mismatch "variant identifier" d)

/-- The failure's own fields. -/
def failureShape : Json.Decode.Shape Nat where
  title := "struct variant RunOutcome::Failure"
  fields := [Json.Decode.field "failed" .required Json.Decode.nat32 fun x _ => x]
  empty := 0
  exact := false

/-- The members of an outcome: its kind, which may stand anywhere, and the
others in their order. All of them are read before the kind is acted upon. -/
def splitMembers (s : Json.Setting) (finish : Json.Finish) (tag : Option Tag)
    (others : List (Json.Document × Json.Document)) :
    List (Json.Document × Json.Document) →
      Except Json.DecodeError (Tag × List (Json.Document × Json.Document))
  | [] => do
    Json.liftFlaw finish.check
    match tag with
    | some t => return (t, others.reverse)
    | none => throw (.shape (.missingField "status"))
  | (name, d) :: ms => do
    let k ← Json.liftFlaw name.name
    if k = "status" then
      if tag.isSome then throw (.shape (.duplicateField "status"))
      let t ← Tag.decode s d
      splitMembers s finish (some t) others ms
    else
      let _ ← Json.liftFlaw (d.value s.nesting)
      splitMembers s finish tag ((name, d) :: others) ms

/-- The outcome of a kind, from the other members. -/
def ofMembers (s : Json.Setting) (t : Tag) (others : List (Json.Document × Json.Document)) :
    Except Json.DecodeError RunOutcome :=
  match t with
  | .success => .ok .success
  | .canceled => .ok .canceled
  | .failure => (failureShape.ofMembers s .closed [] 0 others).map .failure

/-- What is wanted in place of a list with items left over. -/
def sequenceText (n : Nat) : String :=
  toString n ++ (if n = 1 then " element" else " elements") ++ " in sequence"

/-- The outcome of a kind, from the items behind it. -/
def ofItems (s : Json.Setting) (t : Tag) (items : List Json.Document) :
    Except Json.DecodeError RunOutcome :=
  match t, items with
  | .success, [] => .ok .success
  | .canceled, [] => .ok .canceled
  | .failure, [] => .error (.shape (.invalidLength 0 failureShape.lengthText))
  | .failure, [d] => (Json.Decode.nat32 s d).map .failure
  | .failure, d :: ds => do
    let _ ← Json.Decode.nat32 s d
    throw (.shape (.invalidLength (ds.length + 1) (sequenceText 1)))
  | _, ds => .error (.shape (.invalidLength ds.length (sequenceText 0)))

/-- An outcome from JSON: an object, or a list that begins with the kind. -/
def decode : Json.Decoder RunOutcome
  | s, .object members finish =>
    Json.Decode.entering s fun s => do
      let (t, others) ← splitMembers s finish none [] members
      ofMembers s t others
  | s, .array items finish =>
    Json.Decode.entering s fun s =>
      match items with
      | [] => do
        Json.liftFlaw finish.check
        throw (.shape (.missingField "status"))
      | d :: ds => do
        let t ← Tag.decode s d
        let _ ← ds.mapM fun d => Json.liftFlaw (d.value s.nesting)
        Json.liftFlaw finish.check
        ofItems s t ds
  | _, d => .error (Json.mismatch "internally tagged enum RunOutcome" d)

end RunOutcome

/-- What became of a run and of each of its instances, with the log of the run
in order of arrival. -/
structure RunSummary where
  outcome : RunOutcome
  instances : Table Verdict
  log : List Line

namespace RunSummary

/-- A summary as JSON. -/
def toJson (r : RunSummary) : Json :=
  .object [("instances", .object (r.instances.map fun e => (e.1, .string e.2.name))),
    ("log", .array (r.log.map Line.toJson)), ("outcome", r.outcome.toJson)]

open Json.Decode

/-- The shape of a summary. -/
def shape : Shape RunSummary where
  title := "struct AggregateOutcome"
  fields :=
    [field "outcome" .required RunOutcome.decode fun x r => { r with outcome := x },
     field "instances" .required (table Verdict.decode) fun x r => { r with instances := x },
     field "log" .required (list Line.decode) fun x r => { r with log := x }]
  empty := ⟨.success, [], []⟩
  exact := false

/-- A summary from JSON. -/
def decode : Json.Decoder RunSummary := record shape

end RunSummary

end Conductor
