import Conductor.Calendar.Instant
/-!
# Log — classified lines

Every line that an instance prints enters the log of a run with its class, the
instance, and a time. `Line.render` is the line as a terminal shows it: the
seconds since the run began, the class, the instance and the text. In colour,
the class has colours of its own and the instance one of fifteen, by the order
of registration.
-/

namespace Conductor

/-- What a line of output says. -/
inductive LineClass
  | error
  | start
  | ok
  | fail
  | crash
  | incomplete
  | message
  | metric
  | other
  | internalError
  deriving DecidableEq

namespace LineClass

/-- The names of classes in documents. -/
def names : List (String × LineClass) :=
  [("error", .error), ("start", .start), ("ok", .ok), ("fail", .fail), ("crash", .crash),
   ("incomplete", .incomplete), ("message", .message), ("metric", .metric), ("other", .other),
   ("internal_err", .internalError)]

/-- The name of a class in documents. -/
def name : LineClass → String
  | .error => "error"
  | .start => "start"
  | .ok => "ok"
  | .fail => "fail"
  | .crash => "crash"
  | .incomplete => "incomplete"
  | .message => "message"
  | .metric => "metric"
  | .other => "other"
  | .internalError => "internal_err"

/-- The name of a class on a terminal. -/
def label : LineClass → String
  | .error => "ERROR"
  | .start => "START"
  | .ok => "OK"
  | .fail => "FAIL"
  | .crash => "CRASH"
  | .incomplete => "INCOMPLETE"
  | .message => "MESSAGE"
  | .metric => "METRIC"
  | .other => "OTHER"
  | .internalError => "INTERNAL_ERR"

/-- How bad a class is; zero for what is no problem of the instance. -/
def severity : LineClass → Nat
  | .incomplete => 1
  | .fail => 2
  | .crash => 3
  | .internalError => 4
  | _ => 0

/-- A class from JSON. -/
def decode : Json.Decoder LineClass := Json.Decode.variant names

end LineClass

/-! ## Colours -/

/-- The colours of a terminal. -/
inductive Hue
  | black
  | red
  | green
  | yellow
  | blue
  | magenta
  | cyan
  | white
  deriving DecidableEq

/-- A colour, plain or bright. -/
structure Colour where
  hue : Hue
  bright : Bool

namespace Colour

/-- The place of a hue in the table of the terminal. -/
def index (c : Colour) : Nat :=
  match c.hue with
  | .black => 0
  | .red => 1
  | .green => 2
  | .yellow => 3
  | .blue => 4
  | .magenta => 5
  | .cyan => 6
  | .white => 7

/-- The terminal's number for a colour of the text. -/
def foreground (c : Colour) : Nat := (if c.bright then 90 else 30) + c.index

/-- The terminal's number for a colour behind the text. -/
def background (c : Colour) : Nat := (if c.bright then 100 else 40) + c.index

/-- The colours that instances have in turn. -/
def ofInstances : List Colour :=
  [⟨.red, false⟩, ⟨.green, false⟩, ⟨.yellow, false⟩, ⟨.blue, false⟩, ⟨.magenta, false⟩,
   ⟨.cyan, false⟩, ⟨.white, false⟩, ⟨.black, true⟩, ⟨.red, true⟩, ⟨.green, true⟩, ⟨.yellow, true⟩,
   ⟨.blue, true⟩, ⟨.magenta, true⟩, ⟨.cyan, true⟩, ⟨.white, true⟩]

/-- The sequence that ends all colours. -/
def reset : String := "\x1b[0m"

/-- A text in a style; where the text itself ends all colours, the style begins anew. -/
def styled (style s : String) : String :=
  style ++ String.intercalate (reset ++ style) (s.splitOn reset) ++ reset

end Colour

/-- The colours of a class: of its text, and behind it. -/
def LineClass.colours : LineClass → Colour × Colour
  | .error => (⟨.white, false⟩, ⟨.red, false⟩)
  | .fail => (⟨.white, false⟩, ⟨.red, false⟩)
  | .start => (⟨.black, false⟩, ⟨.cyan, true⟩)
  | .ok => (⟨.white, false⟩, ⟨.green, false⟩)
  | .crash => (⟨.white, false⟩, ⟨.red, true⟩)
  | .incomplete => (⟨.white, false⟩, ⟨.red, true⟩)
  | .internalError => (⟨.white, false⟩, ⟨.red, true⟩)
  | .message => (⟨.black, false⟩, ⟨.white, false⟩)
  | .metric => (⟨.white, false⟩, ⟨.blue, false⟩)
  | .other => (⟨.black, false⟩, ⟨.white, true⟩)

/-! ## Lines -/

/-- A line of the log. -/
structure Line where
  /-- The place of the instance in the order of registration. -/
  index : Nat
  instanceId : String
  /-- The time of the event, or of arrival for a line that carries none. -/
  time : Instant
  lineClass : LineClass
  text : String
  deriving DecidableEq

namespace Line

/-- A text with blanks in front of it, up to a width. -/
def alignRight (width : Nat) (s : String) : String :=
  String.ofList (List.replicate (width - s.length) ' ') ++ s

/-- The seconds from one instant to a later one, as a binary64 number. -/
def elapsed (start time : Instant) : Binary64 :=
  let nanos := (time.toNanos - start.toNanos).toNat
  (Binary64.ofNat (nanos / 1000000000)).add (Binary64.ofRatio false (nanos % 1000000000) 1000000000)

/-- The label of a class, ten characters wide at least. -/
def label (colour : Bool) (c : LineClass) : String :=
  let s := alignRight 10 c.label
  if colour then
    let (front, back) := c.colours
    Colour.styled ("\x1b[" ++ toString back.background ++ ";" ++ toString front.foreground ++ "m") s
  else s

/-- The tag of an instance. -/
def tag (colour : Bool) (index : Nat) (id : String) : String :=
  let s := "<< " ++ id ++ " >>"
  match colour, Colour.ofInstances[index % 15]? with
  | true, some c => Colour.styled ("\x1b[" ++ toString c.foreground ++ "m") s
  | _, _ => s

/-- What follows the time in a rendered line. -/
def renderBody (colour : Bool) (l : Line) : String :=
  label colour l.lineClass ++ " " ++ tag colour l.index l.instanceId ++ " " ++ l.text

/-- The line as a terminal shows it, for a run that began at `start`. -/
def render (colour : Bool) (start : Instant) (l : Line) : String :=
  alignRight 9 (Decimal.fixed 4 (elapsed start l.time)) ++ "s " ++ renderBody colour l

/-- A line as JSON. -/
def toJson (l : Line) : Json :=
  Json.ofMembers [("index", .nat l.index), ("instance_id", .string l.instanceId),
    ("at", l.time.toJson), ("class", .string l.lineClass.name), ("text", .string l.text)]

open Json.Decode

/-- The shape of a line. -/
def shape : Shape Line where
  title := "struct ClassifiedLine"
  fields :=
    [field "index" .required nat32 fun x l => { l with index := x },
     field "instance_id" .required Json.Decode.text fun x l => { l with instanceId := x },
     field "at" .required Instant.decode fun x l => { l with time := x },
     field "class" .required LineClass.decode fun x l => { l with lineClass := x },
     field "text" .required Json.Decode.text fun x l => { l with text := x }]
  empty := ⟨0, "", .ofNanos 0, .other, ""⟩
  exact := false

/-- A line from JSON. -/
def decode : Json.Decoder Line := record shape

end Line

end Conductor
