/-!
# Files — faults

What the operating system answers when an operation on files cannot be done,
with its number and words.
-/

namespace Conductor

/-- Why an operation on files was refused. -/
inductive FileFault
  | notFound
  | permissionDenied
  | exists
  | notDirectory
  | isDirectory
  | nameTooLong
  | tooManyLinks
  | invalidArgument
  | badFormat
  /-- The octets of a file are no text. -/
  | notText
  /-- A name holds a zero character. -/
  | nulInName
  /-- What a process is to be given holds a zero character. -/
  | nulInCommand
  deriving DecidableEq

/-- The message of a fault. -/
def FileFault.message : FileFault → String
  | .notFound => "No such file or directory (os error 2)"
  | .badFormat => "Exec format error (os error 8)"
  | .permissionDenied => "Permission denied (os error 13)"
  | .exists => "File exists (os error 17)"
  | .notDirectory => "Not a directory (os error 20)"
  | .isDirectory => "Is a directory (os error 21)"
  | .invalidArgument => "Invalid argument (os error 22)"
  | .nameTooLong => "File name too long (os error 36)"
  | .tooManyLinks => "Too many levels of symbolic links (os error 40)"
  | .notText => "stream did not contain valid UTF-8"
  | .nulInName => "file name contained an unexpected NUL byte"
  | .nulInCommand => "nul byte found in provided data"

end Conductor
