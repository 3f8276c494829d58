/-!
What goes wrong for a user of the file tree, with the command and the operand as
they were typed.
-/

namespace ToyC

inductive FileError.Reason where
  | notFound
  | isDirectory
  | notDirectory
  | alreadyExists
  | invalid
  deriving DecidableEq, Repr

namespace FileError.Reason

def code : Reason → String
  | .notFound => "not_found"
  | .isDirectory => "is_a_directory"
  | .notDirectory => "not_a_directory"
  | .alreadyExists => "already_exists"
  | .invalid => "invalid"

def text : Reason → String
  | .notFound => "No such file or directory"
  | .isDirectory => "Is a directory"
  | .notDirectory => "Not a directory"
  | .alreadyExists => "File exists"
  | .invalid => "Invalid argument"

end FileError.Reason

/-- A command that failed. The action says what it was about to do with the operand; the detail
replaces the text of the reason. -/
structure FileError where
  reason : FileError.Reason
  command : String
  operand : String
  action : Option String := none
  detail : Option String := none
  deriving DecidableEq, Repr

namespace FileError

def message (e : FileError) : String :=
  e.detail.getD e.reason.text

/-- The error as a shell shows it. -/
def human (e : FileError) : String :=
  match e.action with
  | some action => e.command ++ ": " ++ action ++ " '" ++ e.operand ++ "': " ++ e.message
  | none => e.command ++ ": " ++ e.operand ++ ": " ++ e.message

end FileError

end ToyC
