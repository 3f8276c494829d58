import ToyC.Failure
import ToyC.Number.Text
import ToyC.Syntax.Program

/-!
Notes: what a run has to say about itself beside the output of its program. A
note has a level, the channel that it belongs to, and a text.
-/

namespace ToyC

inductive Note.Level where
  | debug
  | info
  | warning
  | error
  | critical
  deriving DecidableEq, Repr

namespace Note.Level

def name : Level → String
  | .debug => "DEBUG"
  | .info => "INFO"
  | .warning => "WARNING"
  | .error => "ERROR"
  | .critical => "CRITICAL"

def rank : Level → Nat
  | .debug => 0
  | .info => 1
  | .warning => 2
  | .error => 3
  | .critical => 4

end Note.Level

inductive Note where
  /-- a text was built: its name, its characters and the lines of its assembly -/
  | built (name : String) (characters lines : Nat)
  | rejected (text : String) (cause : Rejection)
  | unrecognised (line : String)
  | unclosed (keyword : Keyword) (line : String)
  | malformedHeader (header : String)
  | redefined (name : String)
  | degraded (cause : EvalError)
  | degradedArgument (cause : EvalError)
  | degradedUpdate (cause : EvalError)
  | undeclared (name : String)
  | strayJump (function : String)
  | runawayLoop (line : String) (limit : Int)
  | refused (name : String)
  | running (name : String) (functions : Nat)
  | cancelled (name : String)
  | aborted (name function : String) (depth : Nat)
  | exited (name : String) (status : Number)

def depthMessage (function : String) (depth : Nat) : String :=
  function ++ " exceeded call depth " ++ toString depth

def LiteralError.message : LiteralError → String
  | .notOneCharacter raw => "unsupported character literal " ++ raw
  | .tooManyDigits count =>
    "Exceeds the limit (" ++ toString maxDigits ++
      " digits) for integer string conversion: value has " ++ toString count ++
      " digits; use sys.set_int_max_str_digits() to increase the limit"

namespace Note

def level : Note → Level
  | .runawayLoop .. | .refused _ | .aborted .. => .warning
  | .running .. | .cancelled _ | .exited .. => .info
  | _ => .debug

def channel : Note → String
  | .built .. => "minic.compiler"
  | .rejected .. | .unrecognised _ | .unclosed .. | .malformedHeader _ | .redefined _ =>
    "minic.parser"
  | .degraded _ | .degradedArgument _ | .degradedUpdate _ | .undeclared _ | .strayJump _
  | .runawayLoop .. => "minic.interp"
  | .refused _ | .running .. | .cancelled _ | .aborted .. | .exited .. => "minic.driver"

/-- The text of a note; a status or a limit with too many digits has none. -/
def text? : Note → Option String
  | .built name characters lines =>
    "built " ++ name ++ ": " ++ toString characters ++ " source chars, " ++ toString lines ++
      " asm lines"
  | .rejected text .malformed => "unparseable expression " ++ Text.quoted text
  | .rejected text (.badLiteral cause) =>
    "expression " ++ Text.quoted text ++ " rejected: " ++ cause.message
  | .rejected text .tooDeep =>
    "expression " ++ Text.quoted text ++ " rejected: maximum recursion depth exceeded"
  | .unrecognised line => "skipping unrecognised line: " ++ Text.quoted line
  | .unclosed keyword line =>
    "unbalanced " ++ keyword.word ++ " header: " ++ Text.quoted line
  | .malformedHeader header => "malformed for header: " ++ Text.quoted header
  | .redefined name => "function " ++ name ++ " redefined; the later definition wins"
  | .degraded cause => "expression degraded to 0: " ++ cause.message
  | .degradedArgument cause => "printf argument degraded to 0: " ++ cause.message
  | .degradedUpdate cause => "compound assignment degraded to 0: " ++ cause.message
  | .undeclared name => "assignment to undeclared '" ++ name ++ "' ignored"
  | .strayJump function => "break/continue outside a loop in " ++ function
  | .runawayLoop line limit =>
    match Decimal.numeral limit with
    | .ok s => some ("loop " ++ Text.quoted line ++ " hit the " ++ s ++ " iteration cap")
    | .error _ => none
  | .refused name => "refusing to run " ++ name ++ ": not an executable"
  | .running name functions =>
    "running " ++ name ++ " (" ++ toString functions ++ " functions)"
  | .cancelled name => "run of " ++ name ++ " cancelled"
  | .aborted name function depth =>
    "run of " ++ name ++ " aborted: " ++ depthMessage function depth
  | .exited name status =>
    match status.exactText with
    | .ok s => some (name ++ " exited with " ++ s)
    | .error _ => none

end Note

/-! ### Notes of reading a program -/

namespace Expr

def notes (text : List Char) : List Note :=
  match parse text with
  | .ok _ => []
  | .error cause => [.rejected (String.ofList text) cause]

end Expr

namespace Shape

/-- The texts of a line that are read as expressions, left to right. -/
def expressions : Shape → List (List Char)
  | .returns value => value.toList
  | .prints _ args => args
  | .declares _ declarators => declarators.filterMap (·.2)
  | .assigns _ (.set value) | .assigns _ (.update _ value) => [value]
  | .assigns .. => []
  | .evaluates call => [call]
  | .breaks | .continues => []
  | .unrecognised values => values

def notes (line : List Char) : List Note :=
  (read line).expressions.flatMap Expr.notes

end Shape

namespace Outline

def headerNotes (header : List Char) : List Note :=
  match Clauses.read? header with
  | none => [.malformedHeader (String.ofList header)]
  | some clauses =>
    let simple (clause : List Char) : List Note :=
      if clause.isEmpty then [] else Shape.notes clause
    simple clauses.start ++
      (if clauses.condition.isEmpty then [] else Expr.notes clauses.condition) ++
      simple clauses.next

mutual

/-- What is to be said of reading a statement: of the statements inside it first. -/
def notes : Outline → List Note
  | .single text =>
    Shape.notes text ++
      (if (Simple.read? text).isSome then [] else [.unrecognised (String.ofList text)])
  | .block body => allNotes body
  | .branch _ header yes no => allNotes yes ++ otherNotes no ++ Expr.notes header
  | .whileLoop _ header body => allNotes body ++ Expr.notes header
  | .forLoop _ header body => allNotes body ++ headerNotes header
  | .unclosed keyword src => [.unclosed keyword (String.ofList src)]

def allNotes : List Outline → List Note
  | [] => []
  | outline :: rest => notes outline ++ allNotes rest

def otherNotes : Option (List Outline) → List Note
  | none => []
  | some body => allNotes body

end

end Outline

namespace Program

def definitionNotes : List String → List Definition → List Note
  | _, [] => []
  | known, d :: rest =>
    Outline.allNotes (Outline.lines d.lines) ++
      (if known.contains d.signature.name then [.redefined d.signature.name] else []) ++
      definitionNotes (d.signature.name :: known) rest

def notes (p : Program) : List Note :=
  definitionNotes [] (definitions p.lines)

end Program

end ToyC
