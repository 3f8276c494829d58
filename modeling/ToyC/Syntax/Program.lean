import ToyC.Source.Line
import ToyC.Syntax.Block
import ToyC.Table

/-!
Programs: the functions that logical lines define. Lines outside functions are
skipped. A function starts with a line of the shape of a signature; its body
starts with the brace on that line or on the next and reaches to the closing
brace that balances it, or to the last line.
-/

namespace ToyC

structure Param where
  type : String
  name : String
  deriving DecidableEq, Repr

structure Signature where
  returns : String
  name : String
  params : List Param
  deriving DecidableEq, Repr

structure Function where
  signature : Signature
  lines : List (List Char)
  body : List Stmt

def Function.name (f : Function) : String :=
  f.signature.name

namespace Signature

/-- A parameter: its last word is the name and those before it the type. -/
def param? (text : List Char) : Option Param :=
  match (Text.words text).reverse with
  | [] => none
  | name :: type =>
    some { type := String.ofList (List.intercalate [' '] type.reverse), name := String.ofList name }

/-- The parameters between commas. The word for nothing, alone, stands for none. -/
def paramList (text : List Char) : List Param :=
  let text := Text.trim text
  if text = [] ∨ text = "void".toList then []
  else (Text.splitOn ',' text).filterMap param?

def endsSignature (text : List Char) : Bool :=
  match Text.skipBlanks text with
  | [] | ['{'] | ['{', '\n'] => true
  | _ => false

def nameAndParams? (text : List Char) : Option (List Char × List Char) :=
  (Shape.ident? text).bind fun (name, rest) =>
    match Text.skipBlanks rest with
    | '(' :: inside =>
      let isParen (c : Char) : Bool := c == '(' || c == ')'
      match inside.dropWhile (!isParen ·) with
      | ')' :: behind =>
        if endsSignature behind then some (name, inside.takeWhile (!isParen ·)) else none
      | _ => none
    | _ => none

/-- The signature that a line writes: a type, a name and parameters without parentheses. -/
def read? (line : List Char) : Option Signature :=
  (Shape.types line).findSome? fun (type, rest) =>
    match rest with
    | c :: _ =>
      if Text.isBlank c then
        (nameAndParams? (Text.skipBlanks rest)).map fun (name, inside) =>
          { returns := String.ofList type, name := String.ofList name, params := paramList inside }
      else none
    | [] => none

end Signature

structure Definition where
  signature : Signature
  lines : List (List Char)
  deriving DecidableEq, Repr

/-- The definitions among lines, in order. A signature without a brace, whose next line does not
open one either, defines nothing, and that line is lost with it. -/
def definitions (lines : List (List Char)) : List Definition :=
  match lines with
  | [] => []
  | line :: rest =>
    match Signature.read? line with
    | none => definitions rest
    | some signature =>
      if 0 < balance line then
        { signature, lines := (collectFrom (balance line) rest).1 } ::
          definitions (collectFrom (balance line) rest).2
      else
        match rest with
        | [] => []
        | next :: others =>
          -- the opening brace may stand on the next line
          let depth := balance line + balance next
          if 0 < depth then
            { signature, lines := (collectFrom depth others).1 } ::
              definitions (collectFrom depth others).2
          else definitions others
termination_by lines.length
decreasing_by
  · simp
  · have := collectFrom_length_le (balance line) rest
    simp only [List.length_cons]
    omega
  · have := collectFrom_length_le (balance line + balance next) others
    simp only [List.length_cons]
    omega
  · simp only [List.length_cons]
    omega

def Definition.function (d : Definition) : Function :=
  { signature := d.signature, lines := d.lines, body := readBlock d.lines }

structure Program where
  lines : List (List Char)
  functions : Table Function

namespace Program

/-- The functions of definitions. A later one of a name replaces the earlier one in its place. -/
def functionsOf (ds : List Definition) : Table Function :=
  Table.ofList (ds.map fun d => (d.signature.name, d.function))

def readFunctions (lines : List (List Char)) : Table Function :=
  functionsOf (definitions lines)

def read (text : List Char) : Program :=
  let lines := Source.splitLines text
  { lines, functions := readFunctions lines }

def empty : Program := { lines := [], functions := [] }

end Program

end ToyC
