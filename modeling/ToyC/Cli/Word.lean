import ToyC.Text.Word

/-!
The words of a command line. A word that starts with a dash is an option if it is
the name of one, or the start of just one name; a value can follow an equal sign
in the same word. Numbers below zero, words with a blank in them and everything
behind a bare double dash are values.
-/

namespace ToyC.Cli

/-- Why a command line is not carried out: help was asked for, or it is wrong. -/
inductive Usage where
  | help
  | wrong
  deriving DecidableEq, Repr

def Usage.code : Usage → Nat
  | .help => 0
  | .wrong => 2

structure Switch where
  name : String
  takesValue : Bool
  deriving DecidableEq, Repr

def helpSwitches : List Switch :=
  [⟨"-h", false⟩, ⟨"--help", false⟩]

inductive Word where
  | value (text : String)
  | option (switch : Switch) (value : Option String)
  | unknownOption
  /-- the double dash behind which everything is a value -/
  | separator
  deriving DecidableEq, Repr

def splitEqual (text : List Char) : List Char × Option (List Char) :=
  match text.dropWhile (· ≠ '=') with
  | [] => (text, none)
  | _ :: value => (text.takeWhile (· ≠ '='), some value)

/-- A number below zero, with a point or without. A newline may follow it. -/
def isNegativeNumber (text : List Char) : Bool :=
  let text := if text.getLast? = some '\n' then text.dropLast else text
  match text with
  | '-' :: rest =>
    match rest.dropWhile Text.isDigit with
    | [] => !rest.isEmpty
    | '.' :: fraction => !fraction.isEmpty && fraction.all Text.isDigit
    | _ => false
  | _ => false

/-- The options whose names a word can stand for, with the values that the word gives them. A
long name may be cut short; behind a short name a value follows at once. -/
def candidates (switches : List Switch) (word : List Char) : List Word :=
  match word with
  | '-' :: '-' :: _ =>
    let (start, value) := splitEqual word
    (switches.filter fun s => start.isPrefixOf s.name.toList).map fun s =>
      .option s (value.map String.ofList)
  | '-' :: letter :: value =>
    (switches.filter (·.name.toList = ['-', letter])).map fun s =>
      .option s (some (String.ofList value))
  | _ => []

def Word.read (switches : List Switch) (text : String) : Except Usage Word :=
  let named (name : List Char) : Option Switch := switches.find? (·.name.toList = name)
  match text.toList with
  | '-' :: c :: rest =>
    let word := '-' :: c :: rest
    let (name, given) := splitEqual word
    match named word with
    | some s => .ok (.option s none)
    | none =>
      match (if given.isSome then named name else none) with
      | some s => .ok (.option s (given.map String.ofList))
      | none =>
        match candidates switches word with
        | [one] => .ok one
        | _ :: _ :: _ => .error .wrong
        | [] =>
          if isNegativeNumber word ∨ word.contains ' ' then .ok (.value text)
          else .ok .unknownOption
  | _ => .ok (.value text)

def Word.readAll (switches : List Switch) : List String → Except Usage (List Word)
  | [] => .ok []
  | text :: rest =>
    if text = "--" then .ok (.separator :: rest.map .value)
    else do
      let word ← Word.read switches text
      let more ← Word.readAll switches rest
      return word :: more

/-- What asking for help comes to. The letter for help may be repeated in one word, and nothing
else may be joined to it. -/
def askHelp (switch : Switch) (value : Option String) : Usage :=
  match value with
  | none => .help
  | some text =>
    if switch.name = "-h" ∧ text ≠ "" ∧ text.toList.all (· == 'h') then .help else .wrong

end ToyC.Cli
