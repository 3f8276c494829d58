import ToyC.Cli.Value
import ToyC.Cli.Word
import ToyC.Run.Note
import ToyC.Run.Call

/-!
Command lines: a level for notes, one of two commands, the path of a text, and the
options of the command.
-/

namespace ToyC.Cli

inductive Verb where
  | run
  | build
  deriving DecidableEq, Repr

inductive Task where
  | run (options : Options)
  | build (showAssembly showObject : Bool)
  deriving DecidableEq, Repr

structure CommandLine where
  level : Note.Level
  path : String
  task : Task
  deriving DecidableEq, Repr

def Verb.ofName? : String → Option Verb
  | "run" => some .run
  | "build" => some .build
  | _ => none

/-- The options in front of the command. -/
def leadingSwitches : List Switch :=
  helpSwitches ++ [⟨"--log-level", true⟩]

def Verb.switches : Verb → List Switch
  | .run =>
    helpSwitches ++ [⟨"--max-iterations", true⟩, ⟨"--max-depth", true⟩, ⟨"--yield-delay", true⟩]
  | .build => helpSwitches ++ [⟨"--emit-asm", false⟩, ⟨"--emit-hex", false⟩]

structure Details where
  path : Option String := none
  options : Options := {}
  showAssembly : Bool := false
  showObject : Bool := false
  /-- there was a word that has no place -/
  surplus : Bool := false

namespace Details

def turnOn (name : String) (d : Details) : Details :=
  if name = "--emit-asm" then { d with showAssembly := true }
  else { d with showObject := true }

/-- The details after an option with a value. The pause at a yield point has no effect on what a
run does, so its value is only checked. -/
def set (name value : String) (d : Details) : Except Usage Details :=
  if name = "--yield-delay" then
    if isReal value then .ok d else .error .wrong
  else
    match readInt? value with
    | none => .error .wrong
    | some n =>
      if name = "--max-depth" then .ok { d with options := { d.options with maxDepth := n } }
      else .ok { d with options := { d.options with maxIterations := n } }

/-- The details that words give. A double dash may stand on either side of the path. -/
def read (d : Details) : List Word → Except Usage Details
  | [] => .ok d
  | .unknownOption :: rest => read { d with surplus := true } rest
  | .option switch (some value) :: rest =>
    if helpSwitches.contains switch then .error (askHelp switch (some value))
    else if switch.takesValue then do read (← d.set switch.name value) rest
    else .error .wrong
  | .option switch none :: .value text :: rest =>
    if helpSwitches.contains switch then .error .help
    else if switch.takesValue then do read (← d.set switch.name text) rest
    -- the word behind an option that takes no value is not used up
    else read (d.turnOn switch.name) (.value text :: rest)
  | .option switch none :: rest =>
    if helpSwitches.contains switch then .error .help
    else if switch.takesValue then .error .wrong
    else read (d.turnOn switch.name) rest
  | .value text :: .separator :: rest =>
    if d.path.isNone then read { d with path := some text } rest
    else read { d with surplus := true } (.separator :: rest)
  | .value text :: rest =>
    if d.path.isNone then read { d with path := some text } rest
    else read { d with surplus := true } rest
  | .separator :: rest =>
    if d.path.isNone then read d rest else read { d with surplus := true } rest

def task (verb : Verb) (d : Details) : Task :=
  match verb with
  | .run => .run d.options
  | .build => .build d.showAssembly d.showObject

end Details

/-- The upper-case form of a letter in the name of a level; the dotless i counts as an i. -/
def upperLetter (c : Char) : Char :=
  if c = 'ı' then 'I' else c.toUpper

/-- The level of a name, in any case. An unknown name stands for warnings. -/
def levelOf (name : String) : Note.Level :=
  match String.ofList (name.toList.map upperLetter) with
  | "DEBUG" => .debug
  | "INFO" => .info
  | "ERROR" => .error
  | "CRITICAL" => .critical
  | _ => .warning

def readVerb (level name : String) (surplus : Bool) (words : List String) :
    Except Usage CommandLine :=
  match Verb.ofName? name with
  | none => .error .wrong
  | some verb => do
    let details ← Details.read {} (← Word.readAll verb.switches words)
    match details.path with
    | none => throw .wrong
    | some path =>
      if surplus ∨ details.surplus then throw .wrong
      return { level := levelOf level, path, task := details.task verb }

/-- The command line that words give from some place on, with the texts of the words. -/
def readFrom (level : String) (surplus : Bool) :
    List Word → List String → Except Usage CommandLine
  | .unknownOption :: words, _ :: texts => readFrom level true words texts
  | .option switch (some value) :: words, _ :: texts =>
    if switch.takesValue then readFrom value surplus words texts
    else .error (askHelp switch (some value))
  | .option switch none :: .value text :: words, _ :: _ :: texts =>
    if switch.takesValue then readFrom text surplus words texts else .error .help
  | .option switch none :: _, _ => if switch.takesValue then .error .wrong else .error .help
  | .value name :: _, _ :: texts => readVerb level name surplus texts
  | _, _ => .error .wrong

def CommandLine.read (texts : List String) : Except Usage CommandLine := do
  readFrom Note.Level.warning.name false (← Word.readAll leadingSwitches texts) texts

end ToyC.Cli
