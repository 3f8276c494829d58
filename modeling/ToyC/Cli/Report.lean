import ToyC.Cli.CommandLine
import ToyC.Cli.Workspace
import ToyC.Run.Artifact
import ToyC.Run.Trace

/-!
What a command line comes to: an exit code and the texts on both outputs. Program
output and results go to the first, complaints and notes to the second.
-/

namespace ToyC.Cli

inductive Report where
  /-- the command line was not carried out -/
  | usage (cause : Usage)
  | finished (exit : Nat) (output errors : String)
  /-- a fault ended the command -/
  | faulted (cause : Fault) (output : String)
  deriving DecidableEq, Repr

/-- A note as it is shown, if it matters enough. -/
def noteLine? (level : Note.Level) (n : Note) : Option String :=
  if level.rank ≤ n.level.rank then
    n.text?.map fun text => n.level.name ++ " | " ++ n.channel ++ " | " ++ text ++ "\n"
  else none

def noteLines (level : Note.Level) (notes : List Note) : String :=
  String.join (notes.filterMap (noteLine? level))

/-- The exit code of a run: the lowest eight bits of an integer status and of the integer part of
a double. No status, and one that is not finite, fail. A status that no double comes near is a
fault. -/
def exitCode : Option Number → Except Fault Nat
  | none => .ok 1
  | some status =>
    match status.toFloat, status.truncate? with
    | .error cause, _ => .error cause
    | .ok _, none => .ok 1
    | .ok _, some n => .ok (n % 256).toNat

def reportBuild (level : Note.Level) (shown : String) (text : List Char)
    (showAssembly showObject : Bool) : Report :=
  let built := ToyC.build text defaultOutput
  let part (wanted : Bool) (stage : List Char) : String :=
    if wanted then String.ofList stage ++ "\n" else ""
  let output :=
    if showAssembly ∨ showObject then
      part showAssembly built.assembly ++ part showObject built.objectCode
    else "built " ++ built.artifact.name ++ " from " ++ shown ++ "\n"
  .finished 0 output (noteLines level [built.note])

def reportRun (level : Note.Level) (text : List Char) (options : Options) : Report :=
  let (trace, result) := (runSource (String.ofList text) options).observe {}
  let output := String.join trace.chunks.toList
  match result with
  | .error cause => .faulted cause output
  | .ok status =>
    match exitCode status with
    | .error cause => .faulted cause output
    | .ok code => .finished code output (noteLines level trace.notes.toList)

/-- Carry out a command line on a text, or on what is said of the lack of one. -/
def CommandLine.report (line : CommandLine) (text : Except String (List Char)) : Report :=
  match text with
  | .error complaint =>
    .finished 1 "" ("minic: " ++ showPath line.path ++ ": " ++ complaint ++ "\n")
  | .ok text =>
    match line.task with
    | .run options => reportRun line.level text options
    | .build showAssembly showObject =>
      reportBuild line.level (showPath line.path) text showAssembly showObject

def report (w : Workspace) (words : List String) : Report :=
  match CommandLine.read words with
  | .error cause => .usage cause
  | .ok line => line.report ((w.readText line.path).mapError FileError.Reason.text)

end ToyC.Cli
