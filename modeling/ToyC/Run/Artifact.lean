import ToyC.Run.Call
import ToyC.Toolchain

/-!
Running what the toolchain has built. The text noted in an artifact is read and
its main function is called. A run that cannot start, is cancelled or nests too
deep says so in its output and has no status; a fault reaches the caller.
-/

namespace ToyC

/-- The result of a run: the status that main returned, or none. -/
abbrev RunResult := Except Fault (Option Number)

/-- The text that an artifact was built from, if it can be run. -/
def Node.program? (artifact : Node) : Option String :=
  match artifact.attributes with
  | some attributes =>
    if attributes.isBinary then attributes.source.filter (· ≠ "") else none
  | none => none

def recordAll : List Note → Routine Unit
  | [] => .done ()
  | n :: rest => (Routine.record n).bind fun _ => recordAll rest

def endWith (n : Option Note) (text : String) : Routine RunResult :=
  (recordAll n.toList).bind fun _ => (Routine.emit text).bind fun _ => .done (.ok none)

def conclude (name : String) : Except Stop Number → Routine RunResult
  | .ok status => (Routine.record (.exited name status)).bind fun _ => .done (.ok (some status))
  | .error (.abort .cancelled) => endWith (some (.cancelled name)) "^C\n"
  | .error (.abort (.tooDeep function depth)) =>
    endWith (some (.aborted name function depth)) "Error: maximum recursion depth exceeded\n"
  | .error (.abort (.fault cause)) => .done (.error cause)
  -- calling main makes no other mistake than that there is none
  | .error (.mistake _) => endWith none "Error: no main function found\n"

def runProgram (name : String) (p : Program) (options : Options) : Routine RunResult :=
  (recordAll p.notes).bind fun _ =>
    if Table.contains "main" p.functions then
      (Routine.record (.running name p.functions.length)).bind fun _ =>
        (p.call options "main" []).bind (conclude name)
    else endWith none "Error: no main function found\n"

def run (artifact : Node) (options : Options) : Routine RunResult :=
  match artifact.program? with
  | none =>
    endWith (some (.refused artifact.name)) "Error: Not a valid executable format\n"
  | some text =>
    runProgram artifact.name (Program.read (Source.preprocess text.toList)) options

def Build.note (b : Build) : Note :=
  .built b.artifact.name b.preprocessed.length (b.assembly.count '\n')

def runSource (text : String) (options : Options) : Routine RunResult :=
  let built := build text.toList defaultOutput
  (Routine.record built.note).bind fun _ => run built.artifact options

def runPath (tree : Node) (cwd : List String) (path : String) (options : Options) :
    Routine RunResult :=
  let refuse (reason : FileError.Reason) : Routine RunResult :=
    endWith none (FileError.human { reason, command := "sh", operand := path } ++ "\n")
  match tree.lookup? (Path.resolve cwd path) with
  | none => refuse .notFound
  | some node => if node.isDirectory then refuse .isDirectory else run node options

end ToyC
