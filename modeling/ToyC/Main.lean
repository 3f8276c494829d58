import ToyC.Cli.Report

/-!
The command line on real files and real outputs.
-/

namespace ToyC.Cli

/-- The number of the error that a part of a path is no directory. Some calls give it negated. -/
def notDirectoryCode : UInt32 := 20

def complaint : IO.Error → String
  | .noFileOrDirectory .. => FileError.Reason.notFound.text
  | .inappropriateType _ code _ =>
    if code = notDirectoryCode ∨ code = -notDirectoryCode then
      FileError.Reason.notDirectory.text
    else FileError.Reason.isDirectory.text
  | e => toString e

def readText (path : String) : IO (Except String (List Char)) := do
  try
    let content ← IO.FS.readFile (showPath path)
    return .ok (uniformNewlines content.toList)
  catch e => return .error (complaint e)

def Report.write : Report → IO UInt32
  | .usage cause => do
    let out ← match cause with
      | .help => IO.getStdout
      | .wrong => IO.getStderr
    out.putStr "usage: minic [-h] [--log-level LOG_LEVEL] (run | build) ...\n"
    return cause.code.toUInt32
  | .finished exit output errors => do
    (← IO.getStdout).putStr output
    (← IO.getStderr).putStr errors
    return exit.toUInt32
  | .faulted cause output => do
    (← IO.getStdout).putStr output
    (← IO.getStderr).putStr (cause.message ++ "\n")
    return 1

end ToyC.Cli

def main (words : List String) : IO UInt32 := do
  match ToyC.Cli.CommandLine.read words with
  | .error cause => (ToyC.Cli.Report.usage cause).write
  | .ok line => (line.report (← ToyC.Cli.readText line.path)).write
