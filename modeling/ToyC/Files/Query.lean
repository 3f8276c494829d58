import ToyC.Files.Error
import ToyC.Files.Node

/-!
Commands that look at a file tree: reading a file, listing a directory, changing
the working directory, and completing a word.
-/

namespace ToyC.Files

def cat (tree : Node) (cwd : List String) (path : String) : Except FileError String :=
  match tree.lookup? (Path.resolve cwd path) with
  | none => .error { reason := .notFound, command := "cat", operand := path }
  | some (.directory ..) => .error { reason := .isDirectory, command := "cat", operand := path }
  | some (.file _ content _) => .ok content

def shown (key : String) (node : Node) : String :=
  if node.isDirectory then key ++ "/" else key

/-- A path that is given; an empty one counts as none. -/
def given? (path : Option String) : Option String :=
  path.filter (· ≠ "")

def ls (tree : Node) (cwd : List String) (path : Option String) : Except FileError (List String) :=
  let segments := ((given? path).map (Path.resolve cwd)).getD cwd
  match tree.lookup? segments with
  | none =>
    .error { reason := .notFound, command := "ls", operand := (given? path).getD ".",
             action := "cannot access" }
  | some (.file name _ _) => .ok [name]
  | some (.directory _ entries _) => .ok (entries.map fun (key, node) => shown key node)

/-- The working directory after changing it. Without a path it is the home directory. -/
def changeDirectory (tree : Node) (cwd : List String) (path : Option String) :
    Except FileError (List String) :=
  let segments := ((given? path).map (Path.resolve cwd)).getD Path.home
  let fail (reason : FileError.Reason) : Except FileError (List String) :=
    .error { reason, command := "cd", operand := (given? path).getD "~" }
  match tree.lookup? segments with
  | none => fail .notFound
  | some node => if node.isDirectory then .ok segments else fail .notDirectory

/-- A word divided behind its last slash: the part with the slash, and the rest. -/
def splitWord (word : List Char) : List Char × List Char :=
  let stem := (word.reverse.takeWhile (· ≠ '/')).reverse
  (word.take (word.length - stem.length), stem)

def searchPlace (cwd : List String) (lead : List Char) : List String :=
  match lead with
  | [] => cwd
  | ['/'] => []
  | _ => Path.resolve cwd (String.ofList lead.dropLast)

/-- What a word can be completed to: entries of its directory that start with its last part. -/
def complete (tree : Node) (cwd : List String) (word : String) : List String :=
  let (lead, stem) := splitWord word.toList
  match tree.entriesAt? (searchPlace cwd lead) with
  | none => []
  | some entries =>
    (entries.filter fun (key, _) => stem.isPrefixOf key.toList).map fun (key, node) =>
      String.ofList lead ++ shown key node

end ToyC.Files
