import ToyC.Files.Error
import ToyC.Text.Blank

/-!
The files that a command line sees. A path is shown without the parts that have no
effect, and reading a text makes a single newline of every kind of line end.
-/

namespace ToyC.Cli

inductive Item where
  | file (content : String)
  | directory
  deriving DecidableEq, Repr

/-- The items below the working directory, by the names that lead to them. -/
abbrev Workspace := List (List String × Item)

def pathParts (path : String) : List String :=
  ((Text.splitOn '/' path.toList).map String.ofList).filter fun part => part ≠ "" ∧ part ≠ "."

/-- The root that a path starts from: one slash or, for just two of them, both. -/
def pathRoot (path : String) : String :=
  match path.toList.takeWhile (· = '/') with
  | [] => ""
  | ['/', '/'] => "//"
  | _ => "/"

def showPath (path : String) : String :=
  let shown := pathRoot path ++ String.intercalate "/" (pathParts path)
  if shown = "" then "." else shown

def uniformNewlines : List Char → List Char
  | [] => []
  | '\r' :: '\n' :: rest => '\n' :: uniformNewlines rest
  | c :: rest => (if c = '\r' then '\n' else c) :: uniformNewlines rest

namespace Workspace

/-- The workspace of names with texts, in the order in which they were made; a name without a
text makes a directory. -/
def ofList (items : List (String × Option String)) : Workspace :=
  items.map fun (name, content) =>
    (pathParts name, match content with
      | some text => .file text
      | none => .directory)

/-- The item at a place; the working directory is one. -/
def item? (w : Workspace) (place : List String) : Option Item :=
  if place = [] then some .directory
  else (w.reverse.find? (·.1 = place)).map (·.2)

/-- The item that the parts of a path lead to from a place. Outside the workspace only the
directories above it are known; `outside` counts how many of them were climbed. -/
def follow (w : Workspace) (place : List String) (outside : Nat) :
    List String → Except FileError.Reason Item
  | [] => if outside = 0 then (w.item? place).elim (.error .notFound) .ok else .ok .directory
  | part :: rest =>
    if 0 < outside then
      if part = ".." then follow w [] (outside + 1) rest else .error .notFound
    else
      match w.item? place with
      | none => .error .notFound
      | some (.file _) => .error .notDirectory
      | some .directory =>
        if part = ".." then
          if place = [] then follow w [] 1 rest else follow w place.dropLast 0 rest
        else follow w (place ++ [part]) 0 rest

def readText (w : Workspace) (path : String) : Except FileError.Reason (List Char) :=
  if pathRoot path ≠ "" then
    if pathParts path = [] then .error .isDirectory else .error .notFound
  else
    match w.follow [] 0 (pathParts path) with
    | .error reason => .error reason
    | .ok .directory => .error .isDirectory
    | .ok (.file content) => .ok (uniformNewlines content.toList)

end Workspace

end ToyC.Cli
