import ToyC.Files.Error
import ToyC.Files.Node

/-!
Commands that change a file tree. Each is checked against the tree first and then
makes one or two changes of entries. A tree is a value: whoever holds the tree
from before a command still holds it afterwards.

A change of entries at a place without a directory has no result, and the command
then breaks off. The checks before it are there to rule that out. Nothing else
breaks a command off: the stack and the memory that the host needs to copy a deep
or a large tree are taken as unlimited.
-/

namespace ToyC

inductive Outcome where
  | changed (tree : Node)
  | unchanged
  | failed (error : FileError)

def Outcome.tree (before : Node) : Outcome → Node
  | .changed tree => tree
  | .unchanged | .failed _ => before

def Outcome.error? : Outcome → Option FileError
  | .failed error => some error
  | .changed _ | .unchanged => none

def Outcome.isNew : Outcome → Bool
  | .changed _ => true
  | .unchanged | .failed _ => false

/-- A command broke off: there is no directory at a place, or not the entry that was to be taken
from it. -/
structure Breakage where
  place : List String
  deriving DecidableEq, Repr

def Breakage.message (b : Breakage) : String :=
  "no directory at " ++ Path.format b.place ++ " in cloned tree"

abbrev Command := Except Breakage Outcome

namespace Node

def alter (place : List String) (change : Table Node → Option (Table Node)) (tree : Node) :
    Except Breakage Node :=
  match tree.alter? change place with
  | some tree => .ok tree
  | none => .error ⟨place⟩

def insertAt (tree : Node) (place : List String) (key : String) (node : Node) :
    Except Breakage Node :=
  tree.alter place fun entries => some (Table.insert key node entries)

def eraseAt (place : List String) (key : String) (tree : Node) : Except Breakage Node :=
  tree.alter place fun entries =>
    if Table.contains key entries then some (Table.erase key entries) else none

def directoryAt (place : List String) (tree : Node) : Except Breakage Node :=
  match tree.lookup? place with
  | some node => if node.isDirectory then .ok node else .error ⟨place⟩
  | none => .error ⟨place⟩

end Node

/-- A place as its directory and its last name; the root has neither. -/
def lastOf? (segments : List String) : Option (List String × String) :=
  segments.getLast?.map fun name => (segments.dropLast, name)

namespace Files

private def failed (reason : FileError.Reason) (command operand : String)
    (action : Option String) (detail : Option String) : Command :=
  .ok (.failed { reason, command, operand, action, detail })

def holdsDirectory (entries : Table Node) (key : String) : Bool :=
  (Table.get? key entries).any Node.isDirectory

def mkdir (tree : Node) (cwd : List String) (path : String) : Command :=
  let fail (reason : FileError.Reason) : Command :=
    failed reason "mkdir" path "cannot create directory" none
  match lastOf? (Path.resolve cwd path) with
  | none => fail .alreadyExists
  | some (place, name) =>
    match tree.entriesAt? place with
    | none => fail .notFound
    | some entries =>
      if Table.contains name entries then fail .alreadyExists
      else return .changed (← tree.insertAt place name (.directory name [] none))

/-- Make an empty file; a node that exists is left alone. -/
def touch (tree : Node) (cwd : List String) (path : String) : Command :=
  let segments := Path.resolve cwd path
  if (tree.lookup? segments).isSome then return .unchanged
  else
    match lastOf? segments with
    | none => return .unchanged
    | some (place, name) =>
      match tree.entriesAt? place with
      | none => failed .notFound "touch" path "cannot touch" none
      | some _ => return .changed (← tree.insertAt place name (.file name "" none))

def rm (tree : Node) (cwd : List String) (path : String) (recursive : Bool) : Command :=
  let segments := Path.resolve cwd path
  let fail (reason : FileError.Reason) (detail : Option String) : Command :=
    failed reason "rm" path "cannot remove" detail
  match lastOf? segments with
  -- the root is an entry of no directory
  | none => fail .invalid "refusing to remove the root directory"
  | some (place, name) =>
    match tree.lookup? segments with
    | none => fail .notFound none
    | some node =>
      if node.isDirectory ∧ ¬recursive then fail .isDirectory none
      else return .changed (← tree.eraseAt place name)

/-- Put a node at a path under the path's last name. It replaces a file, not a directory. -/
def install (tree : Node) (cwd : List String) (path : String) (node : Node)
    (command : String) : Command :=
  let fail (reason : FileError.Reason) : Command :=
    failed reason command path "cannot write" none
  match lastOf? (Path.resolve cwd path) with
  | none => fail .isDirectory
  | some (place, name) =>
    match tree.entriesAt? place with
    | none => fail .notFound
    | some entries =>
      if holdsDirectory entries name then fail .isDirectory
      else return .changed (← tree.insertAt place name (node.rename name))

def writeFile (tree : Node) (cwd : List String) (path content : String) : Command :=
  install tree cwd path (.file path content none) "write"

/-- Where a copied or moved node goes: into a directory that exists, under its own last name. -/
def target (tree : Node) (source destination : List String) : List String :=
  match lastOf? source, tree.lookup? destination with
  | some (_, name), some (.directory ..) => destination ++ [name]
  | _, _ => destination

def cp (tree : Node) (cwd : List String) (source destination : String) : Command :=
  let fail (reason : FileError.Reason) (operand : String) (action : String)
      (detail : Option String) : Command :=
    failed reason "cp" operand action detail
  let src := Path.resolve cwd source
  match tree.lookup? src with
  | none => fail .notFound source "cannot stat" none
  | some node =>
    let dst := target tree src (Path.resolve cwd destination)
    if dst = src then
      fail .invalid source "cannot copy" "source and destination are the same"
    else if src.isPrefixOf dst then
      fail .invalid source "cannot copy" "cannot copy a directory into itself"
    else
      match lastOf? dst with
      | none => fail .notFound destination "cannot create regular file" none
      | some (place, name) =>
        match tree.entriesAt? place with
        | none => fail .notFound destination "cannot create regular file" none
        | some entries =>
          if holdsDirectory entries name then
            fail .isDirectory destination "cannot overwrite directory" none
          else return .changed (← tree.insertAt place name (node.rename name))

def mv (tree : Node) (cwd : List String) (source destination : String) : Command :=
  let fail (reason : FileError.Reason) (operand : String) (action : String)
      (detail : Option String) : Command :=
    failed reason "mv" operand action detail
  let src := Path.resolve cwd source
  match tree.lookup? src with
  | none => fail .notFound source "cannot stat" none
  | some node =>
    let dst := target tree src (Path.resolve cwd destination)
    -- onto itself a move succeeds, and makes no tree of its own
    if dst = src then return .unchanged
    else
      match lastOf? src with
      | none =>
        fail .invalid source "cannot move" "cannot move a directory into a subdirectory of itself"
      | some (home, key) =>
        if src.isPrefixOf dst then
          fail .invalid source "cannot move"
            "cannot move a directory into a subdirectory of itself"
        else
          match lastOf? dst with
          | none => fail .notFound destination ("cannot move '" ++ source ++ "' to") none
          | some (place, name) =>
            match tree.entriesAt? place with
            | none => fail .notFound destination ("cannot move '" ++ source ++ "' to") none
            | some entries =>
              if holdsDirectory entries name then
                fail .isDirectory destination "cannot overwrite directory" none
              else do
                -- the target's directory lies outside the source, so it is still there
                let without ← tree.eraseAt home key
                return .changed (← without.insertAt place name (node.rename name))

end Files

end ToyC
