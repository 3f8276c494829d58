import ToyC.Table
import ToyC.Text.Blank

/-!
Nodes of a file tree, and the paths that lead to them. A file has text and a
directory has entries, never both. An entry's key is where it is found; its node
carries a name of its own. In a path empty parts and single dots have no effect,
two dots go up, and a tilde goes home, wherever they stand.
-/

namespace ToyC

/-- What the toolchain notes about a file: whether it can be run, and from which text it was
built. -/
structure Attributes where
  executable : Bool := false
  isBinary : Bool := false
  source : Option String := none
  deriving DecidableEq, Repr

inductive Node where
  | file (name content : String) (attributes : Option Attributes)
  | directory (name : String) (entries : List (String × Node)) (attributes : Option Attributes)

instance : Inhabited Node := ⟨.file "" "" none⟩

namespace Node

def name : Node → String
  | .file name .. | .directory name .. => name

def attributes : Node → Option Attributes
  | .file _ _ attributes | .directory _ _ attributes => attributes

def isDirectory : Node → Bool
  | .directory .. => true
  | .file .. => false

def entries? : Node → Option (Table Node)
  | .directory _ entries _ => some entries
  | .file .. => none

def rename (name : String) : Node → Node
  | .file _ content attributes => .file name content attributes
  | .directory _ entries attributes => .directory name entries attributes

def lookup? : List String → Node → Option Node
  | [], node => some node
  | _ :: _, .file .. => none
  | segment :: rest, .directory _ entries _ =>
    (Table.get? segment entries).bind (lookup? rest)

def entriesAt? (path : List String) (node : Node) : Option (Table Node) :=
  (node.lookup? path).bind entries?

/-- The tree after a change of the entries of the directory at a path. There is none if no
directory is there or the change is refused. -/
def alter? (change : Table Node → Option (Table Node)) : List String → Node → Option Node
  | _, .file .. => none
  | [], .directory name entries attributes =>
    (change entries).map fun entries => .directory name entries attributes
  | segment :: rest, .directory name entries attributes => do
    let child ← Table.get? segment entries
    let child ← alter? change rest child
    return .directory name (Table.insert segment child entries) attributes

mutual

/-- The paths below a directory at a given path, depth first in the order of the entries. That
of a directory ends in a slash. -/
def pathsBelow (above : String) : Node → List String
  | .file .. => []
  | .directory _ entries _ => entryPaths above entries

def entryPaths (above : String) : List (String × Node) → List String
  | [] => []
  | (key, child) :: rest =>
    let here := above ++ key ++ (if child.isDirectory then "/" else "")
    here :: pathsBelow here child ++ entryPaths above rest

end

def paths (tree : Node) : List String :=
  tree.pathsBelow "/"

mutual

/-- Whether two trees agree in everything but the order of entries. -/
def agrees : Node → Node → Bool
  | .file name content attributes, other =>
    match other with
    | .file name' content' attributes' =>
      name == name' && content == content' && attributes == attributes'
    | .directory .. => false
  | .directory name entries attributes, other =>
    match other with
    | .directory name' entries' attributes' =>
      name == name' && attributes == attributes' && entries.length == entries'.length &&
        entriesAgree entries entries'
    | .file .. => false

def entriesAgree : List (String × Node) → Table Node → Bool
  | [], _ => true
  | (key, child) :: rest, others =>
    (match Table.get? key others with
      | some other => agrees child other
      | none => false) && entriesAgree rest others

end

end Node

end ToyC

namespace ToyC.Path

def home : List String := ["home", "guest"]

def follow (place : List String) (part : String) : List String :=
  if part = "" ∨ part = "." then place
  else if part = ".." then place.dropLast
  else if part = "~" then home
  else place ++ [part]

def parts (path : String) : List String :=
  (Text.splitOn '/' path.toList).map String.ofList

/-- The place that a path leads to from a directory; it need not exist. -/
def resolve (cwd : List String) (path : String) : List String :=
  let start := if path.toList.head? = some '/' then [] else cwd
  (parts path).foldl follow start

def format (segments : List String) : String :=
  "/" ++ String.intercalate "/" segments

end ToyC.Path
