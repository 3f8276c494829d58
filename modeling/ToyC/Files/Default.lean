import ToyC.Files.Node
import ToyC.Text.Quoted

/-!
Trees from the parts of their nodes, and the tree that a session starts from.
-/

namespace ToyC

inductive NodeError where
  | unknownKind (kind : String)
  | directoryWithContent (name : String)
  | fileWithChildren (name : String)
  deriving DecidableEq, Repr

def NodeError.message : NodeError → String
  | .unknownKind kind => Text.quoted kind ++ " is not a valid NodeKind"
  | .directoryWithContent name => "directory '" ++ name ++ "' cannot carry content"
  | .fileWithChildren name => "file '" ++ name ++ "' cannot have children"

namespace Node

/-- A directory of nodes, each found under its own name. -/
def ofChildren (name : String) (children : List Node) (attributes : Option Attributes) : Node :=
  .directory name (Table.ofList (children.map fun child => (child.name, child))) attributes

/-- The node of given parts, or why they make none. Parts that are missing are empty. -/
def make (name kind : String) (content : Option String) (children : Option (List Node))
    (attributes : Option Attributes) : Except NodeError Node :=
  if kind = "directory" then
    match content with
    | some _ => .error (.directoryWithContent name)
    | none => .ok (ofChildren name (children.getD []) attributes)
  else if kind = "file" then
    match children with
    | some _ => .error (.fileWithChildren name)
    | none => .ok (.file name (content.getD "") attributes)
  else .error (.unknownKind kind)

end Node

namespace Files

private def directory (name : String) (children : List Node) : Node :=
  Node.ofChildren name children none

private def file (name content : String) : Node :=
  .file name content none

def defaultTree : Node :=
  directory "root"
    [ directory "home"
        [ directory "guest"
            [ file "readme.txt"
                ("Welcome to the terminal.\nThis is a simulated environment.\n\n" ++
                  "Try commands like:\n- ls\n- cd\n- mkdir\n- touch\n- nano"),
              file "secrets.txt" "TOP SECRET\n----------------\nThe password is: password123",
              file "todo.list" "- Buy milk\n- Hack the mainframe\n- Sleep",
              directory "projects" [] ] ],
      directory "bin"
        [file "echo" "Binary file", file "ls" "Binary file", file "cat" "Binary file"],
      directory "etc"
        [ file "hosts" "127.0.0.1 localhost",
          file "passwd"
            "root:x:0:0:root:/root:/bin/bash\nguest:x:1000:1000:guest:/home/guest:/bin/bash" ],
      directory "var" [directory "log" [file "syslog" "System booted successfully."]] ]

end Files

end ToyC
