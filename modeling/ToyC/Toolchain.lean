import ToyC.Files.Mutation
import ToyC.Files.Query
import ToyC.Source.Comment

/-!
The toolchain: comments are removed, the text is framed as assembly, the assembly
is written as code points, and the text itself is linked into an artifact. Only
the first and the last stage matter when the artifact is run; the others are for
show.
-/

namespace ToyC

/-- The assembly of a text: a fixed frame around the lines of the text as comments. -/
def assembly (text : List Char) : List Char :=
  let comments := (Text.splitOn '\n' text).map ("    # ".toList ++ ·)
  "\n    .file   \"main.c\"\n    .text\n    .globl  main\n".toList ++
    "    .type   main, @function\nmain:\n".toList ++
    "    pushq   %rbp\n    movq    %rsp, %rbp\n    # Mock assembly for:\n".toList ++
    List.intercalate ['\n'] comments ++ "\n    popq    %rbp\n    ret\n".toList

/-- The object code of an assembly: its code points in hexadecimal, a space between two. -/
def objectCode (asm : List Char) : List Char :=
  List.intercalate [' '] (asm.map fun c => Nat.toDigits 16 c.toNat)

def artifactContent : String := "ELF... (binary data)"

def defaultOutput : String := "a.out"

def link (text name : String) : Node :=
  .file name artifactContent
    (some { executable := true, isBinary := true, source := some text })

structure Build where
  preprocessed : List Char
  assembly : List Char
  objectCode : List Char
  artifact : Node

def build (text : List Char) (name : String) : Build :=
  let preprocessed := Source.preprocess text
  let asm := assembly preprocessed
  { preprocessed
    assembly := asm
    objectCode := objectCode asm
    artifact := link (String.ofList preprocessed) name }

def compileFile (tree : Node) (cwd : List String) (source output : String) : Command :=
  match Files.cat tree cwd source with
  | .error e => .ok (.failed { reason := e.reason, command := "gcc", operand := source })
  | .ok text => Files.install tree cwd output (build text.toList defaultOutput).artifact "gcc"

end ToyC
