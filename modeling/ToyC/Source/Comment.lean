import ToyC.Text.Blank

/-!
Comments: line comments are removed first, then block comments, then the blanks
at both ends. Literals do not protect the marks inside them.
-/

namespace ToyC.Source

/-- The text without line comments: from two slashes up to the end of the line, which stays. -/
def dropLineComments (text : List Char) : List Char :=
  go false text
where
  go : Bool → List Char → List Char
    | _, [] => []
    | true, c :: rest => if c = '\n' then '\n' :: go false rest else go true rest
    | false, '/' :: '/' :: rest => go true rest
    | false, c :: rest => c :: go false rest

/-- The text without block comments. `held` is the text, in reverse, of a comment that has not
been closed; if it never is, it stays. -/
def dropBlockComments (text : List Char) : List Char :=
  go none text
where
  go : Option (List Char) → List Char → List Char
    | none, [] => []
    | none, '/' :: '*' :: rest => go (some ['*', '/']) rest
    | none, c :: rest => c :: go none rest
    | some held, [] => held.reverse
    | some _, '*' :: '/' :: rest => go none rest
    | some held, c :: rest => go (some (c :: held)) rest

def preprocess (text : List Char) : List Char :=
  Text.trim (dropBlockComments (dropLineComments text))

end ToyC.Source
