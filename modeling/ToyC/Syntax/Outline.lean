import ToyC.Source.Line
import ToyC.Source.Span
import ToyC.Syntax.Shape

/-!
The outline of logical lines: which lines form the blocks and the bodies of
control statements, before any statement is read. A body is a block in braces, a
statement behind the header, or the statement on the next line.

Statements may nest to any depth: the stack that the host needs to read them is
taken as unlimited.
-/

namespace ToyC

inductive Keyword where
  | branch
  | whileLoop
  | forLoop
  deriving DecidableEq, Repr

def Keyword.word : Keyword → String
  | .branch => "if"
  | .whileLoop => "while"
  | .forLoop => "for"

/-- A statement's lines, with the texts of its headers. -/
inductive Outline where
  /-- a line that is no brace and starts with no header -/
  | single (text : List Char)
  | block (body : List Outline)
  | branch (src header : List Char) (yes : List Outline) (no : Option (List Outline))
  | whileLoop (src header : List Char) (body : List Outline)
  | forLoop (src header : List Char) (body : List Outline)
  /-- a header whose parenthesis is never closed -/
  | unclosed (keyword : Keyword) (src : List Char)

/-- The keyword that a line starts with, if its header follows, and the line from the header's
parenthesis on. -/
def header? (line : List Char) : Option (Keyword × List Char) :=
  [Keyword.branch, .whileLoop, .forLoop].findSome? fun keyword =>
    (Shape.after? keyword.word.toList line).bind fun rest =>
      match Text.skipBlanks rest with
      | '(' :: inside => some (keyword, '(' :: inside)
      | _ => none

/-- What follows the word for the other branch on its line. -/
def otherwise? (line : List Char) : Option (List Char) :=
  (Shape.afterWord? "else".toList line).bind fun rest =>
    let body := Text.skipBlanks rest
    let shown := body.takeWhile (· ≠ '\n')
    match body.drop shown.length with
    | [] | ['\n'] => some shown
    | _ => none

/-! ### What stands behind a header is shorter -/

theorem after?_length_le {word text rest : List Char} (h : Shape.after? word text = some rest) :
    rest.length ≤ text.length := by
  simp only [Shape.after?] at h
  split at h
  · cases h; exact (List.drop_sublist _ _).length_le
  · cases h

theorem afterWord?_length_le {word text rest : List Char}
    (h : Shape.afterWord? word text = some rest) : rest.length ≤ text.length := by
  simp only [Shape.afterWord?] at h
  split at h
  · cases h; exact Nat.zero_le _
  · rename_i c tail heq
    split at h
    · cases h
    · cases h; exact after?_length_le heq
  · cases h

theorem header?_length_le {line span : List Char} {keyword : Keyword}
    (h : header? line = some (keyword, span)) : span.length ≤ line.length := by
  obtain ⟨k, _, hk⟩ := List.exists_of_findSome?_eq_some h
  obtain ⟨rest, hrest, hspan⟩ := Option.bind_eq_some_iff.1 hk
  split at hspan
  · rename_i inside heq
    cases hspan
    have h1 := after?_length_le hrest
    have h2 := Text.skipBlanks_length_le rest
    rw [heq] at h2
    omega
  · cases hspan

theorem otherwise?_length_le {line shown : List Char} (h : otherwise? line = some shown) :
    shown.length ≤ line.length := by
  obtain ⟨rest, hrest, hshown⟩ := Option.bind_eq_some_iff.1 h
  have h1 := afterWord?_length_le hrest
  have h2 := Text.skipBlanks_length_le rest
  have h3 := (List.takeWhile_sublist (l := Text.skipBlanks rest) (· ≠ '\n')).length_le
  dsimp only at hshown
  split at hshown
  · cases hshown; omega
  · cases hshown; omega
  · cases hshown

/-! ### Outlines of lines -/

abbrev Behind (lines : List (List Char)) := { rest : List (List Char) // rest <:+ lines }

def Behind.all (lines : List (List Char)) : Behind lines :=
  ⟨lines, List.suffix_refl _⟩

theorem Behind.size_le {lines : List (List Char)} (rest : Behind lines) :
    linesSize rest.1 ≤ linesSize lines :=
  linesSize_le_of_sublist rest.2.sublist

namespace Outline

mutual

def statement (line : List Char) (rest : List (List Char)) : Outline × Behind rest :=
  if line = ['{'] then
    (.block (lines (collectBlock rest).1), ⟨(collectBlock rest).2, collectFrom_suffix 1 rest⟩)
  else
    match _hk : header? line with
    | none => (.single line, .all rest)
    | some (keyword, span) =>
      match _hs : Source.parenSpan? span with
      | none => (.unclosed keyword line, .all rest)
      | some (header, tail) =>
        let (inside, behind) := body tail rest
        match keyword with
        | .whileLoop => (.whileLoop line header inside, behind)
        | .forLoop => (.forLoop line header inside, behind)
        | .branch =>
          -- only the line right behind the body can start the other branch
          match _hb : behind with
          | ⟨[], h⟩ => (.branch line header inside none, ⟨[], h⟩)
          | ⟨next :: others, h⟩ =>
            match _ho : otherwise? next with
            | none => (.branch line header inside none, ⟨next :: others, h⟩)
            | some tail =>
              let (no, ⟨behind, hb⟩) := body tail others
              (.branch line header inside (some no),
                ⟨behind, hb.trans ((List.suffix_cons _ _).trans h)⟩)
termination_by 3 * (line.length + linesSize rest) + 1
decreasing_by
  · have := linesSize_le_of_sublist (collectFrom_sublist 1 rest)
    simp only [collectBlock]
    omega
  · have h1 := header?_length_le _hk
    have h2 := Source.parenSpan?_length _hs
    omega
  · have h1 := otherwise?_length_le _ho
    have h2 := linesSize_le_of_sublist h.sublist
    simp only [linesSize_cons] at h2
    omega

/-- The outlines of a body that starts behind a header on the same line, and the lines behind
it. -/
def body (tail : List Char) (rest : List (List Char)) : List Outline × Behind rest :=
  if tail = ['{'] then
    (lines (collectBlock rest).1, ⟨(collectBlock rest).2, collectFrom_suffix 1 rest⟩)
  else if tail ≠ [] then
    let (outline, behind) := statement tail rest
    ([outline], behind)
  else
    match rest with
    | [] => ([], .all [])
    | next :: others =>
      if next = ['{'] then
        (lines (collectBlock others).1,
          ⟨(collectBlock others).2, (collectFrom_suffix 1 others).trans (List.suffix_cons _ _)⟩)
      else
        let (outline, ⟨behind, h⟩) := statement next others
        ([outline], ⟨behind, h.trans (List.suffix_cons _ _)⟩)
termination_by 3 * (tail.length + linesSize rest) + 2
decreasing_by
  · have := linesSize_le_of_sublist (collectFrom_sublist 1 rest)
    simp only [collectBlock]
    omega
  · omega
  · have := linesSize_le_of_sublist (collectFrom_sublist 1 others)
    simp only [collectBlock, linesSize_cons]
    omega
  · simp only [linesSize_cons]
    omega

def lines (all : List (List Char)) : List Outline :=
  match all with
  | [] => []
  | line :: rest =>
    let (outline, behind) := statement line rest
    outline :: lines behind.1
termination_by 3 * linesSize all
decreasing_by
  · simp only [linesSize_cons]
    omega
  · have := behind.size_le
    simp only [linesSize_cons]
    omega

end

end Outline

end ToyC
