import ToyC.Proofs.Syntax.Block

/-!
Statements without braces. Such a statement is a chain of headers, words for the other
branch and statements without statements inside, each beside the one in front of it
or below. Every chain in which each word for the other branch has a branch to belong
to is read as one statement, made of the same links in the same order, and the word
belongs to the nearest branch in front of it that has none.
-/

namespace ToyC

open Source (LaidOut isSpace)
open Text (isWord StopsRun)

/-! ### Chains -/

/-- What a statement without braces is made of. -/
inductive Link where
  | whileLoop (condition : Expr)
  | forLoop (start : Option Simple) (condition : Option Expr) (next : Option Simple)
  | branch (condition : Expr)
  /-- the word for the other branch -/
  | other
  | simple (s : Simple)

/-- A text that writes a header. -/
inductive Link.Header : Link → List Char → Prop
  | whileLoop {condition : Expr} {space inside : List Char}
      (hspace : ∀ c ∈ space, isSpace c = true) (hinside : condition.Enclosed inside) :
      Header (.whileLoop condition) (headerText .whileLoop space inside)
  | forLoop {start : Option Simple} {condition : Option Expr} {next : Option Simple}
      {space inside : List Char} (hspace : ∀ c ∈ space, isSpace c = true)
      (hinside : Clauses.Written start condition next inside) :
      Header (.forLoop start condition next) (headerText .forLoop space inside)
  | branch {condition : Expr} {space inside : List Char}
      (hspace : ∀ c ∈ space, isSpace c = true) (hinside : condition.Enclosed inside) :
      Header (.branch condition) (headerText .branch space inside)

/-- Lines behind a text, the first of them beside it or below it: what stands behind the text on its
line, and the lines below. -/
inductive Joined (lines : List (List Char)) : List Char → List (List Char) → Prop
  | beside {space first : List Char} {more : List (List Char)}
      (hspace : ∀ c ∈ space, isSpace c = true) (hlines : lines = first :: more) :
      Joined lines (space ++ first) more
  | below : Joined lines [] lines

/-- Lines that write links one behind the other. A statement without statements inside ends the
chain, or the word for the other branch follows. -/
inductive Chain : List Link → List (List Char) → Prop
  | last {s : Simple} {text space : List Char} (hdeed : s.deed.Written text)
      (hspace : ∀ c ∈ space, isSpace c = true) :
      Chain [.simple s] [text ++ (space ++ [';'])]
  | other {s : Simple} {text space tail : List Char} {links : List Link}
      {lines more : List (List Char)} (hdeed : s.deed.Written text)
      (hspace : ∀ c ∈ space, isSpace c = true) (rest : Chain links lines)
      (htail : Joined lines tail more) (hapart : StopsRun isWord tail) :
      Chain (.simple s :: .other :: links)
        ((text ++ (space ++ [';'])) :: ("else".toList ++ tail) :: more)
  | header {link : Link} {front tail : List Char} {links : List Link}
      {lines more : List (List Char)} (hfront : link.Header front) (rest : Chain links lines)
      (htail : Joined lines tail more) : Chain (link :: links) ((front ++ tail) :: more)

/-- For each word for the other branch, the place of the branch that it belongs to. `free` holds the
places of the branches in front that have no other one yet, nearest first. -/
def nearestOwners (place : Nat) (free : List Nat) : List Link → Option (List Nat)
  | [] => some []
  | .branch _ :: links => nearestOwners (place + 1) (place :: free) links
  | .other :: links =>
    match free with
    | [] => none
    | owner :: free => (nearestOwners (place + 1) free links).map (owner :: ·)
  | _ :: links => nearestOwners (place + 1) free links

/-! ### The links of a statement -/

mutual

/-- The links that a statement is made of, in the order in which they are written. -/
def Stmt.links : Stmt → List Link
  | .simple s => [.simple s]
  | .branch _ condition yes no => .branch condition :: (linksAll yes ++ linksOther no)
  | .whileLoop _ condition body => .whileLoop condition :: linksAll body
  | .forLoop _ start condition next body => .forLoop start condition next :: linksAll body
  | .block _ body => linksAll body

def Stmt.linksAll : List Stmt → List Link
  | [] => []
  | stmt :: rest => stmt.links ++ linksAll rest

def Stmt.linksOther : Option (List Stmt) → List Link
  | none => []
  | some body => .other :: linksAll body

end

mutual

/-- For each word for the other branch in a statement, the place of the branch that has it. -/
def Stmt.owners (place : Nat) : Stmt → List Nat
  | .simple _ => []
  | .branch _ _ yes no =>
    ownersAll (place + 1) yes ++ ownersOther place (place + 1 + (linksAll yes).length) no
  | .whileLoop _ _ body => ownersAll (place + 1) body
  | .forLoop _ _ _ _ body => ownersAll (place + 1) body
  | .block _ body => ownersAll place body

def Stmt.ownersAll (place : Nat) : List Stmt → List Nat
  | [] => []
  | stmt :: rest => stmt.owners place ++ ownersAll (place + stmt.links.length) rest

def Stmt.ownersOther (owner place : Nat) : Option (List Stmt) → List Nat
  | none => []
  | some body => owner :: ownersAll (place + 1) body

end

/-- Statements each of whose bodies is one statement. Of a branch with another one, the first body
does not end with a branch that has none; the flag tells that of the whole statement. -/
inductive Stmt.Bare : Stmt → Bool → Prop
  | simple {s : Simple} : Bare (.simple s) true
  | whileLoop {src : String} {condition : Expr} {body : Stmt} {closed : Bool}
      (h : Bare body closed) : Bare (.whileLoop src condition [body]) closed
  | forLoop {src : String} {start : Option Simple} {condition : Option Expr}
      {next : Option Simple} {body : Stmt} {closed : Bool} (h : Bare body closed) :
      Bare (.forLoop src start condition next [body]) closed
  | branch {src : String} {condition : Expr} {yes : Stmt} {closed : Bool} (h : Bare yes closed) :
      Bare (.branch src condition [yes] none) false
  | branchElse {src : String} {condition : Expr} {yes no : Stmt} {closed : Bool}
      (hyes : Bare yes true) (hno : Bare no closed) :
      Bare (.branch src condition [yes] (some [no])) closed

/-- The word for the other branch belongs to the nearest branch without one. Behind the statement
its own branches are free only if it is not closed. -/
theorem Stmt.Bare.nearestOwners_links {stmt : Stmt} {closed : Bool} (h : stmt.Bare closed)
    (place : Nat) (free : List Nat) :
    ∃ left, (closed = true → left = []) ∧ ∀ rest, nearestOwners place free (stmt.links ++ rest) =
      (nearestOwners (place + stmt.links.length) (left ++ free) rest).map
        (stmt.owners place ++ ·) := by
  induction h generalizing place free with
  | simple =>
      refine ⟨[], fun _ => rfl, fun rest => ?_⟩
      simp [links, owners, nearestOwners]
  | whileLoop h ih =>
      obtain ⟨left, hclosed, hleft⟩ := ih (place + 1) free
      refine ⟨left, hclosed, fun rest => ?_⟩
      simp only [links, linksAll, owners, ownersAll, List.append_nil, List.cons_append,
        nearestOwners, hleft, List.length_cons]
      rw [Nat.add_assoc, Nat.add_comm 1]
  | forLoop h ih =>
      obtain ⟨left, hclosed, hleft⟩ := ih (place + 1) free
      refine ⟨left, hclosed, fun rest => ?_⟩
      simp only [links, linksAll, owners, ownersAll, List.append_nil, List.cons_append,
        nearestOwners, hleft, List.length_cons]
      rw [Nat.add_assoc, Nat.add_comm 1]
  | branch h ih =>
      obtain ⟨left, -, hleft⟩ := ih (place + 1) (place :: free)
      refine ⟨left ++ [place], fun hclosed => absurd hclosed Bool.false_ne_true, fun rest => ?_⟩
      simp only [links, linksAll, linksOther, owners, ownersAll, ownersOther, List.append_nil,
        List.cons_append, nearestOwners, hleft, List.length_cons, List.append_assoc,
        List.nil_append]
      rw [Nat.add_assoc, Nat.add_comm 1]
  | @branchElse src condition yes no closed hyes hno ihyes ihno =>
      obtain ⟨left, hclosed, hleft⟩ := ihyes (place + 1) (place :: free)
      obtain ⟨leftOther, hclosedOther, hleftOther⟩ :=
        ihno (place + 1 + yes.links.length + 1) free
      refine ⟨leftOther, hclosedOther, fun rest => ?_⟩
      have hlength : place + 1 + yes.links.length + 1 + no.links.length =
          place + (yes.links.length + (no.links.length + 1) + 1) := by omega
      simp only [links, linksAll, linksOther, owners, ownersAll, ownersOther, List.append_nil,
        List.cons_append, List.append_assoc, nearestOwners, hleft, hclosed rfl, List.nil_append,
        hleftOther, Option.map_map, List.length_cons, List.length_append, hlength]
      rfl

/-! ### Chains write statements -/

/-- What is left of a chain behind a statement: nothing, or, behind a closed one, the word for
another branch and the rest of the chain. -/
inductive Chain.Left (closed : Bool) : List Link → List (List Char) → Prop
  | nil : Left closed [] []
  | other {links : List Link} {lines more : List (List Char)} {tail : List Char}
      (hclosed : closed = true) (rest : Chain links lines) (htail : Joined lines tail more)
      (hapart : StopsRun isWord tail) :
      Left closed (.other :: links) (("else".toList ++ tail) :: more)

/-- A statement in front of a chain, and what is left of the chain. -/
structure Chain.Front (links : List Link) (lines : List (List Char)) (piece : Piece)
    (leftLinks : List Link) (leftLines : List (List Char)) : Prop where
  links_eq : links = piece.stmt.links ++ leftLinks
  lines_eq : lines = piece.lines ++ leftLines
  bare : piece.stmt.Bare piece.closed
  written : piece.stmt.Written piece.closed piece.lines
  starts : ∃ first more, piece.lines = first :: more ∧ first ≠ ['{']
  left : Chain.Left piece.closed leftLinks leftLines

/-- A statement that is joined to a text is a body without braces there. -/
theorem Joined.body {piece : Piece} {rest more : List (List Char)} {tail : List Char}
    (h : Joined (piece.lines ++ rest) tail more)
    (hstarts : ∃ first others, piece.lines = first :: others ∧ first ≠ ['{']) :
    ∃ inner, more = inner ++ rest ∧ Body [piece] piece.closed tail inner := by
  obtain ⟨first, others, hlines, hfirst⟩ := hstarts
  cases h with
  | beside hspace hjoined =>
      rw [hlines, List.cons_append] at hjoined
      cases hjoined
      exact ⟨others, rfl, Body.beside hspace hlines hfirst⟩
  | below => exact ⟨piece.lines, rfl, hlines ▸ Body.below hlines hfirst⟩

/-- A header and the statement behind it are in front of a chain. -/
theorem Link.Header.front {link : Link} {front tail : List Char} {links leftLinks : List Link}
    {lines more leftLines : List (List Char)} {piece : Piece} (hfront : link.Header front)
    (htail : Joined lines tail more) (hfound : Chain.Front links lines piece leftLinks leftLines)
    (hother : ∀ {condition : Expr} {links : List Link} {lines : List (List Char)},
      link = .branch condition → leftLinks = .other :: links → Chain links lines →
        ∃ other leftLinks leftLines, Chain.Front links lines other leftLinks leftLines) :
    ∃ whole leftLinks leftLines,
      Chain.Front (link :: links) ((front ++ tail) :: more) whole leftLinks leftLines := by
  obtain ⟨hlinks, rfl, hbare, hwritten, hstarts, hleft⟩ := hfound
  obtain ⟨inner, rfl, hbody⟩ := htail.body hstarts
  have hpieces : ∀ other ∈ [piece], other.stmt.Written other.closed other.lines :=
    List.forall_mem_singleton.mpr hwritten
  cases hfront with
  | @whileLoop condition space inside hspace hinside =>
      refine ⟨⟨.whileLoop "" condition [piece.stmt], piece.closed, _⟩, _, _, ?_, rfl,
        Stmt.Bare.whileLoop hbare, Stmt.Written.whileLoop hspace hinside hpieces hbody,
        ⟨_, _, rfl, headerText_ne_brace _ _ _ _⟩, hleft⟩
      simp only [Stmt.links, Stmt.linksAll, List.append_nil, List.cons_append, hlinks]
  | @forLoop start condition next space inside hspace hinside =>
      refine ⟨⟨.forLoop "" start condition next [piece.stmt], piece.closed, _⟩, _, _, ?_, rfl,
        Stmt.Bare.forLoop hbare, Stmt.Written.forLoop hspace hinside hpieces hbody,
        ⟨_, _, rfl, headerText_ne_brace _ _ _ _⟩, hleft⟩
      simp only [Stmt.links, Stmt.linksAll, List.append_nil, List.cons_append, hlinks]
  | @branch condition space inside hspace hinside =>
      cases hleft with
      | nil =>
          refine ⟨⟨.branch "" condition [piece.stmt] none, false, _⟩, [], [], ?_, rfl,
            Stmt.Bare.branch hbare, Stmt.Written.branch hspace hinside hpieces hbody,
            ⟨_, _, rfl, headerText_ne_brace _ _ _ _⟩, Chain.Left.nil⟩
          simp only [Stmt.links, Stmt.linksAll, Stmt.linksOther, List.append_nil, hlinks]
      | @other behind below others tailOther hclosed rest hjoined hapart =>
          obtain ⟨other, leftLinks, leftLines, hlinksOther, rfl, hbareOther, hwrittenOther,
            hstartsOther, hleftOther⟩ := hother rfl rfl rest
          obtain ⟨innerOther, rfl, hbodyOther⟩ := hjoined.body hstartsOther
          have hothers : ∀ found ∈ [other], found.stmt.Written found.closed found.lines :=
            List.forall_mem_singleton.mpr hwrittenOther
          rw [hclosed] at hbody hbare
          refine ⟨⟨.branch "" condition [piece.stmt] (some [other.stmt]), other.closed, _⟩, _, _,
            ?_, ?_, Stmt.Bare.branchElse hbare hbareOther,
            Stmt.Written.branchElse hspace hinside hpieces hothers hbody hbodyOther hapart,
            ⟨_, _, rfl, headerText_ne_brace _ _ _ _⟩, hleftOther⟩
          · simp only [Stmt.links, Stmt.linksAll, Stmt.linksOther, List.append_nil,
              List.cons_append, List.append_assoc, hlinks, hlinksOther]
          · simp only [List.cons_append, List.append_assoc]

/-- A chain starts with a statement. -/
theorem Chain.exists_front {links : List Link} {lines : List (List Char)} (h : Chain links lines) :
    ∃ piece leftLinks leftLines, Front links lines piece leftLinks leftLines := by
  -- behind a branch, the other one is a chain of its own, shorter but no part of the derivation
  induction hlength : links.length using Nat.strongRecOn generalizing links lines with
  | ind n ih =>
      subst hlength
      cases h with
      | @last s text space hdeed hspace =>
          refine ⟨⟨.simple s, true, _⟩, [], [], rfl, (List.append_nil _).symm, Stmt.Bare.simple,
            Stmt.Written.simple hdeed hspace, ⟨_, [], rfl, simpleLine_ne _ _ (by decide)⟩, Left.nil⟩
      | @other s text space tail links lines more hdeed hspace rest htail hapart =>
          exact ⟨⟨.simple s, true, [text ++ (space ++ [';'])]⟩, _, _, rfl, rfl, Stmt.Bare.simple,
            Stmt.Written.simple hdeed hspace, ⟨_, [], rfl, simpleLine_ne _ _ (by decide)⟩,
            Left.other rfl rest htail hapart⟩
      | @header link front tail links lines more hfront rest htail =>
          obtain ⟨piece, leftLinks, leftLines, hfound⟩ :=
            ih links.length (Nat.lt_succ_self _) rest rfl
          apply hfront.front htail hfound
          intro condition behind below hbranch hleft hbehind
          apply ih behind.length _ hbehind rfl
          rw [hfound.links_eq, hleft, List.length_cons, List.length_append, List.length_cons]
          omega

/-- A chain in which each word for the other branch has a branch to belong to is one statement. -/
theorem Chain.whole {links : List Link} {lines : List (List Char)} (h : Chain links lines)
    (howners : (nearestOwners 0 [] links).isSome) :
    ∃ piece : Piece, piece.lines = lines ∧ piece.stmt.Written piece.closed piece.lines ∧
      piece.stmt.Bare piece.closed ∧ piece.stmt.links = links ∧
      nearestOwners 0 [] links = some (piece.stmt.owners 0) := by
  obtain ⟨piece, leftLinks, leftLines, hlinks, hlines, hbare, hwritten, -, hleft⟩ := h.exists_front
  obtain ⟨left, hclosed, hnearest⟩ := hbare.nearestOwners_links 0 []
  have hall := hnearest leftLinks
  rw [← hlinks] at hall
  cases hleft with
  | nil =>
      rw [List.append_nil] at hlinks hlines
      refine ⟨piece, hlines.symm, hwritten, hbare, hlinks.symm, ?_⟩
      rw [hall, nearestOwners, Option.map_some, List.append_nil]
  | other hends rest htail hapart =>
      rw [hall, hclosed hends, List.append_nil, nearestOwners] at howners
      exact absurd howners Bool.false_ne_true

end ToyC
