import ToyC.Proofs.Syntax.Type

/-!
Outlining lines. The search for a closing brace passes over lines whose braces
balance, so it ends at the brace that was written for it. A header is found behind
its keyword, up to the parenthesis that closes it. From there on each case of the
outline has one equation.
-/

namespace ToyC

open Source (Walk isSpace breaksLine isBlank_of_isSpace)
open Text (isBlank isWord skipBlanks trim StopsRun)
open Shape (Leads)

/-! ### Braces -/

theorem balance_append (front back : List Char) :
    balance (front ++ back) = balance front + balance back := by
  simp only [balance, List.count_append]
  push_cast
  omega

theorem balance_of_not_breaksLine {text : List Char} (h : ∀ c ∈ text, breaksLine c = false) :
    balance text = 0 := by
  have hnone : ∀ brace : Char, breaksLine brace = true → text.count brace = 0 := by
    intro brace hbrace
    rw [List.count_eq_zero]
    intro hmem
    rw [h brace hmem] at hbrace
    cases hbrace
  rw [balance, hnone '{' rfl, hnone '}' rfl]
  rfl

/-- Lines that the search for a closing brace passes over, whatever follows them. -/
def Level (lines : List (List Char)) : Prop :=
  ∀ depth : Int, 0 < depth → ∀ rest, collectFrom depth (lines ++ rest) =
    (lines ++ (collectFrom depth rest).1, (collectFrom depth rest).2)

theorem collectFrom_cons {depth : Int} {line : List Char} (h : 0 < depth + balance line)
    (rest : List (List Char)) : collectFrom depth (line :: rest) =
      (line :: (collectFrom (depth + balance line) rest).1,
        (collectFrom (depth + balance line) rest).2) := by
  rw [collectFrom, if_neg (by omega)]

theorem collectFrom_closing (rest : List (List Char)) :
    collectFrom 1 (['}'] :: rest) = ([], rest) := by
  rw [collectFrom, if_pos (by decide)]

namespace Level

variable {lines more : List (List Char)} {line : List Char}

theorem nil : Level [] := by
  intro depth _ rest
  rfl

theorem single (h : balance line = 0) : Level [line] := by
  intro depth hdepth rest
  have hopen : 0 < depth + balance line := by omega
  have hcons := collectFrom_cons hopen rest
  rw [h, Int.add_zero] at hcons
  exact hcons

theorem append (hfirst : Level lines) (hsecond : Level more) : Level (lines ++ more) := by
  intro depth hdepth rest
  rw [List.append_assoc, hfirst depth hdepth, hsecond depth hdepth, List.append_assoc]

theorem flatMap {α : Type} {pieces : List α} {f : α → List (List Char)}
    (h : ∀ piece ∈ pieces, Level (f piece)) : Level (pieces.flatMap f) := by
  induction pieces with
  | nil => exact nil
  | cons piece pieces ih =>
      rw [List.flatMap_cons]
      exact (h piece List.mem_cons_self).append
        (ih fun other hother => h other (List.mem_cons_of_mem _ hother))

/-- A block is level when the lines inside its braces are. -/
theorem block (hline : balance line = 1) (h : Level lines) :
    Level (line :: (lines ++ [['}']])) := by
  intro depth hdepth rest
  have hclose : collectFrom (depth + 1) (['}'] :: rest) =
      (['}'] :: (collectFrom depth rest).1, (collectFrom depth rest).2) := by
    have hbalance : depth + 1 + balance ['}'] = depth := by
      have hbrace : balance ['}'] = -1 := by decide
      omega
    rw [collectFrom_cons (by omega), hbalance]
  have hopen : 0 < depth + balance line := by omega
  have hcons := collectFrom_cons hopen (lines ++ ['}'] :: rest)
  rw [hline, h (depth + 1) (by omega), hclose] at hcons
  simpa using hcons

/-- Only the braces of a line count. -/
theorem cons_congr {other : List Char} (hbalance : balance other = balance line)
    (h : Level (line :: lines)) : Level (other :: lines) := by
  intro depth hdepth rest
  have hline := h depth hdepth rest
  by_cases hopen : 0 < depth + balance line
  · rw [List.cons_append, collectFrom_cons hopen] at hline
    obtain ⟨hbody, hbehind⟩ := Prod.mk.inj hline
    have hinside := (List.cons.inj hbody).2
    rw [List.cons_append, collectFrom_cons (by omega), hbalance, hinside, hbehind]
    rfl
  · -- A line that closes the block would not have been passed over.
    rw [List.cons_append, collectFrom, if_pos (by omega)] at hline
    cases hline

/-- The lines of a block are those up to the brace that closes it. -/
theorem collectBlock (h : Level lines) (rest : List (List Char)) :
    collectBlock (lines ++ [['}']] ++ rest) = (lines, rest) := by
  rw [List.append_assoc, ToyC.collectBlock, h 1 (by decide), List.singleton_append,
    collectFrom_closing, List.append_nil]

end Level

/-! ### Headers -/

theorem Keyword.word_chars (keyword : Keyword) :
    ∀ c ∈ keyword.word.toList, Token.isNameRest c = true := by
  cases keyword <;> decide

theorem Keyword.word_injective {first second : Keyword}
    (h : first.word.toList = second.word.toList) : first = second := by
  cases first <;> cases second <;> first | rfl | (revert h; decide)

/-- A line that starts with a keyword and a parenthesis has that header and no other one. -/
theorem header?_append (keyword : Keyword) {space : List Char}
    (hspace : ∀ c ∈ space, isSpace c = true) (rest : List Char) :
    header? (keyword.word.toList ++ (space ++ '(' :: rest)) = some (keyword, '(' :: rest) := by
  have hskip : skipBlanks (space ++ '(' :: rest) = '(' :: rest := by
    rw [Source.skipBlanks_spaces hspace]
    rfl
  have hstop : StopsRun isWord (space ++ '(' :: rest) :=
    stops_word_of_space hspace fun _ => StopsRun.cons (by decide) _
  have hleads : Leads keyword.word.toList (keyword.word.toList ++ (space ++ '(' :: rest)) :=
    ⟨keyword.word_chars, _, rfl, hstop⟩
  rw [header?]
  apply Shape.findSome?_unique (x := keyword)
  · cases keyword <;> decide
  · rw [Shape.after?_append, Option.bind_some, hskip]
    rfl
  · intro other _ hother
    have hchars : ∀ c ∈ other.word.toList, isWord c = true := fun c hc =>
      Token.isWord_of_isNameRest (other.word_chars c hc)
    have hne : other.word.toList ≠ keyword.word.toList := fun heq =>
      hother (Keyword.word_injective heq)
    cases hafter : Shape.after? other.word.toList
        (keyword.word.toList ++ (space ++ '(' :: rest)) with
    | none => rfl
    | some behind =>
        have hparen := hleads.skipBlanks_after? hchars hne hafter
        rw [Option.bind_some]
        split
        · rename_i inside heq
          exact absurd heq (hparen inside)
        · rfl

theorem parenSpan?_append {sep : Char → Bool} {inside : List Char} (h : Walk sep 0 inside 0)
    (tail : List Char) :
    Source.parenSpan? ('(' :: (inside ++ ')' :: tail)) = some (inside, trim tail) := by
  have hclosed : Source.closeSpan 1 (')' :: tail) = some ([], tail) := by
    rw [Source.closeSpan, if_pos ⟨rfl, rfl⟩]
  have hspan := Source.closeSpan_walk h hclosed
  rw [List.append_nil] at hspan
  have hinside : Source.closeSpan 1 (inside ++ ')' :: tail) = some (inside, tail) := hspan
  simp [Source.parenSpan?, hinside]

/-- What stands behind the word for the other branch is found there. -/
theorem otherwise?_append {rest : List Char} (hstop : StopsRun isWord rest)
    (hline : '\n' ∉ rest) : otherwise? ("else".toList ++ rest) = some (skipBlanks rest) := by
  have hafter : Shape.afterWord? "else".toList ("else".toList ++ rest) = some rest := by
    rw [Shape.afterWord?, Shape.after?_append]
    cases rest with
    | nil => rfl
    | cons c rest =>
        have hc : isWord c = false := hstop c rfl
        simp [hc]
  have hchars : ∀ c ∈ skipBlanks rest, decide (c ≠ '\n') = true := by
    intro c hc
    have hmem : c ∈ rest := (List.dropWhile_sublist isBlank).subset hc
    have hne : c ≠ '\n' := fun heq => hline (heq ▸ hmem)
    simpa using hne
  have hall := Text.takeWhile_run hchars (StopsRun.nil _)
  rw [List.append_nil] at hall
  rw [otherwise?, hafter, Option.bind_some]
  simp only [hall, List.drop_length]

/-! ### What is left of a line -/

theorem append_of_after? {word text rest : List Char} (h : Shape.after? word text = some rest) :
    word ++ rest = text := by
  simp only [Shape.after?] at h
  split at h
  · rename_i hfront
    cases h
    exact List.prefix_iff_eq_append.1 (List.isPrefixOf_iff_prefix.1 hfront)
  · cases h

theorem append_of_afterWord? {word text rest : List Char}
    (h : Shape.afterWord? word text = some rest) : word ++ rest = text := by
  simp only [Shape.afterWord?] at h
  split at h
  · rename_i hafter
    cases h
    exact append_of_after? hafter
  · rename_i hafter
    split at h
    · cases h
    · cases h
      exact append_of_after? hafter
  · cases h

theorem header?_isSuffix {line span : List Char} {keyword : Keyword}
    (h : header? line = some (keyword, span)) : span <:+ line := by
  obtain ⟨k, _, hk⟩ := List.exists_of_findSome?_eq_some h
  obtain ⟨rest, hrest, hspan⟩ := Option.bind_eq_some_iff.1 hk
  split at hspan
  · rename_i inside heq
    cases hspan
    have hskip : skipBlanks rest <:+ rest := List.dropWhile_suffix _
    rw [heq] at hskip
    rw [← append_of_after? hrest]
    exact hskip.trans (List.suffix_append _ _)
  · cases hspan

theorem closeSpan_isSuffix {depth : Int} {text inside behind : List Char}
    (h : Source.closeSpan depth text = some (inside, behind)) : behind <:+ text := by
  induction text generalizing depth inside with
  | nil => simp [Source.closeSpan] at h
  | cons c rest ih =>
      simp only [Source.closeSpan] at h
      split at h
      · cases h
        exact List.suffix_cons _ _
      · obtain ⟨⟨shown, left⟩, hspan, hpair⟩ := Option.map_eq_some_iff.1 h
        obtain ⟨-, rfl⟩ := Prod.mk.inj hpair
        exact (ih hspan).trans (List.suffix_cons _ _)

theorem parenSpan?_isInfix {text inside behind : List Char}
    (h : Source.parenSpan? text = some (inside, behind)) : behind <:+: text := by
  cases text with
  | nil => simp [Source.parenSpan?] at h
  | cons c rest =>
      obtain ⟨⟨shown, left⟩, hspan, hpair⟩ := Option.map_eq_some_iff.1 h
      obtain ⟨-, rfl⟩ := Prod.mk.inj hpair
      have hleft : left <:+ c :: rest := (closeSpan_isSuffix hspan).trans (List.suffix_cons _ _)
      exact (Text.trim_isInfix left).trans hleft.isInfix

/-! ### The cases of an outline -/

namespace Outline

variable {line span header tail next other : List Char} {rest others : List (List Char)}

theorem statement_block (rest : List (List Char)) :
    (statement ['{'] rest).1 = .block (lines (collectBlock rest).1) ∧
      (statement ['{'] rest).2.1 = (collectBlock rest).2 := by
  rw [statement, if_pos rfl]
  exact ⟨rfl, rfl⟩

theorem statement_single (hbrace : line ≠ ['{']) (hheader : header? line = none)
    (rest : List (List Char)) :
    (statement line rest).1 = .single line ∧ (statement line rest).2.1 = rest := by
  rw [statement, if_neg hbrace]
  split
  · exact ⟨rfl, rfl⟩
  · rename_i heq
    rw [hheader] at heq
    cases heq

theorem statement_unclosed {keyword : Keyword} (hbrace : line ≠ ['{'])
    (hheader : header? line = some (keyword, span)) (hspan : Source.parenSpan? span = none)
    (rest : List (List Char)) :
    (statement line rest).1 = .unclosed keyword line ∧ (statement line rest).2.1 = rest := by
  rw [statement, if_neg hbrace]
  split
  · rename_i heq
    rw [hheader] at heq
    cases heq
  · rename_i heq
    rw [hheader] at heq
    cases heq
    split
    · exact ⟨rfl, rfl⟩
    · rename_i heq
      rw [hspan] at heq
      cases heq

/-- A statement that starts with a header goes on with its body, and a branch with the other one
if the line behind the body has the word for it. -/
theorem statement_header {keyword : Keyword} (hbrace : line ≠ ['{'])
    (hheader : header? line = some (keyword, span))
    (hspan : Source.parenSpan? span = some (header, tail)) (rest : List (List Char)) :
    statement line rest =
      match keyword with
      | .whileLoop => (.whileLoop line header (body tail rest).1, (body tail rest).2)
      | .forLoop => (.forLoop line header (body tail rest).1, (body tail rest).2)
      | .branch =>
        match (body tail rest).2 with
        | ⟨[], h⟩ => (.branch line header (body tail rest).1 none, ⟨[], h⟩)
        | ⟨next :: others, h⟩ =>
          match otherwise? next with
          | none => (.branch line header (body tail rest).1 none, ⟨next :: others, h⟩)
          | some other =>
            (.branch line header (body tail rest).1 (some (body other others).1),
              ⟨(body other others).2.1,
                (body other others).2.2.trans ((List.suffix_cons _ _).trans h)⟩) := by
  rw [statement, if_neg hbrace]
  split
  · rename_i heq
    rw [hheader] at heq
    cases heq
  · rename_i heq
    rw [hheader] at heq
    cases heq
    split
    · rename_i heq
      rw [hspan] at heq
      cases heq
    · rename_i heq
      rw [hspan] at heq
      cases heq
      cases keyword with
      | whileLoop => rfl
      | forLoop => rfl
      | branch =>
          dsimp only
          generalize (body tail rest).2 = behind
          rcases behind with ⟨_ | ⟨next, others⟩, h⟩
          · rfl
          · dsimp only
            split <;> simp only [*]

theorem statement_whileLoop (hbrace : line ≠ ['{'])
    (hheader : header? line = some (.whileLoop, span))
    (hspan : Source.parenSpan? span = some (header, tail)) (rest : List (List Char)) :
    (statement line rest).1 = .whileLoop line header (body tail rest).1 ∧
      (statement line rest).2.1 = (body tail rest).2.1 := by
  rw [statement_header hbrace hheader hspan]
  exact ⟨rfl, rfl⟩

theorem statement_forLoop (hbrace : line ≠ ['{'])
    (hheader : header? line = some (.forLoop, span))
    (hspan : Source.parenSpan? span = some (header, tail)) (rest : List (List Char)) :
    (statement line rest).1 = .forLoop line header (body tail rest).1 ∧
      (statement line rest).2.1 = (body tail rest).2.1 := by
  rw [statement_header hbrace hheader hspan]
  exact ⟨rfl, rfl⟩

theorem statement_branch (hbrace : line ≠ ['{']) (hheader : header? line = some (.branch, span))
    (hspan : Source.parenSpan? span = some (header, tail))
    (hnone : ∀ next ∈ (body tail rest).2.1.head?, otherwise? next = none) :
    (statement line rest).1 = .branch line header (body tail rest).1 none ∧
      (statement line rest).2.1 = (body tail rest).2.1 := by
  rw [statement_header hbrace hheader hspan]
  dsimp only
  generalize (body tail rest).2 = behind at hnone
  rcases behind with ⟨_ | ⟨next, others⟩, h⟩
  · exact ⟨rfl, rfl⟩
  · have hnext := hnone next rfl
    dsimp only
    rw [hnext]
    exact ⟨rfl, rfl⟩

theorem statement_branchElse (hbrace : line ≠ ['{'])
    (hheader : header? line = some (.branch, span))
    (hspan : Source.parenSpan? span = some (header, tail))
    (hbehind : (body tail rest).2.1 = next :: others) (hother : otherwise? next = some other) :
    (statement line rest).1 =
        .branch line header (body tail rest).1 (some (body other others).1) ∧
      (statement line rest).2.1 = (body other others).2.1 := by
  rw [statement_header hbrace hheader hspan]
  dsimp only
  generalize (body tail rest).2 = behind at hbehind
  rcases behind with ⟨lines, h⟩
  change lines = next :: others at hbehind
  subst hbehind
  dsimp only
  rw [hother]
  exact ⟨rfl, rfl⟩

theorem body_brace (rest : List (List Char)) :
    (body ['{'] rest).1 = lines (collectBlock rest).1 ∧
      (body ['{'] rest).2.1 = (collectBlock rest).2 := by
  rw [body.eq_def, if_pos rfl]
  exact ⟨rfl, rfl⟩

theorem body_end : (body [] []).1 = [] ∧ (body [] []).2.1 = [] := by
  rw [body, if_neg (by decide), if_neg (by simp)]
  exact ⟨rfl, rfl⟩

theorem body_braceBelow (rest : List (List Char)) :
    (body [] (['{'] :: rest)).1 = lines (collectBlock rest).1 ∧
      (body [] (['{'] :: rest)).2.1 = (collectBlock rest).2 := by
  rw [body, if_neg (by decide), if_neg (by simp)]
  dsimp only
  rw [if_pos rfl]
  exact ⟨rfl, rfl⟩

theorem body_beside (hbrace : tail ≠ ['{']) (hne : tail ≠ []) (rest : List (List Char)) :
    (body tail rest).1 = [(statement tail rest).1] ∧
      (body tail rest).2.1 = (statement tail rest).2.1 := by
  rw [body.eq_def, if_neg hbrace, if_pos hne]
  exact ⟨rfl, rfl⟩

theorem body_below (hbrace : next ≠ ['{']) (others : List (List Char)) :
    (body [] (next :: others)).1 = [(statement next others).1] ∧
      (body [] (next :: others)).2.1 = (statement next others).2.1 := by
  rw [body, if_neg (by decide), if_neg (by simp)]
  dsimp only
  rw [if_neg hbrace]
  exact ⟨rfl, rfl⟩

theorem lines_cons (line : List Char) (rest : List (List Char)) :
    lines (line :: rest) = (statement line rest).1 :: lines (statement line rest).2.1 := by
  rw [lines]

end Outline

end ToyC
