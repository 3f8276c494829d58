import ToyC.Proofs.Syntax.Outline

/-!
The visits of a reader that reads a block by index: the statements that it starts, each
at an index or with a line that is pushed back, and the blocks inside them. Visits that
pass over the lines in order start no two statements with the same line, and a block
inside a statement has lines that stand together among those of the statement.
-/

namespace ToyC

open Text (skipBlanks)

/-- What stands behind a header, to be read as a statement, and the line that it came from. -/
structure Pushed where
  line : List Char
  origin : List Char

/-- A visit of the reader. -/
inductive Visit where
  /-- a statement that starts at an index or with a pushed line, up to the next unread line -/
  | statement (start : Nat) (pushed : Option Pushed) (next : Nat) (inside : List Visit)
  /-- a block with lines of its own -/
  | block (lines : List (List Char)) (inside : List Visit)

/-! ### The order of visits -/

/-- A pushed line is a part of the line that it came from, and shorter. -/
structure Pushed.Left (pushed : Pushed) : Prop where
  part : pushed.line <:+: pushed.origin
  shorter : pushed.line.length < pushed.origin.length

/-- The text behind a header is left of the header's line. -/
theorem Pushed.left_of_header {line span header tail : List Char} {keyword : Keyword}
    (hheader : header? line = some (keyword, span))
    (hspan : Source.parenSpan? span = some (header, tail)) : Pushed.Left ⟨tail, line⟩ := by
  have hline := header?_length_le hheader
  have htail := Source.parenSpan?_length hspan
  refine ⟨(parenSpan?_isInfix hspan).trans (header?_isSuffix hheader).isInfix, ?_⟩
  dsimp only
  omega

/-- The text behind the word for the other branch is left of the word's line. -/
theorem Pushed.left_of_otherwise {line shown : List Char} (h : otherwise? line = some shown) :
    Pushed.Left ⟨shown, line⟩ := by
  obtain ⟨rest, hrest, hshown⟩ := Option.bind_eq_some_iff.1 h
  have hfront : shown <+: skipBlanks rest := by
    dsimp only at hshown
    split at hshown
    · cases hshown
      exact List.takeWhile_prefix _
    · cases hshown
      exact List.takeWhile_prefix _
    · cases hshown
  have hskip : skipBlanks rest <:+ rest := List.dropWhile_suffix _
  have hpart : shown <:+: rest := hfront.isInfix.trans hskip.isInfix
  have hline := append_of_afterWord? hrest
  refine ⟨hpart.trans (hline ▸ (List.suffix_append _ _).isInfix), ?_⟩
  have hlength := congrArg List.length hline
  rw [List.length_append] at hlength
  have hword : "else".toList.length = 4 := rfl
  have hshort := hpart.length_le
  dsimp only
  omega

/-- Visits that pass over lines from one index to another. Each starts where the one in front of
it has ended, or behind that, and so do the visits inside it. A statement without a pushed line
takes a line first. The lines of a block stand together among those that are passed over. -/
inductive Passes : List (List Char) → Nat → List Visit → Nat → Prop
  | nil {lines : List (List Char)} {i j : Nat} (hle : i ≤ j) (hj : j ≤ lines.length) :
      Passes lines i [] j
  | statement {lines : List (List Char)} {pushed : Option Pushed} {i start index next j : Nat}
      {inside rest : List Visit} (hi : i ≤ start) (hindex : start ≤ index)
      (hfresh : pushed = none → start < index) (hleft : ∀ text ∈ pushed, text.Left)
      (hinside : Passes lines index inside next) (hrest : Passes lines next rest j) :
      Passes lines i (.statement start pushed next inside :: rest) j
  | block {lines body : List (List Char)} {i first last j : Nat} {inside rest : List Visit}
      (hi : i ≤ first) (hlast : first ≤ last)
      (hbody : body = (lines.drop first).take (last - first))
      (hinside : Passes body 0 inside body.length) (hrest : Passes lines last rest j) :
      Passes lines i (.block body inside :: rest) j

namespace Passes

variable {lines : List (List Char)} {i j k : Nat} {visits more : List Visit}

theorem bounds (h : Passes lines i visits j) : i ≤ j ∧ j ≤ lines.length := by
  induction h with
  | nil hle hj => exact ⟨hle, hj⟩
  | statement hi hindex hfresh hleft hinside hrest ihinside ihrest =>
      exact ⟨by omega, ihrest.2⟩
  | block hi hlast hbody hinside hrest ihinside ihrest => exact ⟨by omega, ihrest.2⟩

theorem mono (h : Passes lines i visits j) (hk : k ≤ i) : Passes lines k visits j := by
  cases h with
  | nil hle hj => exact .nil (Nat.le_trans hk hle) hj
  | statement hi hindex hfresh hleft hinside hrest =>
      exact .statement (Nat.le_trans hk hi) hindex hfresh hleft hinside hrest
  | block hi hlast hbody hinside hrest =>
      exact .block (Nat.le_trans hk hi) hlast hbody hinside hrest

/-- A statement that starts with the line at the index. -/
theorem fresh {next : Nat} {inside : List Visit} (hinside : Passes lines (i + 1) inside next)
    (hrest : Passes lines next visits j) :
    Passes lines i (.statement i none next inside :: visits) j :=
  .statement (Nat.le_refl _) (Nat.le_succ _) (fun _ => Nat.lt_succ_self _)
    (fun _ hmem => absurd hmem (Option.not_mem_none _)) hinside hrest

/-- A statement that starts with a pushed line in front of the index. -/
theorem pushed {text : Pushed} {next : Nat} {inside : List Visit} (hleft : text.Left)
    (hinside : Passes lines i inside next) (hrest : Passes lines next visits j) :
    Passes lines i (.statement i (some text) next inside :: visits) j :=
  .statement (Nat.le_refl _) (Nat.le_refl _) nofun
    (fun _ hmem => Option.mem_some.1 hmem ▸ hleft) hinside hrest

theorem append (hfirst : Passes lines i visits j) (hsecond : Passes lines j more k) :
    Passes lines i (visits ++ more) k := by
  induction hfirst with
  | nil hle hj => exact hsecond.mono hle
  | statement hi hindex hfresh hleft hinside hrest ihinside ihrest =>
      exact .statement hi hindex hfresh hleft hinside (ihrest hsecond)
  | block hi hlast hbody hinside hrest ihinside ihrest =>
      exact .block hi hlast hbody hinside (ihrest hsecond)

end Passes

/-- Lines that stand together between two indices. -/
def Between (lines : List (List Char)) (i j : Nat) (body : List (List Char)) : Prop :=
  ∃ first last, i ≤ first ∧ first ≤ last ∧ last ≤ j ∧ body = (lines.drop first).take (last - first)

theorem Between.mono {lines body : List (List Char)} {i j i' j' : Nat}
    (h : Between lines i j body) (hi : i' ≤ i) (hj : j ≤ j') : Between lines i' j' body := by
  obtain ⟨first, last, hfirst, hle, hlast, hbody⟩ := h
  exact ⟨first, last, Nat.le_trans hi hfirst, hle, Nat.le_trans hlast hj, hbody⟩

/-! ### Calls -/

/-- A call that reads a statement: where it starts, the line that is pushed back, the next unread
line, and the lines of the bodies that are read as blocks. -/
structure Call where
  start : Nat
  pushed : Option Pushed
  next : Nat
  bodies : List (List (List Char))

mutual

/-- The lines of the blocks that a visit reads. -/
def Visit.bodies : Visit → List (List (List Char))
  | .statement _ _ _ inside => bodiesAll inside
  | .block lines _ => [lines]

def Visit.bodiesAll : List Visit → List (List (List Char))
  | [] => []
  | visit :: rest => visit.bodies ++ bodiesAll rest

end

mutual

/-- The calls for the statements that a visit reads in its own block. -/
def Visit.calls : Visit → List Call
  | .statement start pushed next inside =>
    { start, pushed, next, bodies := bodiesAll inside } :: callsAll inside
  | .block .. => []

def Visit.callsAll : List Visit → List Call
  | [] => []
  | visit :: rest => visit.calls ++ callsAll rest

end

mutual

/-- The blocks that a visit reads, those inside them included, with the visits that read them. -/
def Visit.blocks : Visit → List (List (List Char) × List Visit)
  | .statement _ _ _ inside => blocksAll inside
  | .block lines inside => (lines, inside) :: blocksAll inside

def Visit.blocksAll : List Visit → List (List (List Char) × List Visit)
  | [] => []
  | visit :: rest => visit.blocks ++ blocksAll rest

end

/-- The line that a call reads as the start of its statement, if none is pushed back. -/
def Call.freshStart? (call : Call) : Option Nat :=
  if call.pushed.isNone then some call.start else none

/-- The lines that the statements of a block are started with, in the order of the calls. -/
def Visit.freshStarts (visits : List Visit) : List Nat :=
  (callsAll visits).filterMap Call.freshStart?

/-- A call that goes on in its lines. It takes a line unless one is pushed back, and each body
stands together among the lines that it takes. -/
structure Call.Onward (lines : List (List Char)) (call : Call) : Prop where
  forward : call.pushed = none → call.start < call.next
  monotone : call.start ≤ call.next
  inBounds : call.next ≤ lines.length
  slices : ∀ body ∈ call.bodies, Between lines call.start call.next body

/-- The calls for the statements of a block go on in its lines, what is pushed back is a shorter
part of the line that it came from, and each statement starts behind those in front of it. -/
structure NeverRewinds (lines : List (List Char)) (visits : List Visit) : Prop where
  onward : ∀ call ∈ Visit.callsAll visits, call.Onward lines
  left : ∀ call ∈ Visit.callsAll visits, ∀ pushed ∈ call.pushed, pushed.Left
  starts : (Visit.freshStarts visits).Pairwise (· < ·)

namespace Passes

variable {lines : List (List Char)} {i j : Nat} {visits : List Visit}

theorem slices (h : Passes lines i visits j) :
    ∀ body ∈ Visit.bodiesAll visits, Between lines i j body := by
  induction h with
  | nil hle hj => exact nofun
  | statement hi hindex hfresh hleft hinside hrest ihinside ihrest =>
      have hnext := hinside.bounds.1
      intro body hbody
      rw [Visit.bodiesAll, Visit.bodies, List.mem_append] at hbody
      cases hbody with
      | inl hmem => exact (ihinside body hmem).mono (by omega) hrest.bounds.1
      | inr hmem => exact (ihrest body hmem).mono (by omega) (Nat.le_refl _)
  | block hi hlast hbody hinside hrest ihinside ihrest =>
      intro other hother
      rw [Visit.bodiesAll, Visit.bodies, List.singleton_append, List.mem_cons] at hother
      cases hother with
      | inl heq =>
          subst heq
          exact ⟨_, _, hi, hlast, hrest.bounds.1, hbody⟩
      | inr hmem => exact (ihrest other hmem).mono (by omega) (Nat.le_refl _)

/-- The call of a statement goes on if the visits inside it pass over the lines. -/
theorem onward_call {start index next : Nat} {pushed : Option Pushed} {inside : List Visit}
    (hindex : start ≤ index) (hfresh : pushed = none → start < index)
    (h : Passes lines index inside next) :
    Call.Onward lines { start, pushed, next, bodies := Visit.bodiesAll inside } where
  forward hnone := Nat.lt_of_lt_of_le (hfresh hnone) h.bounds.1
  monotone := Nat.le_trans hindex h.bounds.1
  inBounds := h.bounds.2
  slices body hbody := (h.slices body hbody).mono hindex (Nat.le_refl _)

theorem onward (h : Passes lines i visits j) :
    ∀ call ∈ Visit.callsAll visits, call.Onward lines := by
  induction h with
  | nil hle hj => exact nofun
  | statement hi hindex hfresh hleft hinside hrest ihinside ihrest =>
      rw [Visit.callsAll, Visit.calls, List.cons_append, List.forall_mem_cons,
        List.forall_mem_append]
      exact ⟨onward_call hindex hfresh hinside, ihinside, ihrest⟩
  | block hi hlast hbody hinside hrest ihinside ihrest =>
      rwa [Visit.callsAll, Visit.calls, List.nil_append]

theorem left (h : Passes lines i visits j) :
    ∀ call ∈ Visit.callsAll visits, ∀ pushed ∈ call.pushed, pushed.Left := by
  induction h with
  | nil hle hj => exact nofun
  | statement hi hindex hfresh hleft hinside hrest ihinside ihrest =>
      rw [Visit.callsAll, Visit.calls, List.cons_append, List.forall_mem_cons,
        List.forall_mem_append]
      exact ⟨hleft, ihinside, ihrest⟩
  | block hi hlast hbody hinside hrest ihinside ihrest =>
      rwa [Visit.callsAll, Visit.calls, List.nil_append]

theorem freshStarts_statement (start : Nat) (pushed : Option Pushed) (next : Nat)
    (inside rest : List Visit) :
    Visit.freshStarts (.statement start pushed next inside :: rest) =
      (if pushed.isNone then [start] else []) ++
        (Visit.freshStarts inside ++ Visit.freshStarts rest) := by
  cases pushed with
  | none =>
      simp only [Visit.freshStarts, Visit.callsAll, Visit.calls, List.cons_append,
        List.filterMap_cons, Call.freshStart?, Option.isNone_none, ↓reduceIte,
        List.filterMap_append, List.nil_append]
  | some pushed =>
      simp only [Visit.freshStarts, Visit.callsAll, Visit.calls, List.cons_append,
        List.filterMap_cons, Call.freshStart?, Option.isNone_some, Bool.false_eq_true, ↓reduceIte,
        List.filterMap_append, List.nil_append]

theorem freshStarts_block (body : List (List Char)) (inside rest : List Visit) :
    Visit.freshStarts (.block body inside :: rest) = Visit.freshStarts rest := by
  rw [Visit.freshStarts, Visit.callsAll, Visit.calls, List.nil_append, Visit.freshStarts]

/-- Statements are started with lines that are passed over. -/
theorem freshStarts_bounds (h : Passes lines i visits j) :
    ∀ start ∈ Visit.freshStarts visits, i ≤ start ∧ start < j := by
  induction h with
  | nil hle hj => exact nofun
  | @statement lines pushed i start index next j inside rest hi hindex hfresh hleft hinside hrest
      ihinside ihrest =>
      have hnext := hinside.bounds.1
      have hend := hrest.bounds.1
      rw [freshStarts_statement, List.forall_mem_append, List.forall_mem_append]
      refine ⟨fun first hfirst => ?_, fun later hlater => ?_, fun later hlater => ?_⟩
      · cases pushed with
        | none =>
            have hlt := hfresh rfl
            cases List.mem_singleton.1 hfirst
            exact ⟨hi, by omega⟩
        | some pushed => exact absurd hfirst List.not_mem_nil
      · have hbounds := ihinside later hlater
        exact ⟨by omega, by omega⟩
      · have hbounds := ihrest later hlater
        exact ⟨by omega, hbounds.2⟩
  | block hi hlast hbody hinside hrest ihinside ihrest =>
      rw [freshStarts_block]
      intro later hlater
      have hbounds := ihrest later hlater
      exact ⟨by omega, hbounds.2⟩

/-- No two statements are started with one line, and later ones start further down. -/
theorem freshStarts_sorted (h : Passes lines i visits j) :
    (Visit.freshStarts visits).Pairwise (· < ·) := by
  induction h with
  | nil hle hj => exact List.Pairwise.nil
  | @statement lines pushed i start index next j inside rest hi hindex hfresh hleft hinside hrest
      ihinside ihrest =>
      -- The visits inside end where those behind them begin.
      have hlater : (Visit.freshStarts inside ++ Visit.freshStarts rest).Pairwise (· < ·) := by
        refine List.pairwise_append.2 ⟨ihinside, ihrest, fun first hfirst later hlater => ?_⟩
        exact Nat.lt_of_lt_of_le (hinside.freshStarts_bounds first hfirst).2
          (hrest.freshStarts_bounds later hlater).1
      rw [freshStarts_statement]
      cases pushed with
      | some pushed => exact hlater
      | none =>
          have hnext := hinside.bounds.1
          have hlt := hfresh rfl
          rw [Option.isNone_none, if_pos rfl, List.singleton_append, List.pairwise_cons]
          refine ⟨fun later hmem => ?_, hlater⟩
          cases List.mem_append.1 hmem with
          | inl hin =>
              have hbounds := hinside.freshStarts_bounds later hin
              omega
          | inr hin =>
              have hbounds := hrest.freshStarts_bounds later hin
              omega
  | block hi hlast hbody hinside hrest ihinside ihrest => rwa [freshStarts_block]

theorem neverRewinds (h : Passes lines i visits j) : NeverRewinds lines visits where
  onward := h.onward
  left := h.left
  starts := h.freshStarts_sorted

theorem blocks (h : Passes lines i visits j) :
    ∀ block ∈ Visit.blocksAll visits, Passes block.1 0 block.2 block.1.length := by
  induction h with
  | nil hle hj => exact nofun
  | statement hi hindex hfresh hleft hinside hrest ihinside ihrest =>
      rw [Visit.blocksAll, Visit.blocks, List.forall_mem_append]
      exact ⟨ihinside, ihrest⟩
  | block hi hlast hbody hinside hrest ihinside ihrest =>
      rw [Visit.blocksAll, Visit.blocks, List.cons_append, List.forall_mem_cons,
        List.forall_mem_append]
      exact ⟨hinside, ihinside, ihrest⟩

end Passes

end ToyC
