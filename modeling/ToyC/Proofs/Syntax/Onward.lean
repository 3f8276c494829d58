import ToyC.Proofs.Syntax.ByIndex

/-!
Reading a block ends and never goes back. The reader by index takes every block, every
statement and every body to an end, on whatever lines: the text and the lines that are
left bound the steps that it still takes. So no statement ends in front of the line that
it starts with, and no line starts two statements of one block.
-/

namespace ToyC

namespace ByIndex

mutual

/-- The steps that are left are counted by the text and the lines that are left: a block has fewer
lines than what it is collected from, and a body less text than its header. -/
theorem blockReads (lines : List (List Char)) (index : Nat) (h : index ≤ lines.length) :
    ∃ visits, BlockReads lines index visits := by
  cases hline : lines[index]? with
  | none => exact ⟨[], .ending h (List.getElem?_eq_none_iff.1 hline)⟩
  | some line =>
      have hlt : index + 1 ≤ lines.length := (List.getElem?_eq_some_iff.1 hline).1
      have hsize := linesSize_drop_of_getElem? hline
      obtain ⟨next, inside, hfirst⟩ := statementReads (first?_fresh hline) hlt
      have hnext : linesSize (lines.drop next) ≤ linesSize (lines.drop (index + 1)) := by
        rw [hfirst.behind]
        exact Behind.size_le _
      obtain ⟨visits, hrest⟩ := blockReads lines next hfirst.passes.bounds.2
      exact ⟨_, .cons hline hfirst hrest⟩
termination_by 4 * linesSize (lines.drop index)
decreasing_by
  all_goals omega

theorem statementReads {lines : List (List Char)} {start index : Nat} {pushed : Option Pushed}
    {line : List Char} (hfirst : first? lines start pushed = some (line, index))
    (h : index ≤ lines.length) :
    ∃ next visits, StatementReads start pushed line lines index next visits := by
  by_cases hbrace : line = ['{']
  · have hsize : linesSize ((collect lines 1 index).1.drop 0) ≤ linesSize (lines.drop index) :=
      collect_size lines 1 index
    obtain ⟨visits, hblock⟩ := blockReads (collect lines 1 index).1 0 (Nat.zero_le _)
    subst hbrace
    exact ⟨_, _, .brace hfirst h hblock⟩
  · cases hheader : header? line with
    | none => exact ⟨index, [], .single hfirst h hbrace hheader⟩
    | some found =>
        obtain ⟨keyword, span⟩ := found
        obtain ⟨next, visits, hcontrol⟩ := controlReads hbrace hheader h
        exact ⟨next, visits, .control hfirst hbrace hheader hcontrol⟩
termination_by 4 * (line.length + linesSize (lines.drop index)) + 1
decreasing_by
  all_goals omega

theorem controlReads {lines : List (List Char)} {index : Nat} {keyword : Keyword}
    {line span : List Char} (hbrace : line ≠ ['{'])
    (hheader : header? line = some (keyword, span)) (h : index ≤ lines.length) :
    ∃ next visits, ControlReads keyword span line lines index next visits := by
  cases hspan : Source.parenSpan? span with
  | none => exact ⟨index, [], .unclosed hbrace hheader hspan h⟩
  | some found =>
      obtain ⟨header, tail⟩ := found
      have hlt := header_steps lines index hheader hspan
      obtain ⟨next, visits, hbody⟩ :=
        bodyReads ⟨tail, line⟩ (fun _ => Pushed.left_of_header hheader hspan) h
      cases keyword with
      | whileLoop => exact ⟨next, visits, .whileLoop hbrace hheader hspan hbody⟩
      | forLoop => exact ⟨next, visits, .forLoop hbrace hheader hspan hbody⟩
      | branch =>
          cases hbelow : lines[next]? with
          | none =>
              refine ⟨next, visits, .branch hbrace hheader hspan hbody ?_⟩
              rw [hbelow]
              exact fun _ hmem => absurd hmem (Option.not_mem_none _)
          | some below =>
              cases hother : otherwise? below with
              | none =>
                  refine ⟨next, visits, .branch hbrace hheader hspan hbody ?_⟩
                  rw [hbelow]
                  exact fun _ hmem => Option.mem_some.1 hmem ▸ hother
              | some other =>
                  -- The first body has left the line with the word, so what is left is smaller.
                  have hshort := otherwise_steps hbody.behind hbelow hother line
                  have hlt : next + 1 ≤ lines.length := (List.getElem?_eq_some_iff.1 hbelow).1
                  obtain ⟨last, more, hno⟩ :=
                    bodyReads ⟨other, below⟩ (fun _ => Pushed.left_of_otherwise hother) hlt
                  exact ⟨last, visits ++ more,
                    .branchElse hbrace hheader hspan hbody hbelow hother hno⟩
termination_by 4 * (line.length + linesSize (lines.drop index))
decreasing_by
  all_goals omega

theorem bodyReads {lines : List (List Char)} {index : Nat} (rest : Pushed)
    (hrest : rest.line ≠ ['{'] → rest.Left) (h : index ≤ lines.length) :
    ∃ next visits, BodyReads rest lines index next visits := by
  by_cases hbrace : rest.line = ['{']
  · have hsize : linesSize ((collect lines 1 index).1.drop 0) ≤ linesSize (lines.drop index) :=
      collect_size lines 1 index
    obtain ⟨visits, hblock⟩ := blockReads (collect lines 1 index).1 0 (Nat.zero_le _)
    exact ⟨_, _, .brace hbrace h hblock⟩
  · by_cases hnil : rest.line = []
    · cases hbelow : lines[index]? with
      | none => exact ⟨index, [], .ending hnil h hbelow⟩
      | some below =>
          have hlt : index + 1 ≤ lines.length := (List.getElem?_eq_some_iff.1 hbelow).1
          have hsize := linesSize_drop_of_getElem? hbelow
          by_cases hopen : below = ['{']
          · -- The brace on the next line is taken as if it stood behind the header.
            subst hopen
            obtain ⟨next, visits, hbody⟩ :=
              bodyReads ⟨['{'], ['{']⟩ (fun hne => absurd rfl hne) hlt
            exact ⟨next, visits, .braceBelow hnil hbelow hbody⟩
          · obtain ⟨next, inside, hstatement⟩ := statementReads (first?_fresh hbelow) hlt
            exact ⟨next, _, .under hnil hbelow hopen hstatement⟩
    · obtain ⟨next, inside, hstatement⟩ := statementReads (first?_pushed lines index rest) h
      exact ⟨next, _, .beside hbrace hnil (hrest hbrace) hstatement⟩
termination_by 4 * (rest.line.length + linesSize (lines.drop index)) + 2
decreasing_by
  all_goals omega

end

/-- A call in bounds has a line to start with, and takes it from the lines if none is pushed
back. -/
theorem exists_first? {lines : List (List Char)} {start : Nat} {pushed : Option Pushed}
    (hstart : start ≤ lines.length) (hfresh : pushed = none → start < lines.length) :
    ∃ line index, first? lines start pushed = some (line, index) ∧ start ≤ index ∧
      index ≤ lines.length ∧ (pushed = none → start < index) ∧
      line.length + linesSize (lines.drop index) ≤
        pushed.elim 0 (·.line.length) + linesSize lines := by
  have hsize : linesSize (lines.drop start) ≤ linesSize lines :=
    linesSize_le_of_sublist (List.drop_sublist _ _)
  cases pushed with
  | some pushed =>
      exact ⟨pushed.line, start, first?_pushed lines start pushed, Nat.le_refl _, hstart, nofun,
        Nat.add_le_add_left hsize _⟩
  | none =>
      have hlt := hfresh rfl
      have hline : lines[start]? = some lines[start] := List.getElem?_eq_getElem hlt
      refine ⟨lines[start], start + 1, first?_fresh hline, Nat.le_succ _, hlt,
        fun _ => Nat.lt_succ_self _, ?_⟩
      rw [linesSize_drop_of_getElem? hline] at hsize
      simp only [Option.elim_none]
      omega

end ByIndex

/-- Reading a block by index ends within steps that its size bounds, and reads what the block is
read as. No call for a statement goes back, in the block or in any block inside it: it ends behind
the line that it takes, inside its lines, what a header pushes back is shorter than the header's
line, the bodies are taken from the lines between its start and its end, and no two statements start
with one line. The same holds of every call in bounds, also of those that reading this block does
not make; it reads the statement of the outline and leaves the lines behind that. -/
theorem readBlock_neverRewinds (lines : List (List Char)) :
    (∃ visits, ByIndex.Settles (ByIndex.block · lines 0) (4 * linesSize lines)
        (readBlock lines, visits) ∧
      NeverRewinds lines visits ∧
      ∀ block ∈ Visit.blocksAll visits, NeverRewinds block.1 block.2) ∧
    ∀ start pushed, start ≤ lines.length → (pushed = none → start < lines.length) →
      ∃ line index next inside, ByIndex.first? lines start pushed = some (line, index) ∧
        ByIndex.Settles (ByIndex.statement · lines start pushed)
          (4 * (pushed.elim 0 (·.line.length) + linesSize lines) + 1)
          ((Outline.statement line (lines.drop index)).1.stmt?, next,
            .statement start pushed next inside) ∧
        lines.drop next = (Outline.statement line (lines.drop index)).2.1 ∧
        Call.Onward lines { start, pushed, next, bodies := Visit.bodiesAll inside } := by
  constructor
  · obtain ⟨visits, hsettles, hvisits⟩ := ByIndex.blockReads lines 0 (Nat.zero_le _)
    rw [List.drop_zero] at hsettles
    exact ⟨visits, hsettles, hvisits.neverRewinds, fun block hblock =>
      (hvisits.blocks block hblock).neverRewinds⟩
  · intro start pushed hstart hfresh
    obtain ⟨line, index, hfirst, hle, hindex, hforward, hsize⟩ :=
      ByIndex.exists_first? hstart hfresh
    obtain ⟨next, inside, hsettles, hbehind, hinside⟩ := ByIndex.statementReads hfirst hindex
    exact ⟨line, index, next, inside, hfirst, fun steps hsteps => hsettles steps (by omega),
      hbehind, Passes.onward_call hle hforward hinside⟩

/-- A branch whose body opens a brace that no line closes is read in one call, up to the last
line. -/
theorem readBlock_neverRewinds_unclosed :
    ∃ stmt next inside, ByIndex.Settles
        (ByIndex.statement · ["if (a)".toList, ['{'], "x = 1;".toList] 0 none) 65
        (stmt, next, .statement 0 none next inside) ∧ 0 < next ∧ next ≤ 3 := by
  obtain ⟨line, index, next, inside, -, hsettles, -, honward⟩ :=
    (readBlock_neverRewinds ["if (a)".toList, ['{'], "x = 1;".toList]).2 0 none (by decide)
      (fun _ => by decide)
  exact ⟨_, next, inside, hsettles, honward.forward rfl, honward.inBounds⟩

end ToyC
