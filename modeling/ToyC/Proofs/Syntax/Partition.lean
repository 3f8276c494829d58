import ToyC.Proofs.Table
import ToyC.Syntax.Program

/-!
Dividing lines into functions, line by line. The scan keeps a count of braces of its
own, beside the one that finds the end of a block inside a function. It comes to the
same table as reading does, whatever the lines, and where the lines of signatures
hold no stray brace, the two counts cut at the same lines: each body is the block
that is collected behind the brace that opens it.
-/

namespace ToyC

/-- A scan between two lines. -/
structure Partition where
  functions : Table Function := []
  /-- the function whose lines are being taken -/
  current : Option Definition := none
  /-- how many of its braces are open -/
  depth : Int := 0
  /-- whether its first brace has been seen -/
  opened : Bool := false

namespace Partition

/-- The scan when the function that is being taken is complete. -/
def commit (scan : Partition) (d : Definition) : Partition :=
  { scan with functions := scan.functions.insert d.signature.name d.function, current := none,
              depth := 0 }

/-- The scan behind one more line. -/
def step (scan : Partition) (line : List Char) : Partition :=
  match scan.current with
  | none =>
    match Signature.read? line with
    | none => scan
    | some signature =>
      { scan with current := some { signature, lines := [] }, depth := balance line,
                  opened := decide (0 < balance line) }
  | some d =>
    let depth := scan.depth + balance line
    if !scan.opened then
      if 0 < depth then { scan with depth, opened := true }
      else { scan with current := none, depth := 0 }
    else if depth ≤ 0 then { scan with depth }.commit d
    else { scan with depth, current := some { d with lines := d.lines ++ [line] } }

/-- The functions at the end of the lines; the last one may lack its closing brace. -/
def finish (scan : Partition) : Table Function :=
  match scan.current with
  | some d => if scan.opened then (scan.commit d).functions else scan.functions
  | none => scan.functions

/-- The functions that the scan finds in lines. -/
def functionsOf (lines : List (List Char)) : Table Function :=
  (lines.foldl step {}).finish

/-! ### The scan reads what the definitions are -/

/-- A scan between two functions. -/
def between (functions : Table Function) (opened : Bool) : Partition :=
  { functions, opened }

/-- A scan inside a function. -/
def inside (functions : Table Function) (d : Definition) (depth : Int) : Partition :=
  { functions, current := some d, depth, opened := true }

variable {functions : Table Function} {line : List Char}

/-- Inside a function, lines are taken up to the one that closes it. Where none does, the function
is complete at the end of the lines. -/
theorem finish_foldl_inside (d : Definition) {depth : Int} (hdepth : 0 < depth)
    (lines : List (List Char)) :
    (lines.foldl step (inside functions d depth)).finish =
      ((collectFrom depth lines).2.foldl step (between
        (functions.insert d.signature.name
          { d with lines := d.lines ++ (collectFrom depth lines).1 }.function) true)).finish := by
  induction lines generalizing d depth with
  | nil =>
      rw [collectFrom, List.append_nil]
      rfl
  | cons line rest ih =>
      rw [List.foldl_cons, collectFrom]
      split
      · rename_i hclosed
        have hstep : step (inside functions d depth) line =
            between (functions.insert d.signature.name d.function) true := by
          simp [step, inside, hclosed, commit, between]
        rw [hstep, List.append_nil]
      · rename_i hopen
        have hstep : step (inside functions d depth) line =
            inside functions { d with lines := d.lines ++ [line] } (depth + balance line) := by
          simp [step, inside, hopen]
        rw [hstep, ih _ (by omega)]
        simp only [List.append_assoc, List.singleton_append]

/-- Between functions, the scan completes the definitions of the lines, one after the other. -/
theorem finish_foldl_between (functions : Table Function) (opened : Bool)
    (lines : List (List Char)) :
    (lines.foldl step (between functions opened)).finish =
      (definitions lines).foldl
        (fun table d => table.insert d.signature.name d.function) functions := by
  induction lines using definitions.induct generalizing functions opened with
  | case1 => rw [definitions]; rfl
  | case2 line rest hread ih =>
      have hstep : step (between functions opened) line = between functions opened := by
        simp [step, between, hread]
      rw [List.foldl_cons, hstep, ih, definitions, hread]
  | case3 line rest signature hread hopen ih =>
      have hstep : step (between functions opened) line =
          inside functions { signature, lines := [] } (balance line) := by
        simp [step, between, inside, hread, hopen]
      rw [List.foldl_cons, hstep, finish_foldl_inside _ hopen, ih, definitions, hread]
      simp only [if_pos hopen, List.foldl_cons, List.nil_append]
  | case4 line signature hread hopen =>
      rw [List.foldl_cons, definitions, hread]
      simp [step, between, hread, hopen, finish]
  | case5 line signature hread hopen next others depth hdepth ih =>
      have hstep : step (step (between functions opened) line) next =
          inside functions { signature, lines := [] } depth := by
        simp [step, between, inside, hread, hopen, hdepth, depth]
      rw [List.foldl_cons, List.foldl_cons, hstep, finish_foldl_inside _ hdepth, ih, definitions,
        hread]
      simp only [if_neg hopen, if_pos hdepth, List.foldl_cons, List.nil_append, depth]
  | case6 line signature hread hopen next others depth hdepth ih =>
      have hstep : step (step (between functions opened) line) next = between functions false := by
        simp [step, between, hread, hopen, hdepth, depth]
      rw [List.foldl_cons, List.foldl_cons, hstep, ih, definitions, hread]
      simp only [if_neg hopen, if_neg hdepth, depth]

/-- The scan finds the functions that reading finds. -/
theorem functionsOf_eq (lines : List (List Char)) :
    functionsOf lines = Program.readFunctions lines := by
  rw [functionsOf, Program.readFunctions, Program.functionsOf, Table.ofList, List.foldl_map]
  exact finish_foldl_between [] false lines

end Partition

/-! ### The definitions as blocks -/

/-- Whether a line ends with an opening brace. -/
def endsOpen (line : List Char) : Bool :=
  (Text.trimEnd line).getLast? == some '{'

/-- Whether lines of the shape of a signature hold no brace but an opening one at their end, and the
line behind one without a brace holds one at most. -/
def plainHeads : List (List Char) → Bool
  | [] => true
  | line :: rest =>
    ((Signature.read? line).isNone ||
      (line.count '}' == 0 && line.count '{' == (if endsOpen line then 1 else 0) &&
        (endsOpen line || rest.head?.all fun next => next.count '{' + next.count '}' ≤ 1))) &&
    plainHeads rest

/-- The definitions among lines, each with the block that is collected behind its brace. A signature
without a brace, whose next line has none either, is dropped with that line. -/
def blockDefinitions : List (List Char) → List Definition
  | [] => []
  | line :: rest =>
    match Signature.read? line with
    | none => blockDefinitions rest
    | some signature =>
      if endsOpen line then
        { signature, lines := (collectBlock rest).1 } :: blockDefinitions (collectBlock rest).2
      else
        match rest with
        | [] => []
        | next :: others =>
          if '{' ∈ next then
            { signature, lines := (collectBlock others).1 } ::
              blockDefinitions (collectBlock others).2
          else blockDefinitions others
termination_by lines => lines.length
decreasing_by
  · simp
  · have := collectFrom_length_le 1 rest
    simp only [List.length_cons, collectBlock]
    omega
  · have := collectFrom_length_le 1 others
    simp only [List.length_cons, collectBlock]
    omega
  · simp only [List.length_cons]
    omega

theorem plainHeads_of_suffix {lines rest : List (List Char)} (hrest : rest <:+ lines)
    (h : plainHeads lines = true) : plainHeads rest = true := by
  obtain ⟨front, rfl⟩ := hrest
  induction front with
  | nil => exact h
  | cons line front ih =>
      rw [List.cons_append, plainHeads, Bool.and_eq_true] at h
      exact ih h.2

/-- The line of a signature opens the body, or holds no brace and a plain line follows. -/
theorem plainHeads_signature {line : List Char} {rest : List (List Char)} {signature : Signature}
    (hread : Signature.read? line = some signature) (h : plainHeads (line :: rest) = true) :
    (0 < balance line → endsOpen line = true ∧ balance line = 1) ∧
      (¬0 < balance line → endsOpen line = false ∧ balance line = 0 ∧
        ∀ next ∈ rest.head?, next.count '{' + next.count '}' ≤ 1) := by
  simp only [plainHeads, hread, Option.isNone_some, Bool.false_or, Bool.and_eq_true,
    Bool.or_eq_true, beq_iff_eq, Option.all_eq_true, decide_eq_true_eq] at h
  obtain ⟨⟨⟨hclose, hopen⟩, hnext⟩, -⟩ := h
  rw [balance, hclose, hopen]
  cases hends : endsOpen line with
  | true => exact ⟨fun _ => ⟨rfl, rfl⟩, fun hnot => absurd Int.zero_lt_one hnot⟩
  | false =>
      rw [hends] at hnext
      exact ⟨fun hpos => absurd hpos (Int.lt_irrefl 0),
        fun _ => ⟨rfl, rfl, hnext.resolve_left Bool.false_ne_true⟩⟩

/-- With one brace at most, a line opens a block exactly if it has an opening one. -/
theorem balance_of_few {line : List Char} (h : line.count '{' + line.count '}' ≤ 1) :
    (0 < balance line → '{' ∈ line ∧ balance line = 1) ∧ (¬0 < balance line → '{' ∉ line) := by
  rw [← List.count_pos_iff, balance]
  omega

/-- Where heads are plain, a definition has the block that is collected behind its brace. -/
theorem definitions_eq_blockDefinitions {lines : List (List Char)} (h : plainHeads lines = true) :
    definitions lines = blockDefinitions lines := by
  induction lines using definitions.induct with
  | case1 => rw [definitions, blockDefinitions]
  | case2 line rest hread ih =>
      rw [definitions, blockDefinitions, hread]
      exact ih (plainHeads_of_suffix (List.suffix_cons _ _) h)
  | case3 line rest signature hread hopen ih =>
      obtain ⟨hends, hone⟩ := (plainHeads_signature hread h).1 hopen
      have hbehind : (collectFrom (balance line) rest).2 <:+ line :: rest :=
        (collectFrom_suffix _ _).trans (List.suffix_cons _ _)
      have hrest := ih (plainHeads_of_suffix hbehind h)
      rw [hone] at hrest
      rw [definitions, blockDefinitions, hread]
      simp only [hone, hends, if_true, Int.zero_lt_one, collectBlock, hrest]
  | case4 line signature hread hopen =>
      obtain ⟨hends, -, -⟩ := (plainHeads_signature hread h).2 hopen
      rw [definitions, blockDefinitions, hread]
      simp only [if_neg hopen, hends, if_neg Bool.false_ne_true]
  | case5 line signature hread hopen next others depth hdepth ih =>
      obtain ⟨hends, hzero, hfew⟩ := (plainHeads_signature hread h).2 hopen
      have hpos : 0 < balance next := by omega
      obtain ⟨hbrace, hone⟩ := (balance_of_few (hfew next rfl)).1 hpos
      have hnext : depth = 1 := by omega
      have hbehind : (collectFrom depth others).2 <:+ line :: next :: others :=
        (collectFrom_suffix _ _).trans ((List.suffix_cons _ _).trans (List.suffix_cons _ _))
      have hrest := ih (plainHeads_of_suffix hbehind h)
      rw [hnext] at hrest
      rw [definitions, blockDefinitions, hread]
      simp only [hends, if_neg Bool.false_ne_true, hzero, hone, if_pos hbrace, Int.lt_irrefl,
        if_false, Int.zero_add, Int.zero_lt_one, if_true, collectBlock, hrest]
  | case6 line signature hread hopen next others depth hdepth ih =>
      obtain ⟨hends, hzero, hfew⟩ := (plainHeads_signature hread h).2 hopen
      have hnot : ¬0 < balance next := by omega
      have hbrace := (balance_of_few (hfew next rfl)).2 hnot
      have hbehind : others <:+ line :: next :: others :=
        (List.suffix_cons _ _).trans (List.suffix_cons _ _)
      have hrest := ih (plainHeads_of_suffix hbehind h)
      rw [definitions, blockDefinitions, hread]
      have hclosed : ¬0 < balance line + balance next := hdepth
      simp only [if_neg hopen, hends, if_neg Bool.false_ne_true, if_neg hclosed, if_neg hbrace,
        hrest]

/-- Where heads are plain, the scan by a count of its own and the reading of definitions both come
to the blocks behind the signatures, stored one after the other: a later function of a name takes
the place of the earlier one, and each has the statements of its block. -/
theorem Partition.functionsOf_blocks {lines : List (List Char)} (h : plainHeads lines = true) :
    Partition.functionsOf lines = (blockDefinitions lines).foldl (fun table d =>
        Table.insert d.signature.name
          { signature := d.signature, lines := d.lines, body := readBlock d.lines } table) [] ∧
      Program.readFunctions lines = Partition.functionsOf lines := by
  refine ⟨?_, (functionsOf_eq lines).symm⟩
  rw [← definitions_eq_blockDefinitions h]
  exact finish_foldl_between [] false lines

/-- A function that is defined twice, one whose brace stands below, one without a body, a stray
closing brace, and a signature on the last line. -/
theorem Partition.functionsOf_blocks_redefined :
    let lines := ["int x;", "int f(int n) \x7b", "if (n) \x7b", "return 1;", "\x7d", "\x7d",
      "int g()", "int y;", "int g()", "\x7b", "return 2;", "\x7d", "\x7d", "int f() \x7b",
      "return 3;", "\x7d", "int h()"].map String.toList
    plainHeads lines = true ∧
      (blockDefinitions lines).map (fun d => (d.signature.name, d.lines.map String.ofList)) =
        [("f", ["if (n) \x7b", "return 1;", "\x7d"]), ("g", ["return 2;"]), ("f", ["return 3;"])] ∧
      (Program.readFunctions lines).map (fun entry => (entry.1, entry.2.lines.map String.ofList)) =
        [("f", ["return 3;"]), ("g", ["return 2;"])] := by
  intro lines
  have hplain : plainHeads lines = true := by decide +kernel
  refine ⟨hplain, by decide +kernel, ?_⟩
  rw [(functionsOf_blocks hplain).2, (functionsOf_blocks hplain).1]
  decide +kernel

end ToyC
