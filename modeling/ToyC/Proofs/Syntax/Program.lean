import ToyC.Proofs.Syntax.Block
import ToyC.Proofs.Syntax.Signature
import ToyC.Proofs.Table

/-!
Reading programs. A program is its functions one behind the other, laid out as a
text in any way that keeps the logical lines apart. Reading that text gives the
functions back: no line is cut, no brace is miscounted, and each statement is taken
for what it is.
-/

namespace ToyC

open Source (Walk LaidOut IsLine isSpace isBlank_of_isSpace)
open Text (Trimmed)

/-- A function with the lines of its body forgotten, and the places in it. -/
def Function.unplaced (f : Function) : Function :=
  { f with lines := [], body := f.body.map Stmt.unplaced }

/-- Lines that write a function: its signature, and its body in braces. -/
inductive Function.Written : Function → List (List Char) → Prop
  | intro {signature : Signature} {lines : List (List Char)} {pieces : List Piece}
      {front tail : List Char} {more : List (List Char)} (hsignature : signature.Written front)
      (hpieces : ∀ piece ∈ pieces, piece.stmt.Written piece.closed piece.lines)
      (hbraced : Braced (pieces.flatMap Piece.lines) tail more) :
      Written { signature, lines, body := pieces.map Piece.stmt } ((front ++ tail) :: more)

/-- A text that writes functions: their lines, laid out in any way. -/
def Program.Written (fs : List Function) (text : List Char) : Prop :=
  ∃ parts, List.Forall₂ Function.Written fs parts ∧ LaidOut parts.flatten text

theorem Braced.endsSignature {lines more : List (List Char)} {tail : List Char}
    (h : Braced lines tail more) : Signature.endsSignature tail = true := by
  cases h with
  | beside hspace =>
      rw [Signature.endsSignature,
        Source.skipBlanks_spaces hspace]
      rfl
  | below => rfl

theorem Function.Written.isLine {f : Function} {lines : List (List Char)} (h : f.Written lines) :
    ∀ line ∈ lines, IsLine line := by
  cases h with
  | intro hsignature hpieces hbraced =>
      exact hbraced.isLine hsignature.walk hsignature.trimmed
        (isLine_pieces fun piece hpiece => (hpieces piece hpiece).isLayout)

/-- The lines of a function define that function, and the lines behind them are left. -/
theorem Function.Written.definitions {f : Function} {lines : List (List Char)}
    (h : f.Written lines) (rest : List (List Char)) :
    ∃ d, definitions (lines ++ rest) = d :: definitions rest ∧
      d.function.unplaced = f.unplaced := by
  cases h with
  | @intro signature _ pieces front tail more hsignature hpieces hbraced =>
      have hlevel : Level (pieces.flatMap Piece.lines) :=
        level_pieces fun piece hpiece => (hpieces piece hpiece).isLayout
      have hread := hsignature.read hbraced.endsSignature
      have hbody : collectFrom 1 (pieces.flatMap Piece.lines ++ [['}']] ++ rest) =
          (pieces.flatMap Piece.lines, rest) := hlevel.collectBlock rest
      refine ⟨⟨signature, pieces.flatMap Piece.lines⟩, ?_, ?_⟩
      · cases hbraced with
        | @beside space hspace =>
            have hbalance : balance (front ++ (space ++ ['{'])) = 1 :=
              balance_front hsignature.walk hspace
            rw [List.cons_append, ToyC.definitions, hread]
            dsimp only
            rw [hbalance, if_pos (by decide), hbody]
        | below =>
            have hbalance : balance (front ++ []) = 0 := by
              rw [List.append_nil]
              exact balance_of_walk hsignature.walk
            have hdepth : (0 : Int) + balance ['{'] = 1 := by decide
            rw [List.cons_append, ToyC.definitions, hread]
            dsimp only [List.cons_append]
            rw [hbalance, if_neg (by decide), hdepth, if_pos (by decide), hbody]
      · simp only [Definition.function, Function.unplaced, readBlock_written hpieces]

/-- The functions that were written one behind the other are defined in that order. -/
theorem definitions_written {fs : List Function} {parts : List (List (List Char))}
    (h : List.Forall₂ Function.Written fs parts) :
    (definitions parts.flatten).map (fun d => d.function.unplaced) =
      fs.map Function.unplaced := by
  induction h with
  | nil =>
      rw [List.flatten_nil, definitions]
      rfl
  | @cons f lines fs parts hf rest ih =>
      obtain ⟨d, hd, hfunction⟩ := hf.definitions parts.flatten
      rw [List.flatten_cons, hd, List.map_cons, hfunction, ih, List.map_cons]

/-- Reading undoes writing. Functions with distinct names are read back from every text that
writes them, in their order and up to the places of their parts. -/
theorem Program.read_of_written {fs : List Function} (hnames : (fs.map Function.name).Nodup)
    {text : List Char} (h : Written fs text) :
    (Program.read text).functions.map (fun entry => (entry.1, entry.2.unplaced)) =
      fs.map fun f => (f.name, f.unplaced) := by
  obtain ⟨parts, hparts, htext⟩ := h
  have hisLine : ∀ line ∈ parts.flatten, IsLine line := by
    intro line hline
    obtain ⟨lines, hlines, hmem⟩ := List.mem_flatten.mp hline
    obtain ⟨f, hf⟩ := exists_of_forall₂ hparts lines hlines
    exact hf.isLine line hmem
  have hsplit := Source.splitLines_laidOut htext hisLine
  have hdefinitions := definitions_written hparts
  have hnamesOf : (definitions parts.flatten).map (fun d => d.signature.name) =
      fs.map Function.name := by
    have hmap := congrArg (List.map Function.name) hdefinitions
    rw [List.map_map, List.map_map] at hmap
    exact hmap
  have hfunctions : (Program.read text).functions =
      (definitions parts.flatten).map fun d => (d.signature.name, d.function) := by
    simp only [Program.read, Program.readFunctions, Program.functionsOf, hsplit]
    apply Table.ofList_of_nodup
    rw [List.map_map]
    exact hnamesOf ▸ hnames
  have hpairs := congrArg (List.map fun f : Function => (f.name, f)) hdefinitions
  rw [List.map_map, List.map_map] at hpairs
  rw [hfunctions, List.map_map]
  exact hpairs

end ToyC
