import ToyC.Proofs.Files.Carrying
import ToyC.Proofs.Run.Containment

/-!
Programs that are run from the file tree. What can be seen of a run depends on the
text that its artifact was built from and not on the artifact's name, which is
only noted. Building, storing, copying and moving an artifact all keep that text,
so running it wherever it has been carried is running the source.
-/

namespace ToyC

open Routine

/-- What is noted last is not seen. -/
theorem endWith_live_eq (n n' : Option Note) (text : String) (cancels : List Sight → Bool)
    (seen : List Sight) :
    (endWith n text).live cancels seen = (endWith n' text).live cancels seen := by
  simp only [endWith, recordAll_bind_live]

/-- The name of a run is noted, but not seen. -/
theorem conclude_live (name name' : String) (result : Except Stop Number)
    (cancels : List Sight → Bool) (seen : List Sight) :
    (conclude name result).live cancels seen = (conclude name' result).live cancels seen := by
  match result with
  | .ok status => rfl
  | .error (.mistake cause) => rfl
  | .error (.abort .cancelled) => exact endWith_live_eq _ _ _ cancels seen
  | .error (.abort (.tooDeep function depth)) => exact endWith_live_eq _ _ _ cancels seen
  | .error (.abort (.fault f)) => rfl

theorem runProgram_live (name name' : String) (p : Program) (options : Options)
    (cancels : List Sight → Bool) :
    (runProgram name p options).live cancels [] = (runProgram name' p options).live cancels [] := by
  simp only [runProgram, recordAll_bind_live]
  split
  · rw [live_record_bind, live_record_bind, live_bind, live_bind]
    exact conclude_live name name' _ cancels _
  · rfl

/-- Artifacts of one text cannot be told apart by running them. -/
theorem run_live_of_program?_eq {artifact artifact' : Node}
    (h : artifact.program? = artifact'.program?) (options : Options)
    (cancels : List Sight → Bool) :
    (run artifact options).live cancels [] = (run artifact' options).live cancels [] := by
  unfold run
  rw [h]
  cases artifact'.program? with
  | none => exact endWith_live_eq _ _ _ cancels []
  | some text => exact runProgram_live _ _ _ options cancels

/-- What is noted of a text that has been built. -/
def builtAttributes (text : String) : Attributes :=
  { executable := true
    isBinary := true
    source := some (String.ofList (Source.preprocess text.toList)) }

/-- A file with what is noted of a text, run as a path, does what the text does. -/
theorem runPath_holdsFile {tree : Node} {cwd : List String} {path text content : String}
    (h : tree.HoldsFile content (some (builtAttributes text)) (Path.resolve cwd path))
    (options : Options) (cancels : List Sight → Bool) :
    (runPath tree cwd path options).live cancels [] =
      (runSource text options).live cancels [] := by
  obtain ⟨name, hname⟩ := h
  have hpath : runPath tree cwd path options =
      run (.file name content (some (builtAttributes text))) options := by
    simp only [runPath, hname, Node.isDirectory, Bool.false_eq_true, if_false]
  have hprogram : (Node.file name content (some (builtAttributes text))).program? =
      (build text.toList defaultOutput).artifact.program? := rfl
  rw [hpath, runSource, live_record_bind]
  exact run_live_of_program?_eq hprogram options cancels

/-- A file is built where its artifact is found. -/
theorem compileFile_holdsFile {tree : Node} {cwd : List String} {source output text : String}
    (hread : Files.cat tree cwd source = .ok text)
    (hsucceeds : (compileFile tree cwd source output).succeeds = true) :
    ((compileFile tree cwd source output).after tree).HoldsFile artifactContent
      (some (builtAttributes text)) (Path.resolve cwd output) := by
  obtain ⟨outcome, hdone, hsuccess⟩ := Command.exists_of_succeeds hsucceeds
  rw [hdone]
  rw [compileFile, hread] at hdone
  obtain ⟨place, name, after, rfl, hpath, -, hstored⟩ := Files.install_done hdone hsuccess
  exact ⟨name, hpath ▸ Node.lookup?_of_insertAt hstored⟩

/-- A file of the tree is built with success. Then the artifact, run by its path, does what the text
of the file does, under all limits and however it is cancelled; and so does the artifact
wherever it has been copied or moved, under any path that leads there. -/
theorem runPath_compiled {tree : Node} {cwd : List String} {source output text : String}
    (hread : Files.cat tree cwd source = .ok text)
    (hsucceeds : (compileFile tree cwd source output).succeeds = true) (options : Options)
    (cancels : List Sight → Bool) :
    let built := (compileFile tree cwd source output).after tree
    (runPath built cwd output options).live cancels [] =
        (runSource text options).live cancels [] ∧
    ∀ after places, Carried built (Path.resolve cwd output) after places →
      ∀ cwd' path, Path.resolve cwd' path ∈ places →
        (runPath after cwd' path options).live cancels [] =
          (runSource text options).live cancels [] := by
  intro built
  have hfile := compileFile_holdsFile hread hsucceeds
  refine ⟨runPath_holdsFile hfile options cancels, ?_⟩
  intro after places hcarried cwd' path hplace
  exact runPath_holdsFile (hcarried.holdsFile hfile _ hplace) options cancels

/-- A program in the home directory, beside a directory and a file. -/
def Files.workshop : Node :=
  .ofChildren "root"
    [ .ofChildren "home"
        [ .ofChildren "guest"
            [ .file "main.c" "int main() \x7b // seven\n return 7; \x7d" none,
              .ofChildren "bin" [] none,
              .file "old" "" none ] none ] none ] none

/-- The artifact replaces its own source, is copied into a directory, and the copy is moved over
another file; then it is run from the root, and cancelled at its second check. -/
theorem runPath_compiled_workshop :
    let text := "int main() \x7b // seven\n return 7; \x7d"
    let command := compileFile Files.workshop Path.home "main.c" "./main.c"
    let built := command.after Files.workshop
    let copied := (Files.cp built Path.home "main.c" "bin").after built
    let moved := (Files.mv copied Path.home "bin/main.c" "~/old").after copied
    let alone := (runSource text {}).live (Plan.cancelAt 1).cancels []
    (Files.cat Files.workshop Path.home "main.c" = .ok text ∧ command.succeeds = true) ∧
    (runPath built Path.home "./main.c" {}).live (Plan.cancelAt 1).cancels [] = alone ∧
    (runPath moved [] "home/guest/old" {}).live (Plan.cancelAt 1).cancels [] = alone := by
  intro text command built copied moved alone
  have hread : Files.cat Files.workshop Path.home "main.c" = .ok text := by decide +kernel
  have hsucceeds : command.succeeds = true := by decide +kernel
  have hcopied : Carried built (Path.resolve Path.home "./main.c") copied
      ((Transfer.copy Path.home "main.c" "bin").places built [["home", "guest", "main.c"]]) :=
    .step .here (.copy Path.home "main.c" "bin") (by decide) (by decide +kernel)
  have hmoved : Carried built (Path.resolve Path.home "./main.c") moved
      ((Transfer.move Path.home "bin/main.c" "~/old").places copied
        ((Transfer.copy Path.home "main.c" "bin").places built [["home", "guest", "main.c"]])) :=
    .step hcopied (.move Path.home "bin/main.c" "~/old") (by decide +kernel) (by decide +kernel)
  obtain ⟨hbuilt, hcarried⟩ := runPath_compiled hread hsucceeds {} (Plan.cancelAt 1).cancels
  exact ⟨⟨hread, hsucceeds⟩, hbuilt,
    hcarried moved _ hmoved [] "home/guest/old" (by decide +kernel)⟩

end ToyC
