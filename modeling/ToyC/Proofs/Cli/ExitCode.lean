import Mathlib.Data.List.Basic
import ToyC.Cli.Report
import ToyC.Proofs.Decimal.Range

/-!
Exit codes. A run that ends with an integer is left with the lowest eight bits of it, and one
that ends without a status fails with one. On the way the status is looked at as a double,
which is meant for infinities: an integer beyond the doubles does not survive it, although
its lowest bits are as good as any.
-/

namespace ToyC.Cli

/-! ### Integers -/

theorem exitCode_int {n : Int} (h : n.natAbs < Decimal.leastBeyond) :
    exitCode (some (.int n)) = .ok (n % 256).toNat := by
  have hdouble : Decimal.ofInt? n ≠ none := fun hnone =>
    absurd (Decimal.ofInt?_eq_none_iff n |>.mp hnone) (Nat.not_le.mpr h)
  obtain ⟨x, hx⟩ := Option.ne_none_iff_exists'.mp hdouble
  simp only [exitCode, Number.toFloat, Number.truncate?, hx]

theorem exitCode_int_beyond {n : Int} (h : Decimal.leastBeyond ≤ n.natAbs) :
    exitCode (some (.int n)) = .error .beyondDouble := by
  simp only [exitCode, Number.toFloat, (Decimal.ofInt?_eq_none_iff n).mpr h]

/-! ### From the run to the report -/

/-- What a run gives when nothing cancels it. -/
def resultOf (text : List Char) (options : Options) : RunResult :=
  ((runSource (String.ofList text) options).observe {}).2

variable {text : List Char} {options : Options} {status : Option Number}

theorem reportRun_finished (level : Note.Level) {code : Nat}
    (hresult : resultOf text options = .ok status) (hcode : exitCode status = .ok code) :
    ∃ output errors, reportRun level text options = .finished code output errors := by
  rw [resultOf] at hresult
  simp only [reportRun, hresult, hcode]
  exact ⟨_, _, rfl⟩

theorem reportRun_faulted (level : Note.Level) {cause : Fault}
    (hresult : resultOf text options = .ok status) (hcode : exitCode status = .error cause) :
    ∃ output, reportRun level text options = .faulted cause output := by
  rw [resultOf] at hresult
  simp only [reportRun, hresult, hcode]
  exact ⟨_, rfl⟩

theorem report_eq_reportRun {w : Workspace} {words : List String} {line : CommandLine}
    (hline : CommandLine.read words = .ok line) (htask : line.task = .run options)
    (htext : w.readText line.path = .ok text) :
    report w words = reportRun line.level text options := by
  simp only [report, hline, htext, Except.mapError, CommandLine.report, htask]

/-- The command that runs a file exits with the integer that the run ends with, modulo 256, as long
as a double comes near that integer, and with one where the run ends without a status. An integer
beyond the doubles ends the command by a fault. -/
theorem report_exit {w : Workspace} {words : List String} {line : CommandLine}
    (hline : CommandLine.read words = .ok line) (htask : line.task = .run options)
    (htext : w.readText line.path = .ok text) :
    (∀ n : Int, resultOf text options = .ok (some (.int n)) →
      (n.natAbs < Decimal.leastBeyond →
        ∃ (code : Nat) (output errors : String),
          report w words = .finished code output errors ∧ (code : Int) = n % 256 ∧ code < 256) ∧
      (Decimal.leastBeyond ≤ n.natAbs →
        ∃ output, report w words = .faulted .beyondDouble output)) ∧
    (resultOf text options = .ok none →
      ∃ output errors, report w words = .finished 1 output errors) := by
  rw [report_eq_reportRun hline htask htext]
  refine ⟨fun n hresult => ⟨fun hnear => ?_, fun hbeyond => ?_⟩, fun hresult => ?_⟩
  · obtain ⟨output, errors, hreport⟩ := reportRun_finished line.level hresult (exitCode_int hnear)
    exact ⟨_, output, errors, hreport, by omega, by omega⟩
  · exact reportRun_faulted line.level hresult (exitCode_int_beyond hbeyond)
  · exact reportRun_finished line.level hresult rfl

/-! ### Two programs -/

/-- The integer that a run ends with. -/
def integerStatus? : RunResult → Option Int
  | .ok (some (.int n)) => some n
  | _ => none

theorem eq_of_integerStatus? {result : RunResult} {n : Int} (h : integerStatus? result = some n) :
    result = .ok (some (.int n)) := by
  unfold integerStatus? at h
  split at h
  · cases h
    rfl
  · cases h

/-- The command line `run p.c`. -/
def plainRun : CommandLine :=
  { level := .warning, path := "p.c", task := .run {} }

theorem read_plainRun : CommandLine.read ["run", "p.c"] = .ok plainRun := by
  decide +kernel

/-- A workspace with one file, on one line. -/
def oneFile (text : String) : Workspace :=
  Workspace.ofList [("p.c", some text)]

/-- A negative status has its lowest eight bits as every other. -/
theorem report_exit_negative :
    let text := "int main() \x7b return 5 - 6; \x7d"
    (CommandLine.read ["run", "p.c"] = .ok plainRun ∧
      (oneFile text).readText plainRun.path = .ok text.toList ∧
      resultOf text.toList {} = .ok (some (.int (-1)))) ∧
    ∃ output errors, report (oneFile text) ["run", "p.c"] = .finished 255 output errors := by
  intro text
  have htext : (oneFile text).readText plainRun.path = .ok text.toList := by decide +kernel
  have hresult : resultOf text.toList {} = .ok (some (.int (-1))) :=
    eq_of_integerStatus? (by decide +kernel)
  have hnear : (-1 : Int).natAbs < Decimal.leastBeyond := by decide +kernel
  obtain ⟨code, output, errors, hreport, hcode, -⟩ :=
    ((report_exit read_plainRun rfl htext).1 (-1) hresult).1 hnear
  obtain rfl : code = 255 := by omega
  exact ⟨⟨read_plainRun, htext, hresult⟩, output, errors, hreport⟩

/-- Not every integer is left to its lowest eight bits: squared ten times, two is beyond the
doubles. -/
theorem report_faults_on_integer :
    ¬ ∀ (w : Workspace) (words : List String) (line : CommandLine) (options : Options)
        (text : List Char) (n : Int),
      CommandLine.read words = .ok line → line.task = .run options →
      w.readText line.path = .ok text → resultOf text options = .ok (some (.int n)) →
      ∃ output errors, report w words = .finished (n % 256).toNat output errors := by
  intro hexits
  let text :=
    "int main() \x7b int a = 2; for (int i = 0; i < 10; i++) a *= a; return a + 7; \x7d"
  have htext : (oneFile text).readText plainRun.path = .ok text.toList := by decide +kernel
  have hresult : resultOf text.toList {} = .ok (some (.int (Nat.pow 2 1024 + 7))) :=
    eq_of_integerStatus? (by decide +kernel)
  obtain ⟨output, errors, hfinished⟩ :=
    hexits (oneFile text) ["run", "p.c"] plainRun {} text.toList _ read_plainRun rfl htext hresult
  obtain ⟨_, hfaulted⟩ := reportRun_faulted plainRun.level hresult
    (exitCode_int_beyond (by decide +kernel))
  rw [report_eq_reportRun read_plainRun rfl htext, hfaulted] at hfinished
  cases hfinished

end ToyC.Cli
