import Mathlib.Algebra.Ring.GeomSum
import Mathlib.Data.List.MinMax
import ToyC.Proofs.Run.OpenCalls
import ToyC.Proofs.Table

/-!
Bursts: how many functions a run enters between two of its checks. A statement that
returns leaves its function without a check, so a function whose body only returns makes
none at all, and neither do the functions that it calls. What a burst can come to is
therefore as large as a tree of calls, with the greatest number of call expressions in
one function for its width and the limit of nested calls for its height; a function
that calls itself twice shows that it can grow so.
-/

namespace ToyC

namespace Routine

variable {α β : Type}

/-- How many functions a routine that is never cancelled enters in front of its first check, from
each check to the next, and behind the last; so many have been entered since the last check. -/
def bursts (count : Nat) : Routine α → List Nat
  | .done _ => [count]
  | .act (.enter _) rest => (rest ()).bursts (count + 1)
  | .act _ rest => (rest ()).bursts count
  | .check resume => count :: (resume false).bursts 0

/-! ### Bounded bursts -/

/-- However its checks are answered, a routine enters at most `first` functions in front of the
first check, and at most `later` from one check to the next. -/
inductive Paced (later : Nat) : Nat → Routine α → Prop
  | done {first : Nat} (value : α) : Paced later first (.done value)
  | enter {first : Nat} {function : String} {rest : Unit → Routine α}
      (h : Paced later first (rest ())) : Paced later (first + 1) (.act (.enter function) rest)
  | act {first : Nat} {action : Action} {rest : Unit → Routine α}
      (hother : ∀ function, action ≠ .enter function) (h : Paced later first (rest ())) :
      Paced later first (.act action rest)
  | check {first : Nat} {resume : Bool → Routine α}
      (h : ∀ cancelled, Paced later later (resume cancelled)) : Paced later first (.check resume)

theorem Paced.mono {later first later' first' : Nat} {p : Routine α} (h : Paced later first p)
    (hlater : later ≤ later') (hfirst : first ≤ first') : Paced later' first' p := by
  induction h generalizing first' with
  | done value => exact .done value
  | enter _ ih =>
      obtain ⟨less, rfl⟩ : ∃ less, first' = less + 1 := ⟨first' - 1, by omega⟩
      exact .enter (ih (by omega))
  | act hother _ ih => exact .act hother (ih hfirst)
  | check _ ih => exact .check fun cancelled => ih cancelled hlater

/-- What is entered behind a routine comes on top of what was entered since its last check. -/
theorem Paced.bind {later first later' m : Nat} {p : Routine α} {next : α → Routine β}
    (h : Paced later first p) (hlater : later + m ≤ later') (hnext : ∀ a, Paced later' m (next a)) :
    Paced later' (first + m) (p.bind next) := by
  induction h with
  | done value => exact (hnext value).mono (Nat.le_refl _) (Nat.le_add_left _ _)
  | enter _ ih =>
      rw [Nat.add_right_comm]
      exact .enter ih
  | act hother _ ih => exact .act hother ih
  | check _ ih => exact .check fun cancelled => (ih cancelled).mono (Nat.le_refl _) hlater

theorem Paced.bursts_le {later first bound count : Nat} {p : Routine α} (h : Paced later first p)
    (hlater : later ≤ bound) (hfirst : count + first ≤ bound) :
    ∀ b ∈ p.bursts count, b ≤ bound := by
  induction h generalizing count with
  | done value =>
      intro b hb
      rw [List.mem_singleton.mp hb]
      omega
  | enter _ ih => exact ih (by omega)
  | @act _ action rest hother _ ih =>
      cases action with
      | enter function => exact absurd rfl (hother function)
      | _ => exact ih hfirst
  | check _ ih =>
      intro b hb
      rcases List.mem_cons.mp hb with rfl | hrest
      · omega
      · exact ih false (by omega) b hrest

end Routine

open Routine

/-- Each of the calls between two checks makes a burst of its own. -/
theorem Open.Orderly.paced {α : Type} [Abortable α] {known : Function → Prop} {later first m : Nat}
    {c : Open α} (h : c.Orderly known later first) (hfirst : first ≤ later) (calls : Calls)
    (hcalls : ∀ f, known f → ∀ args, Paced m m (calls f args)) :
    Paced (later * m) (first * m) (c.close calls) := by
  induction h with
  | done h => exact .done _
  | @act _ action rest hinner _ ih =>
      refine .act (fun function hsame => ?_) (ih hfirst)
      subst hsame
      exact hinner
  | check _ ih => exact .check fun cancelled => ih cancelled (Nat.le_refl _)
  | @call first f args resume hknown _ error ih =>
      have hroom : m + first * m ≤ later * m := by
        rw [Nat.add_comm, ← Nat.succ_mul]
        exact Nat.mul_le_mul_right m hfirst
      rw [Nat.succ_mul, Nat.add_comm]
      refine (hcalls f hknown args).bind hroom fun answer => ?_
      cases answer with
      | ok value => exact ih value (by omega)
      | error cause =>
          obtain ⟨a, ha, -⟩ := error cause
          rw [ha]
          exact .done a

/-- The number of activations in a tree of calls of so many levels, where each makes at most so many
calls. -/
def callTree (width levels : Nat) : Nat :=
  ∑ i ∈ Finset.range levels, width ^ i

theorem callTree_succ (width levels : Nat) :
    callTree width (levels + 1) = width * callTree width levels + 1 :=
  geom_sum_succ

/-- A call enters no more functions between two checks than there are in a tree of calls. -/
theorem activate_paced {functions : Table Function} {width : Nat}
    (hwidth : ∀ f : Function, f.IsIn functions → CallCount.block f.body ≤ width)
    (options : Options) (left : Nat) {f : Function} (hf : f.IsIn functions) (args : List Number) :
    Paced (callTree width left) (callTree width left)
      (activate functions options left f args) := by
  induction left generalizing f args with
  | zero => exact .done _
  | succ left ih =>
      obtain ⟨c, hclose, horder⟩ := @execBlock_opens functions options.maxIterations f.body
        [bindParams f.signature.params args []]
      have hbody := horder.paced (Nat.le_refl _) (activate functions options left)
        fun g hg args => ih hg args
      rw [hclose] at hbody
      have hcount := Nat.mul_le_mul_right (callTree width left) (hwidth f hf)
      rw [callTree_succ]
      refine .enter ((hbody.mono ?_ hcount).bind (m := 0) (Nat.le_refl _) ?_)
      · omega
      · rintro ⟨scope, ending⟩
        refine .act (by simp) ?_
        cases ending with
        | broke | continued => exact .act (by simp) (.done _)
        | _ => exact .done _

/-- The greatest number of call expressions in one function of a program. -/
def Program.mostCalls (p : Program) : Nat :=
  (p.functions.map fun entry => CallCount.block entry.2.body).foldr max 0

theorem Program.block_le_mostCalls {p : Program} {f : Function} (hf : f.IsIn p.functions) :
    CallCount.block f.body ≤ p.mostCalls := by
  obtain ⟨name, hname⟩ := hf
  have hmem := List.mem_map_of_mem (f := fun entry : String × Function =>
    CallCount.block entry.2.body) (Table.mem_of_get?_eq_some hname)
  exact List.le_max_of_le' 0 hmem (Nat.le_refl _)

/-! ### Runs -/

theorem paced_recordAll_bind {α : Type} {later first : Nat} (notes : List Note)
    {next : Unit → Routine α} (h : Paced later first (next ())) :
    Paced later first ((recordAll notes).bind next) := by
  induction notes with
  | nil => exact h
  | cons n rest ih => exact .act (by simp) ih

theorem paced_emit_bind {α : Type} {later first : Nat} (text : String)
    {next : Unit → Routine α} (h : Paced later first (next ())) :
    Paced later first ((Routine.emit text).bind next) := by
  unfold Routine.emit
  split
  · exact h
  · exact .act (by simp) h

theorem endWith_paced (later first : Nat) (n : Option Note) (text : String) :
    Paced later first (endWith n text) :=
  paced_recordAll_bind _ (paced_emit_bind text (.done _))

theorem conclude_paced (later first : Nat) (name : String) (result : Except Stop Number) :
    Paced later first (conclude name result) := by
  cases result with
  | ok status => exact .act (by simp) (.done _)
  | error stop =>
      cases stop with
      | mistake cause => exact endWith_paced later first none _
      | abort cause =>
          cases cause with
          | cancelled => exact endWith_paced later first _ _
          | tooDeep function depth => exact endWith_paced later first _ _
          | fault cause => exact .done _

theorem call_paced (p : Program) (options : Options) (name : String) (args : List Number) :
    Paced (callTree p.mostCalls options.maxDepth.toNat)
      (callTree p.mostCalls options.maxDepth.toNat) (p.call options name args) := by
  unfold Program.call
  split
  · exact .done _
  · rename_i f hf
    have hactivation := activate_paced (fun _ => Program.block_le_mostCalls) options
      options.maxDepth.toNat ⟨name, hf⟩ args
    refine hactivation.bind (m := 0) (Nat.le_refl _) fun answer => ?_
    cases answer <;> exact .done _

/-- Between two checks of a run, in front of the first and behind the last, no more functions are
entered than there are activations in a tree of calls: as high as calls may nest, and as wide as
the greatest number of call expressions in one function. -/
theorem bursts_le_callTree (name : String) (p : Program) (options : Options) :
    ∀ b ∈ (runProgram name p options).bursts 0,
      b ≤ callTree p.mostCalls options.maxDepth.toNat := by
  have hpaced : Paced (callTree p.mostCalls options.maxDepth.toNat)
      (callTree p.mostCalls options.maxDepth.toNat) (runProgram name p options) := by
    refine paced_recordAll_bind _ ?_
    split
    · refine .act (by simp) ?_
      exact (call_paced p options "main" []).bind (m := 0) (Nat.le_refl _)
        fun result => conclude_paced _ _ name result
    · exact endWith_paced _ _ none _
  exact hpaced.bursts_le (Nat.le_refl _) (by omega)

/-! ### A function that calls itself twice -/

namespace Routine

variable {α β : Type}

/-- A routine that makes no check, enters a number of functions, and gives a value. -/
inductive Quiet (value : α) : Nat → Routine α → Prop
  | done : Quiet value 0 (.done value)
  | enter {count : Nat} {function : String} {rest : Unit → Routine α}
      (h : Quiet value count (rest ())) : Quiet value (count + 1) (.act (.enter function) rest)
  | act {count : Nat} (action : Action) {rest : Unit → Routine α}
      (hother : ∀ function, action ≠ .enter function) (h : Quiet value count (rest ())) :
      Quiet value count (.act action rest)

theorem Quiet.bind {a : α} {b : β} {n m : Nat} {p : Routine α} {next : α → Routine β}
    (h : Quiet a n p) (hnext : Quiet b m (next a)) : Quiet b (m + n) (p.bind next) := by
  induction h with
  | done => exact hnext
  | enter _ ih => exact .enter ih
  | act action hother _ ih => exact .act action hother ih

/-- What follows does nothing but give a value. -/
theorem Quiet.map {a : α} {b : β} {count : Nat} {p : Routine α} {next : α → Routine β}
    (h : Quiet a count p) (hnext : next a = .done b) : Quiet b count (p.bind next) := by
  have hdone : Quiet b 0 (next a) := hnext ▸ .done
  simpa using h.bind hdone

theorem Quiet.bursts_eq {a : α} {count : Nat} {p : Routine α} (h : Quiet a count p) (before : Nat) :
    p.bursts before = [before + count] := by
  induction h generalizing before with
  | done => rfl
  | enter _ ih => simp [bursts, ih, Nat.add_assoc, Nat.add_comm 1]
  | act action hother _ ih =>
      cases action with
      | enter function => exact absurd rfl (hother function)
      | _ => exact ih before

/-- One evaluation after another. -/
theorem Quiet.andThen {a : α} {result : Except Stop β} {n m : Nat} {p : Evaluation α}
    {next : α → Evaluation β} (h : Quiet (.ok a) n p.run) (hnext : Quiet result m (next a).run) :
    Quiet result (m + n) (p >>= next).run :=
  h.bind hnext

end Routine

/-- The smaller problem that a function which calls itself twice poses each time. -/
def Expr.again : Expr :=
  .call {} "f" [.binary {} (.arith .sub) (.name {} "n") (.literal {} (.number 1))]

/-- A function that calls itself twice and does nothing but return. -/
def Function.doubling : Function :=
  { signature := ⟨"int", "f", [⟨"int", "n"⟩]⟩
    lines := []
    body :=
      [.simple ⟨"return n && f(n - 1) + f(n - 1);", .returns (some
        (.binary {} .and (.name {} "n") (.binary {} (.arith .add) .again .again)))⟩] }

/-- A main function that calls it with a number. -/
def Function.calling (n : Nat) : Function :=
  { signature := ⟨"int", "main", []⟩
    lines := []
    body :=
      [.simple ⟨"return f(" ++ toString n ++ ");", .returns (some
        (.call {} "f" [.literal {} (.number (.int n))]))⟩] }

def Program.doubling (n : Nat) : Program :=
  { lines := [], functions := [("f", .doubling), ("main", .calling n)] }

namespace Doubling

variable {env : Env} {count k : Nat}

theorem isTrue_succ (k : Nat) : (Number.int (k + 1)).isTrue = true := by
  have hne : (k : Int) + 1 ≠ 0 := by omega
  simpa [Number.isTrue, Number.isZero] using hne

theorem eval_call_quiet (hf : Table.get? "f" env.functions = some .doubling)
    (hcall : Quiet (.ok 0) count (env.call .doubling [.int k])) {scope : Scope} {arg : Expr}
    (harg : (evalArgs env scope [arg]).run = .done (.ok [.int k])) :
    Quiet (.ok (.number 0)) count (eval env scope (.call {} "f" [arg])).run := by
  simp only [eval, hf]
  refine .andThen (a := [.int k]) (n := 0) (by rw [harg]; exact .done) ?_
  exact (hcall.map (b := .ok 0) rfl).map rfl

theorem eval_again_quiet (hf : Table.get? "f" env.functions = some .doubling)
    (hcall : Quiet (.ok 0) count (env.call .doubling [.int k])) :
    Quiet (.ok (.number 0)) count (eval env [[("n", .int (k + 1))]] .again).run := by
  refine eval_call_quiet hf hcall ?_
  change Routine.done (Except.ok [Number.int (k + 1 - 1)]) = _
  rw [Int.add_sub_cancel]

/-- The number that the function returns is zero, whatever it is called with. -/
theorem eval_sum_quiet (hf : Table.get? "f" env.functions = some .doubling)
    (hcall : Quiet (.ok 0) count (env.call .doubling [.int k])) :
    Quiet (.ok (.number 0)) (count + count) (eval env [[("n", .int (k + 1))]]
      (.binary {} .and (.name {} "n") (.binary {} (.arith .add) .again .again))).run := by
  have hagain := eval_again_quiet hf hcall
  have hadd : Quiet (.ok (.number 0)) (count + count)
      (eval env [[("n", .int (k + 1))]] (.binary {} (.arith .add) .again .again)).run := by
    simp only [eval]
    exact hagain.andThen (.andThen (a := 0) (n := 0) .done (hagain.map rfl))
  simp only [eval]
  refine .andThen (a := .number (.int (k + 1))) (n := 0) .done ?_
  refine .andThen (a := .int (k + 1)) (n := 0) .done ?_
  rw [if_pos (isTrue_succ k)]
  exact hadd.map rfl

/-- A block that does nothing but return a number. -/
theorem execBlock_quiet {scope : Scope} {src : String} {e : Expr} {a : Number}
    (h : Quiet (.ok (.number a)) count (eval env scope e).run) :
    Quiet (scope, Ending.returned a) count
      (execBlock env scope [.simple ⟨src, .returns (some e)⟩]) := by
  have hnumber : Quiet (.ok a) count (evaluate env scope e) :=
    (h.map (b := .ok (.number a)) rfl).map rfl
  simp only [execBlock, exec, execDeed]
  exact (hnumber.map (b := (scope, Ending.returned a)) rfl).map rfl

theorem activate_quiet (functions : Table Function)
    (hf : Table.get? "f" functions = some .doubling) (options : Options) {left : Nat}
    (hleft : k < left) :
    ∃ count, count + 1 = 2 ^ (k + 1) ∧
      Quiet (.ok 0) count (activate functions options left .doubling [.int k]) := by
  induction k generalizing left with
  | zero =>
      obtain ⟨left, rfl⟩ : ∃ less, left = less + 1 := ⟨left - 1, by omega⟩
      exact ⟨1, rfl, .enter (.act .leave (by simp) .done)⟩
  | succ k ih =>
      obtain ⟨left, rfl⟩ : ∃ less, left = less + 1 := ⟨left - 1, by omega⟩
      obtain ⟨count, hcount, hquiet⟩ := ih (Nat.lt_of_succ_lt_succ hleft)
      refine ⟨count + count + 1, by rw [pow_succ]; omega, .enter ?_⟩
      have hreturn : Quiet ([[("n", .int (k + 1))]], Ending.returned 0) (count + count)
          (execBlock (envWithin functions options left) [[("n", .int (k + 1))]]
            Function.doubling.body) :=
        execBlock_quiet (eval_sum_quiet hf hquiet)
      rw [← Nat.zero_add (count + count)]
      exact hreturn.bind (.act .leave (by simp) .done)

theorem main_quiet (options : Options) {left : Nat} (hleft : k < left) :
    ∃ count, count + 1 = 2 ^ (k + 1) ∧
      Quiet (.ok 0) (count + 1)
        (activate (Program.doubling k).functions options (left + 1) (.calling k) []) := by
  obtain ⟨count, hcount, hquiet⟩ := activate_quiet (Program.doubling k).functions rfl options
    hleft
  refine ⟨count, hcount, .enter ?_⟩
  have hreturn : Quiet ([[]], Ending.returned 0) count
      (execBlock (envWithin (Program.doubling k).functions options left) [[]]
        (Function.calling k).body) :=
    execBlock_quiet (eval_call_quiet rfl hquiet rfl)
  rw [← Nat.zero_add count]
  exact hreturn.bind (.act .leave (by simp) .done)

end Doubling

theorem quiet_recordAll (notes : List Note) : Quiet () 0 (recordAll notes) := by
  induction notes with
  | nil => exact .done
  | cons n rest ih => exact .act (.note n) (by simp) ih

/-- Where calls may nest deep enough, the program makes no check, and doubles the number of the
functions that it enters with each further level. -/
theorem bursts_doubling (name : String) (n : Nat) {options : Options}
    (h : (n : Int) + 2 ≤ options.maxDepth) :
    (runProgram name (.doubling n) options).bursts 0 = [2 ^ (n + 1)] := by
  obtain ⟨left, hleft⟩ : ∃ left, options.maxDepth.toNat = left + 1 :=
    ⟨options.maxDepth.toNat - 1, by omega⟩
  obtain ⟨count, hcount, hmain⟩ := Doubling.main_quiet options (show n < left by omega)
  have hcall : Quiet (.ok 0) (count + 1) ((Program.doubling n).call options "main" []) := by
    change Quiet _ _ ((activate (Program.doubling n).functions options options.maxDepth.toNat
      (.calling n) []).bind _)
    rw [hleft]
    exact hmain.map rfl
  have hrun : Quiet (.ok (some 0)) (count + 1) (runProgram name (.doubling n) options) := by
    refine (quiet_recordAll _).bind ?_
    have hmain : Table.contains "main" (Program.doubling n).functions = true := rfl
    rw [if_pos hmain]
    refine .act (.note _) (by simp) ?_
    rw [← Nat.zero_add (count + 1)]
    exact hcall.bind (.act (.note _) (by simp) .done)
  rw [hrun.bursts_eq 0, Nat.zero_add, hcount]

theorem bursts_le_callTree_doubling :
    32 ∈ (runProgram "a.out" (.doubling 4) ⟨1000, 6⟩).bursts 0 ∧
      32 ≤ callTree (Program.doubling 4).mostCalls 6 := by
  have hburst : 32 ∈ (runProgram "a.out" (.doubling 4) ⟨1000, 6⟩).bursts 0 := by
    rw [bursts_doubling "a.out" 4 (by decide)]
    exact List.mem_singleton.mpr rfl
  exact ⟨hburst, bursts_le_callTree "a.out" (.doubling 4) ⟨1000, 6⟩ 32 hburst⟩

/-- The number of call expressions in the functions of a program. -/
def Program.callCount (p : Program) : Nat :=
  (p.functions.map fun entry => CallCount.block entry.2.body).sum

/-- The limit of nested calls times the number of call expressions is no bound: with room for six
levels, three call expressions enter 32 functions without a check. -/
theorem bursts_exceed_callCount :
    ¬ ∀ (name : String) (p : Program) (options : Options),
      ∀ b ∈ (runProgram name p options).bursts 0, (b : Int) ≤ options.maxDepth * p.callCount := by
  intro hbound
  have hburst := hbound "a.out" (.doubling 4) ⟨1000, 6⟩ (2 ^ (4 + 1))
  rw [bursts_doubling "a.out" 4 (by decide)] at hburst
  exact absurd (hburst (List.mem_singleton.mpr rfl)) (by decide)

end ToyC
