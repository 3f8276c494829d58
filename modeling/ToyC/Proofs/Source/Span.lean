import ToyC.Proofs.Source.Placement
import ToyC.Syntax.Outline

/-!
Where a header ends. Headers are cut by a count of parentheses that does not know
literals; logical lines and lists are cut by the cursor, which does. The main
statement is that the two end a header at the same parenthesis, or both at none, as
long as the parentheses inside each of its literals balance.
-/

namespace ToyC.Source

open Text (trim)

/-! ### The parenthesis that the cursor ends at -/

/-- The text up to the parenthesis that brings the depth of the cursor to zero, and the text behind
it. -/
def closingSpan? (cursor : Cursor) : List Char → Option (List Char × List Char)
  | [] => none
  | c :: rest =>
    if (cursor.step c).depth = 0 then some ([], rest)
    else (closingSpan? (cursor.step c) rest).map fun (inside, behind) => (c :: inside, behind)

/-- The parenthesis in front of a text is open everywhere in it. -/
def StaysOpen (text : List Char) : Prop :=
  ∀ front, front <+: text → (Cursor.after {} ('(' :: front)).depth ≠ 0

/-- What a character adds to a count of parentheses. -/
def parenValue (c : Char) : Int :=
  if c = '(' then 1 else if c = ')' then -1 else 0

/-- Outside literals the parentheses move the depth. -/
theorem Cursor.depth_step_outside {cursor : Cursor} (h : cursor.outside = true)
    (hdepth : cursor.depth ≠ 0) (c : Char) :
    ((cursor.step c).depth : Int) = cursor.depth + parenValue c := by
  rw [outside, Option.isNone_iff_eq_none] at h
  simp only [step, h, parenValue]
  split
  · rename_i hquote
    have hopen : c ≠ '(' := by rintro rfl; exact absurd hquote (by decide)
    have hclose : c ≠ ')' := by rintro rfl; exact absurd hquote (by decide)
    rw [if_neg hopen, if_neg hclose, Int.add_zero]
  · split
    · rfl
    · split
      · dsimp only
        omega
      · exact (Int.add_zero _).symm

/-- Inside a literal nothing moves the depth. -/
theorem Cursor.depth_step_inside {cursor : Cursor} (h : cursor.outside = false) (c : Char) :
    (cursor.step c).depth = cursor.depth := by
  cases hquote : cursor.quote with
  | none => rw [outside, hquote] at h; cases h
  | some quote =>
      simp only [step, hquote]
      split
      · rfl
      · split
        · rfl
        · split <;> rfl

/-- The depth gets to zero only at a closing parenthesis outside literals. -/
theorem Cursor.depth_step_eq_zero {cursor : Cursor} {c : Char} (h : cursor.depth ≠ 0)
    (hstep : (cursor.step c).depth = 0) : c = ')' ∧ cursor.depth = 1 := by
  cases houtside : cursor.outside with
  | false => rw [depth_step_inside houtside] at hstep; exact absurd hstep h
  | true =>
      have hvalue := depth_step_outside houtside h c
      rw [hstep, parenValue] at hvalue
      split at hvalue
      · omega
      · split at hvalue
        · rename_i hclose
          exact ⟨hclose, by omega⟩
        · omega

theorem forall_prefix_cons_iff {p : List Char → Prop} {c : Char} {text : List Char} :
    (∀ front, front <+: c :: text → p front) ↔
      p [] ∧ ∀ front, front <+: text → p (c :: front) := by
  constructor
  · intro h
    exact ⟨h [] List.nil_prefix, fun front hfront => h _ (List.cons_prefix_cons.mpr ⟨rfl, hfront⟩)⟩
  · rintro ⟨hnil, hcons⟩ front hfront
    rcases List.prefix_cons_iff.mp hfront with rfl | ⟨more, rfl, hmore⟩
    · exact hnil
    · exact hcons more hmore

/-- The span ends at the first place where the depth is zero. -/
theorem closingSpan?_eq_some_iff {cursor : Cursor} (hdepth : cursor.depth ≠ 0)
    {text inside behind : List Char} :
    closingSpan? cursor text = some (inside, behind) ↔ text = inside ++ ')' :: behind ∧
      (∀ front, front <+: inside → (cursor.after front).depth ≠ 0) ∧
      (cursor.after (inside ++ [')'])).depth = 0 := by
  induction text generalizing cursor inside with
  | nil => simp [closingSpan?]
  | cons c rest ih =>
      rw [closingSpan?]
      split
      · rename_i hzero
        have hc := (Cursor.depth_step_eq_zero hdepth hzero).1
        constructor
        · intro h
          cases h
          rw [hc] at hzero ⊢
          refine ⟨rfl, fun front hfront => ?_, hzero⟩
          rw [List.prefix_nil.mp hfront]
          exact hdepth
        · rintro ⟨htext, hopen, -⟩
          cases inside with
          | nil => cases htext; rfl
          | cons d more =>
              cases htext
              have hfirst := hopen [c] (List.cons_prefix_cons.mpr ⟨rfl, List.nil_prefix⟩)
              exact absurd hzero hfirst
      · rename_i hopen
        constructor
        · intro h
          obtain ⟨⟨more, tail⟩, hmore, heq⟩ := Option.map_eq_some_iff.mp h
          cases heq
          obtain ⟨rfl, hfronts, hclosed⟩ := (ih hopen).mp hmore
          exact ⟨rfl, forall_prefix_cons_iff.mpr ⟨hdepth, hfronts⟩, hclosed⟩
        · rintro ⟨htext, hfronts, hclosed⟩
          cases inside with
          | nil => cases htext; exact absurd hclosed hopen
          | cons d more =>
              cases htext
              have hmore := (ih hopen).mpr ⟨rfl, (forall_prefix_cons_iff.mp hfronts).2, hclosed⟩
              rw [hmore]
              rfl

/-- There is no span if the depth never is zero. -/
theorem closingSpan?_eq_none_iff {cursor : Cursor} (hdepth : cursor.depth ≠ 0)
    {text : List Char} :
    closingSpan? cursor text = none ↔
      ∀ front, front <+: text → (cursor.after front).depth ≠ 0 := by
  induction text generalizing cursor with
  | nil =>
      refine ⟨fun _ front hfront => ?_, fun _ => rfl⟩
      rw [List.prefix_nil.mp hfront]
      exact hdepth
  | cons c rest ih =>
      rw [closingSpan?, forall_prefix_cons_iff]
      split
      · rename_i hzero
        refine ⟨fun h => (Option.some_ne_none _ h).elim, fun h => ?_⟩
        exact absurd hzero (h.2 [] List.nil_prefix)
      · rename_i hopen
        rw [Option.map_eq_none_iff, ih hopen]
        exact ⟨fun h => ⟨hdepth, h⟩, fun h => h.2⟩

/-! ### The count that does not know literals -/

theorem closeSpan_cons {depth : Int} {c : Char} (h : ¬(c = ')' ∧ depth = 1)) (rest : List Char) :
    closeSpan depth (c :: rest) =
      (closeSpan (depth + parenValue c) rest).map
        fun (inside, behind) => (c :: inside, behind) := by
  have hvalue : (if c = '(' then depth + 1 else if c = ')' then depth - 1 else depth) =
      depth + parenValue c := by
    rw [parenValue]
    split
    · rfl
    · split <;> omega
  rw [closeSpan, if_neg h, hvalue]

/-- Whether in each literal up to the end of the span the parentheses balance. `inner` counts those
that are open in the literal the cursor stands in. -/
def literalsBalance (cursor : Cursor) (inner : Int) : List Char → Bool
  | [] => true
  | c :: rest =>
    if cursor.outside then (cursor.step c).depth == 0 || literalsBalance (cursor.step c) 0 rest
    else
      let next := inner + parenValue c
      decide (0 ≤ next) && (!(cursor.step c).outside || next == 0) &&
        literalsBalance (cursor.step c) next rest

/-- While the literals balance, the count that does not know them is never lower than the depth, and
outside them it is the depth. So both end at the same place. -/
theorem closeSpan_eq_closingSpan? {cursor : Cursor} {inner : Int} {text : List Char}
    (hdepth : cursor.depth ≠ 0) (hinner : cursor.outside = true → inner = 0)
    (h : literalsBalance cursor inner text = true) :
    closeSpan (cursor.depth + inner) text = closingSpan? cursor text := by
  induction text generalizing cursor inner with
  | nil => rfl
  | cons c rest ih =>
      rw [literalsBalance] at h
      rw [closingSpan?]
      cases houtside : cursor.outside with
      | true =>
          obtain rfl := hinner houtside
          have hstep := Cursor.depth_step_outside houtside hdepth c
          rw [houtside, if_pos rfl, Bool.or_eq_true, beq_iff_eq] at h
          split
          · rename_i hzero
            obtain ⟨rfl, hone⟩ := Cursor.depth_step_eq_zero hdepth hzero
            rw [closeSpan, if_pos ⟨rfl, by omega⟩]
          · rename_i hzero
            have hrest := ih hzero (fun _ => rfl) (h.resolve_left hzero)
            have hopen : ¬(c = ')' ∧ (cursor.depth : Int) + 0 = 1) := by
              rintro ⟨rfl, hone⟩
              have hvalue : parenValue ')' = -1 := rfl
              omega
            rw [closeSpan_cons hopen, ← hrest, hstep, Int.add_right_comm]
      | false =>
          have hstep := Cursor.depth_step_inside houtside c
          have hzero : (cursor.step c).depth ≠ 0 := by rwa [hstep]
          rw [houtside, if_neg Bool.false_ne_true] at h
          simp only [Bool.and_eq_true, decide_eq_true_eq, Bool.or_eq_true, Bool.not_eq_true',
            beq_iff_eq] at h
          obtain ⟨⟨hnext, hleft⟩, hbalance⟩ := h
          have hinside : (cursor.step c).outside = true → inner + parenValue c = 0 := by
            intro hout
            rcases hleft with hstays | hnone
            · rw [hstays] at hout
              cases hout
            · exact hnone
          have hopen : ¬(c = ')' ∧ (cursor.depth : Int) + inner = 1) := by
            rintro ⟨rfl, hone⟩
            have hvalue : parenValue ')' = -1 := rfl
            omega
          rw [if_neg hzero, closeSpan_cons hopen, ← ih hzero hinside hbalance, hstep,
            Int.add_assoc]

/-! ### The main statement -/

/-- A header ends at the parenthesis at which the depth outside literals first is zero, and has no
end if it never is, provided that the parentheses inside each literal of the header balance. -/
theorem parenSpan?_literals {text : List Char}
    (h : literalsBalance (Cursor.after {} ['(']) 0 text = true) :
    (∀ inside tail, parenSpan? ('(' :: text) = some (inside, tail) ↔
      ∃ behind, text = inside ++ ')' :: behind ∧ tail = trim behind ∧ StaysOpen inside ∧
        (Cursor.after {} ('(' :: (inside ++ [')']))).depth = 0) ∧
    (parenSpan? ('(' :: text) = none ↔ StaysOpen text) := by
  have hdepth : (Cursor.after {} ['(']).depth ≠ 0 := by decide
  have hsame : closeSpan 1 text = closingSpan? (Cursor.after {} ['(']) text :=
    closeSpan_eq_closingSpan? hdepth (fun _ => rfl) h
  have hspan : parenSpan? ('(' :: text) = (closingSpan? (Cursor.after {} ['(']) text).map
      fun (inside, behind) => (inside, trim behind) := by
    rw [← hsame]
    rfl
  constructor
  · intro inside tail
    rw [hspan, Option.map_eq_some_iff]
    constructor
    · rintro ⟨⟨first, behind⟩, hfound, heq⟩
      cases heq
      obtain ⟨htext, hopen, hclosed⟩ := (closingSpan?_eq_some_iff hdepth).mp hfound
      exact ⟨behind, htext, rfl, hopen, hclosed⟩
    · rintro ⟨behind, htext, rfl, hopen, hclosed⟩
      exact ⟨(inside, behind), (closingSpan?_eq_some_iff hdepth).mpr ⟨htext, hopen, hclosed⟩, rfl⟩
  · rw [hspan, Option.map_eq_none_iff]
    exact closingSpan?_eq_none_iff hdepth

/-- A header with parentheses, an escaped quote and a quote in its literals, and with a parenthesis
in a literal behind it; and a header that is not closed. -/
theorem parenSpan?_literals_balanced :
    let inside := "f(\"(a)\\\"\", '\"') > (1)".toList
    let closed := inside ++ ") printf(\":)\");".toList
    let endless := "f(\"()\"".toList
    literalsBalance (Cursor.after {} ['(']) 0 closed = true ∧
      parenSpan? ('(' :: closed) = some (inside, "printf(\":)\");".toList) ∧
      StaysOpen inside ∧ (Cursor.after {} ('(' :: (inside ++ [')']))).depth = 0 ∧
      literalsBalance (Cursor.after {} ['(']) 0 endless = true ∧
      parenSpan? ('(' :: endless) = none ∧ StaysOpen endless := by
  intro inside closed endless
  have hclosed : literalsBalance (Cursor.after {} ['(']) 0 closed = true := by decide
  have hendless : literalsBalance (Cursor.after {} ['(']) 0 endless = true := by decide
  have hspan : parenSpan? ('(' :: closed) = some (inside, "printf(\":)\");".toList) := by decide
  have hnone : parenSpan? ('(' :: endless) = none := by decide
  obtain ⟨-, -, -, hopen, hdepth⟩ := ((parenSpan?_literals hclosed).1 _ _).mp hspan
  exact ⟨hclosed, hspan, hopen, hdepth, hendless, hnone, (parenSpan?_literals hendless).2.mp hnone⟩

/-- Where a literal holds a single parenthesis, a header is cut inside the literal or has no end,
though all literals of its line are closed and the depth outside them does fall to zero. -/
theorem parenSpan?_mistakes_literals :
    let cut := "c == ')') x = 1;".toList
    let dropped := "c == '(') x = 1;".toList
    (∀ text ∈ [cut, dropped], splitLines ("if (".toList ++ text) = ["if (".toList ++ text] ∧
      header? ("if (".toList ++ text) = some (.branch, '(' :: text) ∧
      (Cursor.after {} ("if (".toList ++ text)).outside = true) ∧
      closingSpan? (Cursor.after {} ['(']) cut = some ("c == ')'".toList, " x = 1;".toList) ∧
      parenSpan? ('(' :: cut) = some ("c == '".toList, "') x = 1;".toList) ∧
      closingSpan? (Cursor.after {} ['(']) dropped = some ("c == '('".toList, " x = 1;".toList) ∧
      parenSpan? ('(' :: dropped) = none ∧
      ¬ ∀ line keyword text, splitLines line = [line] → header? line = some (keyword, '(' :: text) →
        (Cursor.after {} line).outside = true →
        (parenSpan? ('(' :: text) = none ↔ StaysOpen text) := by
  intro cut dropped
  have hlines : ∀ text ∈ [cut, dropped],
      splitLines ("if (".toList ++ text) = ["if (".toList ++ text] ∧
      header? ("if (".toList ++ text) = some (.branch, '(' :: text) ∧
      (Cursor.after {} ("if (".toList ++ text)).outside = true := by decide
  have hnone : parenSpan? ('(' :: dropped) = none := by decide
  refine ⟨hlines, by decide, by decide, by decide, hnone, fun h => ?_⟩
  obtain ⟨hline, hheader, houtside⟩ := hlines dropped (by simp)
  have hopen : StaysOpen dropped := (h _ _ _ hline hheader houtside).mp hnone
  exact hopen "c == '(')".toList (by decide) (by decide)

end ToyC.Source
