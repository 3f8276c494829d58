import ToyC.Text.Blank
import ToyC.Text.Word

/-!
Where runs of characters end. A run of one class is taken whole when the text
behind it starts with a character outside the class, or with nothing. So trimming
takes the blanks around a text away and nothing else, and digits are worth the
number that they write.
-/

namespace ToyC.Text

/-- What holds of the characters of a text is decided along the text, not over all characters. -/
instance decidableForallMem {p : Char → Prop} [DecidablePred p] (text : List Char) :
    Decidable (∀ c ∈ text, p c) :=
  List.decidableBAll p text

/-- A text does not start with a character of a class. -/
def StopsRun (p : Char → Bool) (text : List Char) : Prop :=
  ∀ c ∈ text.head?, p c = false

theorem StopsRun.nil (p : Char → Bool) : StopsRun p [] := by
  intro c hc
  cases hc

theorem StopsRun.cons {p : Char → Bool} {c : Char} (h : p c = false) (text : List Char) :
    StopsRun p (c :: text) := by
  intro d hd
  cases hd
  exact h

theorem StopsRun.append {p : Char → Bool} {text : List Char} (h : StopsRun p text)
    (hne : text ≠ []) (rest : List Char) : StopsRun p (text ++ rest) := by
  cases text with
  | nil => exact absurd rfl hne
  | cons c text => exact StopsRun.cons (h c rfl) _

theorem takeWhile_run {p : Char → Bool} {run rest : List Char} (hrun : ∀ c ∈ run, p c = true)
    (hrest : StopsRun p rest) : (run ++ rest).takeWhile p = run := by
  rw [List.takeWhile_append_of_pos hrun]
  cases rest with
  | nil => simp
  | cons c rest =>
      have hc : p c = false := hrest c rfl
      simp [hc]

theorem dropWhile_run {p : Char → Bool} {run rest : List Char} (hrun : ∀ c ∈ run, p c = true)
    (hrest : StopsRun p rest) : (run ++ rest).dropWhile p = rest := by
  rw [List.dropWhile_append_of_pos hrun]
  cases rest with
  | nil => rfl
  | cons c rest =>
      have hc : p c = false := hrest c rfl
      simp [hc]

/-! ### Blanks around a text -/

theorem skipBlanks_append {space : List Char} (h : ∀ c ∈ space, isBlank c = true)
    (text : List Char) : skipBlanks (space ++ text) = skipBlanks text :=
  List.dropWhile_append_of_pos h

theorem skipBlanks_of_stops {text : List Char} (h : StopsRun isBlank text) :
    skipBlanks text = text :=
  dropWhile_run (p := isBlank) (List.forall_mem_nil _) h

theorem dropEndWhile_cons (p : Char → Bool) (c : Char) (text : List Char) :
    dropEndWhile p (c :: text) =
      if (dropEndWhile p text).isEmpty && p c then [] else c :: dropEndWhile p text :=
  rfl

theorem dropEndWhile_append {p : Char → Bool} {run : List Char} (h : ∀ c ∈ run, p c = true)
    (text : List Char) : dropEndWhile p (text ++ run) = dropEndWhile p text := by
  have hrun : dropEndWhile p run = [] := by
    induction run with
    | nil => rfl
    | cons c rest ih =>
        have hrest := ih fun d hd => h d (List.mem_cons_of_mem _ hd)
        rw [dropEndWhile_cons, hrest, h c List.mem_cons_self]
        rfl
  rw [dropEndWhile] at hrun
  rw [dropEndWhile, List.foldr_append, hrun, dropEndWhile]

theorem dropEndWhile_snoc {p : Char → Bool} {c : Char} (h : p c = false) (text : List Char) :
    dropEndWhile p (text ++ [c]) = text ++ [c] := by
  induction text with
  | nil => simp [dropEndWhile, h]
  | cons d rest ih =>
      rw [List.cons_append, dropEndWhile_cons, ih]
      simp

theorem dropEndWhile_isPrefix (p : Char → Bool) (text : List Char) :
    dropEndWhile p text <+: text := by
  induction text with
  | nil => exact List.prefix_rfl
  | cons c rest ih =>
      rw [dropEndWhile_cons]
      split
      · exact List.nil_prefix
      · exact List.cons_prefix_cons.mpr ⟨rfl, ih⟩

theorem dropEndWhile_dropEndWhile (p : Char → Bool) (text : List Char) :
    dropEndWhile p (dropEndWhile p text) = dropEndWhile p text := by
  induction text with
  | nil => rfl
  | cons c rest ih =>
      rw [dropEndWhile_cons]
      split
      · rfl
      · rename_i hkept
        rw [dropEndWhile_cons, ih, if_neg hkept]

theorem exists_dropEndWhile (p : Char → Bool) (text : List Char) :
    ∃ behind, text = dropEndWhile p text ++ behind ∧ ∀ c ∈ behind, p c = true := by
  induction text with
  | nil => exact ⟨[], rfl, List.forall_mem_nil _⟩
  | cons c rest ih =>
      obtain ⟨behind, hrest, hbehind⟩ := ih
      rw [dropEndWhile_cons]
      split
      · rename_i hdropped
        rw [Bool.and_eq_true, List.isEmpty_iff] at hdropped
        rw [hdropped.1, List.nil_append] at hrest
        exact ⟨c :: rest, rfl, List.forall_mem_cons.mpr ⟨hdropped.2, hrest ▸ hbehind⟩⟩
      · exact ⟨behind, by rw [List.cons_append, ← hrest], hbehind⟩

/-- What is kept does not end with a character of the class. -/
theorem last_dropEndWhile (p : Char → Bool) (text : List Char) :
    ∀ c ∈ (dropEndWhile p text).getLast?, p c = false := by
  induction text with
  | nil => intro c hc; cases hc
  | cons c rest ih =>
      rw [dropEndWhile_cons]
      split
      · intro d hd; cases hd
      · rename_i hkept
        intro d hd
        cases hend : dropEndWhile p rest with
        | nil =>
            rw [hend] at hd hkept
            cases hd
            simpa using hkept
        | cons e more =>
            rw [hend, List.getLast?_cons_cons, ← hend] at hd
            exact ih d hd

theorem StopsRun.of_isPrefix {p : Char → Bool} {text front : List Char} (h : StopsRun p text)
    (hfront : front <+: text) : StopsRun p front := by
  obtain ⟨rest, rfl⟩ := hfront
  cases front with
  | nil => exact StopsRun.nil p
  | cons c front => exact StopsRun.cons (h c rfl) front

theorem stops_dropWhile (p : Char → Bool) (text : List Char) : StopsRun p (text.dropWhile p) := by
  intro c hc
  have hhead := List.head?_dropWhile_not p text
  rw [Option.mem_def.mp hc] at hhead
  simpa using hhead

theorem stops_skipBlanks (text : List Char) : StopsRun isBlank (skipBlanks text) := by
  intro c hc
  obtain ⟨rest, hrest⟩ := List.head?_eq_some_iff.mp hc
  exact not_isBlank_of_skipBlanks_eq_cons hrest

theorem trim_isInfix (text : List Char) : trim text <:+: text :=
  (dropEndWhile_isPrefix _ _).isInfix.trans (List.dropWhile_suffix _).isInfix

theorem stops_trim (text : List Char) : StopsRun isBlank (trim text) :=
  (stops_skipBlanks text).of_isPrefix (dropEndWhile_isPrefix _ _)

/-- Once trimmed, a text has nothing more to lose. -/
theorem trim_trim (text : List Char) : trim (trim text) = trim text := by
  rw [trim, skipBlanks_of_stops (stops_trim text)]
  exact dropEndWhile_dropEndWhile _ _

/-- A text with no blank at either end, and with something between them. -/
structure Trimmed (text : List Char) : Prop where
  starts : ∃ c rest, text = c :: rest ∧ isBlank c = false
  ends : ∃ front c, text = front ++ [c] ∧ isBlank c = false

namespace Trimmed

variable {text : List Char}

theorem ne_nil (h : Trimmed text) : text ≠ [] := by
  obtain ⟨c, rest, rfl, -⟩ := h.starts
  simp

theorem stops (h : Trimmed text) (rest : List Char) : StopsRun isBlank (text ++ rest) := by
  obtain ⟨c, more, rfl, hc⟩ := h.starts
  exact StopsRun.cons hc _

/-- A text is trimmed when it starts like one trimmed text and ends like another. -/
theorem between {front back : List Char} (hfront : Trimmed front) (middle : List Char)
    (hback : Trimmed back) : Trimmed (front ++ (middle ++ back)) := by
  obtain ⟨c, rest, rfl, hc⟩ := hfront.starts
  obtain ⟨inside, d, rfl, hd⟩ := hback.ends
  constructor
  · exact ⟨c, rest ++ (middle ++ (inside ++ [d])), rfl, hc⟩
  · exact ⟨c :: rest ++ (middle ++ inside), d, by simp, hd⟩

theorem singleton {c : Char} (h : isBlank c = false) : Trimmed [c] :=
  ⟨⟨c, [], rfl, h⟩, ⟨[], c, rfl, h⟩⟩

theorem trim_append (h : Trimmed text) {before behind : List Char}
    (hbefore : ∀ c ∈ before, isBlank c = true) (hbehind : ∀ c ∈ behind, isBlank c = true) :
    trim (before ++ text ++ behind) = text := by
  rw [trim, trimEnd, List.append_assoc, skipBlanks_append hbefore,
    skipBlanks_of_stops (h.stops behind), dropEndWhile_append hbehind]
  obtain ⟨front, c, rfl, hc⟩ := h.ends
  exact dropEndWhile_snoc hc front

theorem trim_eq (h : Trimmed text) : trim text = text := by
  have htrim := h.trim_append (List.forall_mem_nil _) (List.forall_mem_nil _)
  rwa [List.nil_append, List.append_nil] at htrim

end Trimmed

/-- Trimming takes away blanks at both ends and nothing else. -/
theorem exists_trim (text : List Char) :
    ∃ before behind, text = before ++ trim text ++ behind ∧
      (∀ c ∈ before, isBlank c = true) ∧ ∀ c ∈ behind, isBlank c = true := by
  obtain ⟨behind, hsplit, hbehind⟩ := exists_dropEndWhile isBlank (skipBlanks text)
  refine ⟨text.takeWhile isBlank, behind, ?_, List.all_eq_true.mp List.all_takeWhile, hbehind⟩
  rw [List.append_assoc, trim, trimEnd, ← hsplit, skipBlanks, List.takeWhile_append_dropWhile]

theorem trimmed_trim {text : List Char} (h : trim text ≠ []) : Trimmed (trim text) := by
  have hlast : ∀ c ∈ (trim text).getLast?, isBlank c = false := last_dropEndWhile _ _
  constructor
  · obtain ⟨c, rest, htext⟩ := List.exists_cons_of_ne_nil h
    exact ⟨c, rest, htext, stops_trim text c (by rw [htext]; rfl)⟩
  · obtain ⟨front, c, htext⟩ := (List.eq_nil_or_concat (trim text)).resolve_left h
    rw [List.concat_eq_append] at htext
    exact ⟨front, c, htext, hlast c (by rw [htext, List.getLast?_concat]; rfl)⟩

theorem trim_blanks {space : List Char} (h : ∀ c ∈ space, isBlank c = true) :
    trim space = [] := by
  have hskip := skipBlanks_append h []
  rw [List.append_nil] at hskip
  rw [trim, hskip]
  rfl

/-! ### Digits -/

theorem digitValue?_of_isDigit {c : Char} (h : c.isDigit = true) :
    digitValue? c = some (c.toNat - '0'.toNat) := by
  simp only [Char.isDigit, Bool.and_eq_true, decide_eq_true_eq] at h
  have hrange : '0' ≤ c ∧ c ≤ '9' := ⟨h.1, h.2⟩
  have hsmall : c.toNat < 128 := by
    have hle : c.toNat ≤ '9'.toNat := h.2
    have hnine : '9'.toNat = 57 := rfl
    omega
  rw [digitValue?, if_pos hsmall, if_pos hrange]

/-- The digits of a number are worth that number. -/
theorem digitsValue_toDigits (n : Nat) : digitsValue (Nat.toDigits 10 n) = n := by
  have hfold : ∀ (digits : List Char) (total : Nat), (∀ c ∈ digits, c.isDigit = true) →
      digits.foldl (fun total c => total * 10 + (digitValue? c).getD 0) total =
        Nat.ofDigitChars 10 digits total := by
    intro digits
    induction digits with
    | nil => intro total _; rfl
    | cons c rest ih =>
        intro total hdigits
        have hc := digitValue?_of_isDigit (hdigits c List.mem_cons_self)
        rw [List.foldl_cons, ih _ fun d hd => hdigits d (List.mem_cons_of_mem _ hd), hc,
          Nat.ofDigitChars_cons, Nat.mul_comm total 10]
        rfl
  rw [digitsValue, hfold _ _ fun c hc => Nat.isDigit_of_mem_toDigits (by decide) (by decide) hc]
  exact Nat.ofDigitChars_ten_toDigits

/-! ### Pieces between separators -/

/-- The division at a separator is that of lists. -/
theorem splitOn_eq (separator : Char) (text : List Char) :
    splitOn separator text = List.splitOn separator text := by
  induction text with
  | nil => rfl
  | cons c rest ih =>
      rw [splitOn, ih, List.splitOn_cons_eq_if_modifyHead]
      by_cases hc : c = separator
      · simp [hc]
      · cases hrest : List.splitOn separator rest with
        | nil => exact absurd hrest (List.splitOn_ne_nil separator rest)
        | cons piece pieces => simp [hc, consHead]

/-- No piece between separators holds the separator. -/
theorem not_mem_of_mem_splitOn {separator : Char} {text piece : List Char}
    (h : piece ∈ splitOn separator text) : separator ∉ piece := by
  induction text generalizing piece with
  | nil =>
      rw [List.mem_singleton.mp h]
      exact List.not_mem_nil
  | cons c rest ih =>
      simp only [splitOn] at h
      split at h
      · rcases List.mem_cons.mp h with rfl | hrest
        · exact List.not_mem_nil
        · exact ih hrest
      · rename_i hc
        cases hpieces : splitOn separator rest with
        | nil =>
            rw [hpieces] at h
            rw [List.mem_singleton.mp h]
            simp [Ne.symm hc]
        | cons first others =>
            rw [hpieces] at h ih
            rcases List.mem_cons.mp h with rfl | hrest
            · have hfirst := ih List.mem_cons_self
              simp [Ne.symm hc, hfirst]
            · exact ih (List.mem_cons_of_mem _ hrest)

end ToyC.Text
