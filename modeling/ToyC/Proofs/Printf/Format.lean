import ToyC.Proofs.Printf.Trailing
import ToyC.Proofs.Run.Origin

/-!
Formats in parts. Filling goes from left to right, and only a directive that takes a value
moves on in the values. So where the pieces of two formats in a row are those of the first
and those of the second, the two are filled one after the other.
-/

namespace ToyC

/-- What formatting gives rise to is never a matter of range. -/
theorem Fault.kind_of_formatting {f : Fault} (h : f.origin = .formatting) : f.kind = .value := by
  cases f with
  | beyondDouble => cases h
  | tooManyDigits | undefinedRemainder | widthTooBig | precisionTooBig | foreignDigit
  | tooFewValues | tooManyValues => rfl

namespace Printf

/-- The pieces that take a value. -/
def Piece.takesValue : Piece → Bool
  | .plain _ => false
  | .directive d => d.conversion != .percent

/-- The count of values that a format takes. -/
def valueCount (fmt : String) : Nat :=
  (pieces fmt.toList).countP Piece.takesValue

theorem countP_percent {d : Directive} (h : d.conversion = .percent) (rest : List Piece) :
    (Piece.directive d :: rest).countP Piece.takesValue = rest.countP Piece.takesValue :=
  List.countP_cons_of_neg (by simp [Piece.takesValue, h])

theorem countP_shown {d : Directive} (h : d.conversion ≠ .percent) (rest : List Piece) :
    (Piece.directive d :: rest).countP Piece.takesValue = rest.countP Piece.takesValue + 1 :=
  List.countP_cons_of_pos (by simp [Piece.takesValue, h])

theorem fill_percent {d : Directive} (h : d.conversion = .percent) (rest : List Piece)
    (values : List Value) :
    fill (.directive d :: rest) values = do return '%' :: (← fill rest values) := by
  simp only [fill, if_pos h]

theorem fill_missing {d : Directive} (h : d.conversion ≠ .percent) (rest : List Piece) :
    fill (.directive d :: rest) [] = fill rest [] := by
  rw [fill, if_neg h]

theorem fill_shown {d : Directive} (h : d.conversion ≠ .percent) (rest : List Piece)
    (value : Value) (more : List Value) :
    fill (.directive d :: rest) (value :: more) = do
      let shown ← d.show value
      return shown ++ (← fill rest more) := by
  rw [fill, if_neg h]

/-- Pieces in a row are filled one after the other, with the values in turn. -/
theorem fill_append (front back : List Piece) (values : List Value) :
    fill (front ++ back) values = do
      let first ← fill front values
      let second ← fill back (values.drop (front.countP Piece.takesValue))
      return first ++ second := by
  induction front generalizing values with
  | nil => exact (bind_pure (fill back values)).symm
  | cons piece rest ih =>
      rw [List.cons_append]
      cases piece with
      | plain c => simp [fill, ih, Piece.takesValue]
      | directive d =>
          by_cases hpercent : d.conversion = .percent
          · simp [fill_percent hpercent, countP_percent hpercent, ih]
          · cases values with
            | nil => simp [fill_missing hpercent, ih]
            | cons value more =>
                simp only [fill_shown hpercent, countP_shown hpercent, ih, List.drop_succ_cons,
                  bind_assoc, pure_bind, List.append_assoc]

/-- Only so many values matter as there are directives that take one. -/
theorem fill_take (all : List Piece) (values : List Value) :
    fill all (values.take (all.countP Piece.takesValue)) = fill all values := by
  induction all generalizing values with
  | nil => rfl
  | cons piece rest ih =>
      cases piece with
      | plain c => simp [fill, ih, Piece.takesValue]
      | directive d =>
          by_cases hpercent : d.conversion = .percent
          · simp [fill_percent hpercent, countP_percent hpercent, ih]
          · cases values with
            | nil => rw [List.take_nil]
            | cons value more => simp [fill_shown hpercent, countP_shown hpercent, ih]

theorem format_append {a : String} (h : ¬EndsOpen a.toList) (b : String) (values : List Value) :
    format (a ++ b) values = do
      let first ← format a values
      let second ← format b (values.drop (valueCount a))
      return first ++ second := by
  simp [format, String.toList_append, pieces_append h, fill_append, valueCount]

theorem format_kind {fmt : String} {values : List Value} {f : Fault}
    (h : format fmt values = .error f) : f.kind = .value :=
  Fault.kind_of_formatting (format_fault h)

/-- A format that falls into two is filled in two: a first part that does not end in an unfinished
directive prints what it prints alone, and the second part prints what it prints with the values
that are left. If one of them has a fault, the whole has one of the same kind. Values beyond the
directives that take one have no effect, and a directive without a value prints nothing. -/
theorem format_compositional (values : List Value) :
    (∀ a b : String, ¬EndsOpen a.toList →
      (∀ x y, format a values = .ok x → format b (values.drop (valueCount a)) = .ok y →
        format (a ++ b) values = .ok (x ++ y)) ∧
      ∀ f, format a values = .error f ∨ format b (values.drop (valueCount a)) = .error f →
        ∃ g, format (a ++ b) values = .error g ∧ g.kind = f.kind) ∧
    (∀ (fmt : String) (extra : List Value), valueCount fmt ≤ values.length →
      format fmt (values ++ extra) = format fmt values) ∧
    ∀ (fmt : String) (front back : List Piece) (d : Directive),
      pieces fmt.toList = front ++ .directive d :: back → d.conversion ≠ .percent →
      values.length ≤ front.countP Piece.takesValue →
      format fmt values = do return String.ofList (← fill (front ++ back) values) := by
  refine ⟨fun a b hclosed => ⟨?_, ?_⟩, ?_, ?_⟩
  · intro x y hfirst hsecond
    rw [format_append hclosed, hfirst, hsecond]
    rfl
  · intro f hfault
    have hkind : f.kind = .value := hfault.elim format_kind format_kind
    have hwhole := format_append hclosed b values
    cases hfirst : format a values with
    | error g =>
        rw [hfirst] at hwhole
        exact ⟨g, hwhole, (format_kind hfirst).trans hkind.symm⟩
    | ok x =>
        obtain hnone | hsecond := hfault
        · rw [hfirst] at hnone
          cases hnone
        · rw [hfirst, hsecond] at hwhole
          exact ⟨f, hwhole, rfl⟩
  · intro fmt extra hcount
    have hsame : (values ++ extra).take (valueCount fmt) = values.take (valueCount fmt) :=
      List.take_append_of_le_length hcount
    unfold valueCount at hsame
    rw [format, format, ← fill_take, hsame, fill_take]
  · intro fmt front back d hpieces hvalue hcount
    have hleft : values.drop (front.countP Piece.takesValue) = [] := List.drop_eq_nil_of_le hcount
    rw [format, hpieces, fill_append, fill_append, hleft, fill_missing hvalue]

/-- The first format is full of percent signs, and the second starts with a letter that would finish
a directive; the digit of another script is one that a directive may have and a layout not. -/
theorem format_compositional_percents :
    let a := "%%%-5d|%l%% ;"
    let b := "d%4s>%d%c"
    let values : List Value := [.number (.int 42), .text "hi"]
    ¬EndsOpen a.toList ∧ valueCount a = 1 ∧
      format (a ++ b) values = .ok "%42   |%% ;d  hi>" ∧
      (∃ g, format (a ++ "%٣s") values = .error g ∧ g.kind = .value) ∧
      format a (values ++ [.text "more"]) = .ok "%42   |%% ;" ∧
      format b values = (do return String.ofList (← fill (pieces "d%4s>%d".toList) values)) := by
  intro a b values
  have ha : pieces a.toList = [.directive ⟨[], .percent⟩, .directive ⟨['-', '5'], .decimal⟩,
      .plain '|', .directive ⟨[], .percent⟩, .plain '%', .plain ' ', .plain ';'] := by
    decide +kernel
  have hb : pieces b.toList = [.plain 'd', .directive ⟨['4'], .string⟩, .plain '>',
      .directive ⟨[], .decimal⟩] ++ [.directive ⟨[], .character⟩] := by
    decide +kernel
  have hshort : pieces "d%4s>%d".toList = [.plain 'd', .directive ⟨['4'], .string⟩, .plain '>',
      .directive ⟨[], .decimal⟩] := by
    decide +kernel
  have hforeign : pieces "%٣s".toList = [.directive ⟨['٣'], .string⟩] := by
    decide +kernel
  have htrailing : trailing a.toList = ['%', ' '] ++ [';'] := by
    rw [trailing, ha]
    rfl
  have hclosed : ¬EndsOpen a.toList := not_endsOpen_of_last htrailing (by decide) (by decide)
  have hcount : valueCount a = 1 := by
    rw [valueCount, ha]
    rfl
  have hfirst : format a values = .ok "%42   |%% ;" := by
    rw [format, ha]
    rfl
  have hsecond : format b (values.drop (valueCount a)) = .ok "d  hi>" := by
    rw [format, hb, hcount]
    rfl
  have hfault : format "%٣s" (values.drop (valueCount a)) = .error (.foreignDigit '٣' 1) := by
    rw [format, hforeign, hcount]
    rfl
  obtain ⟨hparts, hextra, hmissing⟩ := format_compositional values
  refine ⟨hclosed, hcount, (hparts a b hclosed).1 _ _ hfirst hsecond,
    (hparts a "%٣s" hclosed).2 _ (.inr hfault), ?_, ?_⟩
  · rw [hextra a [.text "more"] (by rw [hcount]; decide), hfirst]
  · have hlast := hmissing b _ [] _ hb (by decide) (by decide)
    rw [hlast, hshort]
    rfl

end Printf

end ToyC
