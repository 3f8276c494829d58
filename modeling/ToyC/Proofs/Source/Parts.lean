import Mathlib.Data.List.Basic
import ToyC.Proofs.Source.Cursor
import ToyC.Proofs.Source.Division

/-!
The parts of a list. A list is divided at each separator outside literals and
parentheses and nowhere else, and around the parts only blanks are lost. Behind a part
that a separator follows the scan stands as at the start, so the parts, or those of them
that are not empty, can be put together with separators and divided again.
-/

namespace ToyC.Source

open Text (isBlank trim consHead)

variable {separator : Char} {cursor : Cursor} {front text : List Char} {parts : List (List Char)}

/-! ### Separators -/

/-- The separators of a text that stand outside literals and parentheses. -/
def topSeparators (separator : Char) (cursor : Cursor) : List Char → Nat
  | [] => 0
  | c :: rest =>
    (if cursor.top ∧ c = separator then 1 else 0) + topSeparators separator (cursor.step c) rest

/-- A text without a separator that stands outside literals and parentheses. -/
def Undivided (separator : Char) : Cursor → List Char → Prop :=
  Nowhere fun here c => here.top = true ∧ c = separator

/-- A separator opens and closes nothing. -/
theorem step_separator (hseparator : isSeparator separator = true)
    (houtside : cursor.outside = true) : cursor.step separator = cursor := by
  rcases isSeparator_cases hseparator with rfl | rfl
  · exact Cursor.step_outside houtside (by decide) (by decide) (by decide)
  · exact Cursor.step_outside houtside (by decide) (by decide) (by decide)

theorem argumentPieces_separator (hseparator : isSeparator separator = true)
    (htop : cursor.top = true) (rest : List Char) :
    argumentPieces separator cursor (separator :: rest) =
      [] :: argumentPieces separator cursor rest := by
  have hplain : ¬isQuote separator = true ∧ separator ≠ '(' := by
    rcases isSeparator_cases hseparator with rfl | rfl <;> decide
  rw [argumentPieces, if_pos ⟨htop, rfl, hplain⟩]

theorem argumentPieces_other {c : Char} (h : ¬(cursor.top = true ∧ c = separator))
    (rest : List Char) : argumentPieces separator cursor (c :: rest) =
      consHead c (argumentPieces separator (cursor.step c) rest) := by
  rw [argumentPieces, if_neg fun hc => h ⟨hc.1, hc.2.1⟩]

theorem length_consHead {pieces : List (List Char)} (h : 0 < pieces.length) (c : Char) :
    (consHead c pieces).length = pieces.length := by
  cases pieces with
  | nil => exact absurd h (Nat.lt_irrefl 0)
  | cons piece pieces => rfl

theorem length_argumentPieces (hseparator : isSeparator separator = true) (cursor : Cursor)
    (text : List Char) : (argumentPieces separator cursor text).length =
      topSeparators separator cursor text + 1 := by
  induction text generalizing cursor with
  | nil => rfl
  | cons c rest ih =>
      rw [topSeparators]
      by_cases hc : cursor.top = true ∧ c = separator
      · obtain ⟨htop, rfl⟩ := hc
        rw [argumentPieces_separator hseparator htop, if_pos ⟨htop, rfl⟩,
          step_separator hseparator (Cursor.outside_of_top htop), List.length_cons, ih]
        omega
      · have hrest := ih (cursor.step c)
        rw [argumentPieces_other hc, if_neg hc, length_consHead (by omega), hrest, Nat.zero_add]

/-- An undivided text is the front of one piece. -/
theorem argumentPieces_undivided (h : Undivided separator cursor front) (rest : List Char) :
    argumentPieces separator cursor (front ++ rest) =
      joinHead front (argumentPieces separator (cursor.after front) rest) := by
  induction front generalizing cursor with
  | nil => rfl
  | cons c front ih =>
      rw [List.cons_append, argumentPieces_other h.head, ih h.tail]
      rfl

/-! ### Parts in their text -/

/-- A text that is parts with a separator between any two, and blanks around each. The separators
between them are those at which the cursor, running over the whole text, stands outside literals and
parentheses. -/
inductive Parted (separator : Char) : Cursor → List (List Char) → List Char → Prop
  | last {cursor : Cursor} {before part behind : List Char}
      (hbefore : ∀ c ∈ before, isBlank c = true) (hbehind : ∀ c ∈ behind, isBlank c = true)
      (hpart : Undivided separator cursor (before ++ part ++ behind)) :
      Parted separator cursor [part] (before ++ part ++ behind)
  | cons {cursor : Cursor} {before part behind text : List Char} {parts : List (List Char)}
      (hbefore : ∀ c ∈ before, isBlank c = true) (hbehind : ∀ c ∈ behind, isBlank c = true)
      (hpart : Undivided separator cursor (before ++ part ++ behind))
      (htop : (cursor.after (before ++ part ++ behind)).top = true)
      (rest :
        Parted separator (cursor.after (before ++ part ++ behind ++ [separator])) parts text) :
      Parted separator cursor (part :: parts) (before ++ part ++ behind ++ separator :: text)

namespace Parted

theorem single (h : Undivided separator cursor text) :
    Parted separator cursor [trim text] text := by
  obtain ⟨before, behind, hsplit, hbefore, hbehind⟩ := Text.exists_trim text
  have hlast : Parted separator cursor [trim text] (before ++ trim text ++ behind) := by
    apply last hbefore hbehind
    rwa [← hsplit]
  rwa [← hsplit] at hlast

theorem piece (hseparator : isSeparator separator = true) (h : Undivided separator cursor front)
    (htop : (cursor.after front).top = true)
    (rest : Parted separator (cursor.after front) parts text) :
    Parted separator cursor (trim front :: parts) (front ++ separator :: text) := by
  obtain ⟨before, behind, hsplit, hbefore, hbehind⟩ := Text.exists_trim front
  have hstep : cursor.after (front ++ [separator]) = cursor.after front := by
    rw [Cursor.after_concat, step_separator hseparator (Cursor.outside_of_top htop)]
  have hcons : Parted separator cursor (trim front :: parts)
      (before ++ trim front ++ behind ++ separator :: text) := by
    apply cons hbefore hbehind
    · rwa [← hsplit]
    · rwa [← hsplit]
    · rwa [← hsplit, hstep]
  rwa [← hsplit] at hcons

end Parted

/-- The pieces of a text, trimmed, are its parts. `front` is the part of the first piece that the
scan has passed already. -/
theorem parted_joinHead (hseparator : isSeparator separator = true)
    (h : Undivided separator cursor front) (text : List Char) :
    Parted separator cursor
      ((joinHead front (argumentPieces separator (cursor.after front) text)).map trim)
      (front ++ text) := by
  induction text generalizing cursor front with
  | nil =>
      rw [argumentPieces, joinHead_cons, List.append_nil]
      exact Parted.single h
  | cons c rest ih =>
      by_cases hc : (cursor.after front).top = true ∧ c = separator
      · obtain ⟨htop, rfl⟩ := hc
        rw [argumentPieces_separator hseparator htop, joinHead_cons, List.append_nil, List.map_cons]
        exact Parted.piece hseparator h htop (ih (Nowhere.nil _ _))
      · have hmore := ih (h.concat hc)
        rw [Cursor.after_concat, joinHead, List.foldr_append, List.append_assoc] at hmore
        rw [argumentPieces_other hc]
        exact hmore

theorem splitParts_parted (hseparator : isSeparator separator = true) (text : List Char) :
    Parted separator {} (splitParts separator text) text :=
  parted_joinHead hseparator (Nowhere.nil _ _) text

/-- Each part is undivided by itself, and one that another follows leads back to the start. -/
theorem Parted.standing (h : Parted separator cursor parts text)
    (hseparator : isSeparator separator = true) (hcursor : cursor = {}) :
    (∀ part ∈ parts, Undivided separator {} part) ∧
      parts.Pairwise fun part _ => Cursor.after {} part = {} := by
  have halone : ∀ {before part behind : List Char}, (∀ c ∈ before, isBlank c = true) →
      Undivided separator {} (before ++ part ++ behind) → Undivided separator {} part := by
    intro before part behind hbefore hpart
    have hinside := hpart.part
    rwa [Cursor.after_blanks rfl hbefore] at hinside
  induction h with
  | last hbefore hbehind hpart =>
      subst hcursor
      refine ⟨fun part hmem => ?_, List.pairwise_singleton _ _⟩
      rw [List.mem_singleton.mp hmem]
      exact halone hbefore hpart
  | @cons cursor before part behind text parts hbefore hbehind hpart htop rest ih =>
      subst hcursor
      have houtside := Cursor.outside_of_top htop
      have hstart : Cursor.after {} (before ++ part ++ behind) = {} :=
        (Cursor.Sound.start.after _).eq_start htop
      have hback : Cursor.after {} (before ++ part ++ behind ++ [separator]) = {} := by
        rw [Cursor.after_concat, step_separator hseparator houtside, hstart]
      have hends : Cursor.after {} part = {} :=
        (Cursor.Sound.start.after_padded rfl hbefore hbehind houtside).symm.trans hstart
      obtain ⟨hparts, hpairs⟩ := ih hback
      exact ⟨List.forall_mem_cons.mpr ⟨halone hbefore hpart, hparts⟩,
        List.pairwise_cons.mpr ⟨fun _ _ => hends, hpairs⟩⟩

/-! ### Parts put together -/

/-- A list is divided into the parts that it was put together from, whatever parenthesis or literal
the last of them leaves open. -/
theorem splitParts_intercalate (hseparator : isSeparator separator = true) (hne : parts ≠ [])
    (htrim : ∀ part ∈ parts, trim part = part)
    (hparts : ∀ part ∈ parts, Undivided separator {} part)
    (hpairs : parts.Pairwise fun part _ => Cursor.after {} part = {}) :
    splitParts separator (List.intercalate [separator] parts) = parts := by
  induction parts with
  | nil => exact absurd rfl hne
  | cons part parts ih =>
      obtain ⟨hpart, hothers⟩ := List.forall_mem_cons.mp hparts
      obtain ⟨hsame, htrims⟩ := List.forall_mem_cons.mp htrim
      obtain ⟨hends, hrest⟩ := List.pairwise_cons.mp hpairs
      cases parts with
      | nil =>
          have hpieces := argumentPieces_undivided hpart []
          rw [List.append_nil, argumentPieces, joinHead_cons, List.append_nil] at hpieces
          rw [List.intercalate_singleton, splitParts, hpieces, List.map_singleton, hsame]
      | cons next parts =>
          have hnext := ih (List.cons_ne_nil _ _) htrims hothers hrest
          rw [splitParts] at hnext
          rw [List.intercalate_cons_cons, List.append_assoc, List.singleton_append, splitParts,
            argumentPieces_undivided hpart, hends next List.mem_cons_self,
            argumentPieces_separator hseparator rfl, joinHead_cons, List.append_nil, List.map_cons,
            hsame, hnext]

/-- A text is divided exactly at its separators outside literals and parentheses, into trimmed parts
with blanks around them. Its parts, and those that are not empty, are found again in what they make
with separators between them. -/
theorem splitParts_faithful (hseparator : isSeparator separator = true) (text : List Char) :
    let parts := splitParts separator text
    let kept := splitArguments separator text
    parts.length = topSeparators separator {} text + 1 ∧
      Parted separator {} parts text ∧
      kept = parts.filter (!·.isEmpty) ∧
      (∀ part ∈ parts, trim part = part ∧ Undivided separator {} part) ∧
      splitParts separator (List.intercalate [separator] parts) = parts ∧
      splitArguments separator (List.intercalate [separator] kept) = kept := by
  intro parts kept
  have hcount : parts.length = topSeparators separator {} text + 1 := by
    rw [← length_argumentPieces hseparator]
    exact List.length_map trim
  have hparted : Parted separator {} parts text := splitParts_parted hseparator text
  obtain ⟨hparts, hpairs⟩ := hparted.standing hseparator rfl
  have htrim : ∀ part ∈ parts, trim part = part := by
    intro part hmem
    obtain ⟨piece, -, rfl⟩ := List.mem_map.mp hmem
    exact Text.trim_trim piece
  have hne : parts ≠ [] := List.ne_nil_of_length_pos (by omega)
  have hagain := splitParts_intercalate hseparator hne htrim hparts hpairs
  refine ⟨hcount, hparted, rfl, fun part hmem => ⟨htrim part hmem, hparts part hmem⟩, hagain, ?_⟩
  have hsub : kept.Sublist parts := List.filter_sublist
  by_cases hnone : kept = []
  · rw [hnone]
    rfl
  · have hkept := splitParts_intercalate hseparator hnone
      (fun part hmem => htrim part (hsub.subset hmem))
      (fun part hmem => hparts part (hsub.subset hmem)) (hpairs.sublist hsub)
    rw [splitArguments, hkept]
    exact List.filter_eq_self.mpr fun part hmem => (List.mem_filter.mp hmem).2

/-- A list with a parenthesis that nothing opens, an empty part, a literal with an escaped quote,
and a parenthesis and a literal that nothing closes. -/
theorem splitParts_faithful_unbalanced :
    let text := " a ,), ,\"\\\",\", f(x, ', ".toList
    let parts := ["a".toList, ")".toList, [], "\"\\\",\"".toList, "f(x, ',".toList]
    let kept := ["a".toList, ")".toList, "\"\\\",\"".toList, "f(x, ',".toList]
    isSeparator ',' = true ∧ splitParts ',' text = parts ∧ splitArguments ',' text = kept ∧
      topSeparators ',' {} text = 4 ∧
      splitParts ',' (List.intercalate [','] parts) = parts ∧
      splitArguments ',' (List.intercalate [','] kept) = kept := by
  intro text parts kept
  have hparts : splitParts ',' text = parts := by decide
  have hkept : splitArguments ',' text = kept := by decide
  have hcomma : isSeparator ',' = true := rfl
  obtain ⟨hcount, -, -, -, hagain, hkeptAgain⟩ := splitParts_faithful hcomma text
  rw [hparts] at hcount hagain
  rw [hkept] at hkeptAgain
  exact ⟨hcomma, hparts, hkept, (Nat.succ.inj hcount).symm, hagain, hkeptAgain⟩

end ToyC.Source
