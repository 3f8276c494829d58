import ToyC.Proofs.Printf.Directive

/-!
Where a format ends. Behind its last directive all pieces are plain, and more text leaves
the pieces as they are unless a percent sign there waits for what will finish it. In that
case some text does finish it, so this is exactly when the pieces of two formats in a row
are those of the first and those of the second.
-/

namespace ToyC.Printf

/-- What stands behind the last directive, after one more piece. -/
def Piece.follow (behind : List Char) : Piece → List Char
  | .plain c => behind ++ [c]
  | .directive _ => []

/-- The text of a format behind its last directive. -/
def trailing (fmt : List Char) : List Char :=
  (pieces fmt).foldl Piece.follow []

/-- Some text that starts with this one is a directive. -/
def CanExtend (text : List Char) : Prop :=
  ∃ (d : Directive) (more : List Char), d.Spells (text ++ more)

/-- A format with a percent sign behind its last directive that may still become one. -/
def EndsOpen (fmt : List Char) : Prop :=
  ∃ front text, trailing fmt = front ++ '%' :: text ∧ CanExtend text

/-- A format is finished when it ends with a character that no directive has. -/
theorem not_endsOpen_of_last {fmt front : List Char} {c : Char}
    (htrailing : trailing fmt = front ++ [c]) (hinner : isInner c = false) (hletter : c ∉ letters) :
    ¬EndsOpen fmt := by
  rintro ⟨before, text, hsplit, d, more, hspells⟩
  rw [htrailing] at hsplit
  have hmem : c ∈ '%' :: text := by
    have hlast := List.dropLast_concat_getLast (List.cons_ne_nil '%' text)
    rw [← hlast, ← List.append_assoc] at hsplit
    obtain ⟨-, hc⟩ := List.append_inj' hsplit rfl
    rw [← hlast, ← hc]
    exact List.mem_append_right _ List.mem_cons_self
  obtain ⟨front, letter, hused, hfront, hend⟩ := hspells.exists_letter
  rcases List.mem_cons.mp hmem with rfl | htext
  · exact hletter (by decide)
  · have hused' : c ∈ front ++ [letter] := hused ▸ List.mem_append_left more htext
    rcases List.mem_append.mp hused' with hbefore | hat
    · rw [hfront c hbefore] at hinner
      cases hinner
    · exact hletter (List.mem_singleton.mp hat ▸ hend)

/-! ### Unfinished directives -/

/-- An unfinished directive has no percent sign in it: that would have finished it. -/
theorem CanExtend.not_mem_percent {text : List Char} (h : CanExtend text)
    (hnone : Directive.read? text = none) : '%' ∉ text := by
  obtain ⟨d, more, hspells⟩ := h
  obtain ⟨front, letter, hused, hinner, -⟩ := hspells.exists_letter
  rcases List.eq_nil_or_concat more with rfl | ⟨init, last, rfl⟩
  · have hread := hspells.read? []
    rw [List.append_nil, List.append_nil, hnone] at hread
    cases hread
  · rw [List.concat_eq_append, ← List.append_assoc] at hused
    obtain ⟨rfl, -⟩ := List.append_inj' hused rfl
    intro hmem
    exact ne_percent_of_isInner (hinner '%' (List.mem_append_left init hmem)) rfl

/-- Where no directive is read, none is read with more text behind it, unless it reaches there. -/
theorem read?_append_none {text : List Char} (hnone : Directive.read? text = none)
    (hclosed : ¬CanExtend text) (behind : List Char) :
    Directive.read? (text ++ behind) = none := by
  cases hread : Directive.read? (text ++ behind) with
  | none => rfl
  | some found =>
      obtain ⟨d, rest⟩ := found
      obtain ⟨used, hspells, hused⟩ := Directive.read?_eq_some_iff.mp hread
      rcases List.append_eq_append_iff.mp hused with ⟨more, rfl, -⟩ | ⟨left, rfl, -⟩
      · exact absurd ⟨d, more, hspells⟩ hclosed
      · rw [hspells.read? left] at hnone
        cases hnone

/-- A percent sign in a text that is no directive keeps it from becoming one. -/
theorem read?_append_of_mem {text : List Char} (hnone : Directive.read? text = none)
    (hmem : '%' ∈ text) (behind : List Char) : Directive.read? (text ++ behind) = none :=
  read?_append_none hnone (fun hextends => hextends.not_mem_percent hnone hmem) behind

/-! ### Texts without directives -/

/-- A text that stands for itself. -/
def IsPlain (text : List Char) : Prop :=
  pieces text = text.map .plain

namespace IsPlain

variable {c : Char} {text : List Char}

theorem nil : IsPlain [] := by
  rw [IsPlain, pieces, List.map_nil]

theorem cons (hc : c = '%' → Directive.read? text = none) (h : IsPlain text) :
    IsPlain (c :: text) := by
  rw [IsPlain, pieces_cons hc, h, List.map_cons]

theorem unread (h : IsPlain (c :: text)) (hc : c = '%') : Directive.read? text = none := by
  subst hc
  cases hread : Directive.read? text with
  | none => rfl
  | some found =>
      rw [IsPlain, pieces_directive hread, List.map_cons] at h
      cases h

theorem tail (h : IsPlain (c :: text)) : IsPlain text := by
  have hcons : Piece.plain c :: pieces text = .plain c :: text.map .plain := by
    rw [← pieces_cons h.unread, h, List.map_cons]
  exact (List.cons.inj hcons).2

theorem behind {front : List Char} (h : IsPlain (front ++ text)) : IsPlain text := by
  induction front with
  | nil => exact h
  | cons c front ih => exact ih h.tail

/-- More text leaves the pieces of a plain text as they are, if no percent sign waits for it. -/
theorem pieces_append (h : IsPlain text)
    (hclosed : ∀ front after, text = front ++ '%' :: after → ¬CanExtend after)
    (back : List Char) : pieces (text ++ back) = text.map .plain ++ pieces back := by
  induction text with
  | nil => rfl
  | cons c rest ih =>
      have hrest : pieces (rest ++ back) = rest.map .plain ++ pieces back := by
        refine ih h.tail ?_
        rintro front after rfl
        exact hclosed (c :: front) after rfl
      have hunread : c = '%' → Directive.read? (rest ++ back) = none := by
        rintro rfl
        exact read?_append_none (h.unread rfl) (hclosed [] rest rfl) back
      rw [List.cons_append, pieces_cons hunread, hrest, List.map_cons, List.cons_append]

/-- An unfinished directive at the end of a plain text is finished by the rest of its spelling. The
percent signs in front of it stay plain, for this one stands in their way. -/
theorem pieces_finished {front more : List Char} {d : Directive}
    (h : IsPlain (front ++ '%' :: text)) (hspells : d.Spells (text ++ more)) :
    pieces (front ++ '%' :: text ++ more) = front.map .plain ++ [.directive d] := by
  induction front with
  | nil =>
      have hread := hspells.read? []
      rw [List.append_nil] at hread
      rw [List.nil_append, List.cons_append, pieces_directive hread, pieces]
      rfl
  | cons c front ih =>
      have hunread : c = '%' → Directive.read? (front ++ '%' :: text ++ more) = none := fun hc =>
        read?_append_of_mem (h.unread hc) (List.mem_append_right _ List.mem_cons_self) more
      rw [List.cons_append, List.cons_append, pieces_cons hunread, ih h.tail]
      rfl

end IsPlain

/-- A spelling has no directive inside. -/
theorem Directive.Spells.isPlain {d : Directive} {used : List Char} (h : d.Spells used) :
    IsPlain used := by
  obtain ⟨front, letter, rfl, hinner, -⟩ := h.exists_letter
  clear h
  induction front with
  | nil => exact IsPlain.nil.cons fun _ => rfl
  | cons c front ih =>
      obtain ⟨hc, hfront⟩ := List.forall_mem_cons.mp hinner
      exact (ih hfront).cons fun heq => absurd heq (ne_percent_of_isInner hc)

/-! ### Two formats in a row -/

/-- A format that falls into a front that ends with its last directive, if it has one, and plain
text. `behind` is what stands in front of the format since the directive before it. -/
structure Falls (behind fmt front last : List Char) : Prop where
  split : fmt = front ++ last
  plain : IsPlain last
  stays : ∀ back, pieces (front ++ back) = pieces front ++ pieces back
  follows : front = [] ∧ (pieces fmt).foldl Piece.follow behind = behind ++ last ∨
    '%' ∈ front ∧ (pieces fmt).foldl Piece.follow behind = last

namespace Falls

variable {behind text front last : List Char}

theorem nil (behind : List Char) : Falls behind [] [] [] := by
  have hnil : pieces [] = [] := IsPlain.nil
  refine ⟨rfl, IsPlain.nil, fun back => ?_, Or.inl ⟨rfl, ?_⟩⟩
  · rw [hnil, List.nil_append, List.nil_append]
  · rw [hnil, List.foldl_nil, List.append_nil]

theorem directive {d : Directive} {used : List Char} (h : Falls [] text front last)
    (hspells : d.Spells used) :
    Falls behind ('%' :: (used ++ text)) ('%' :: (used ++ front)) last := by
  have hpieces : ∀ rest, pieces ('%' :: (used ++ rest)) = .directive d :: pieces rest :=
    fun rest => pieces_directive (hspells.read? rest)
  refine ⟨?_, h.plain, fun back => ?_, Or.inr ⟨List.mem_cons_self, ?_⟩⟩
  · rw [h.split, List.cons_append, List.append_assoc]
  · rw [List.cons_append, List.append_assoc, hpieces, hpieces, h.stays, List.cons_append]
  · rw [hpieces, List.foldl_cons]
    rcases h.follows with ⟨-, hfollow⟩ | ⟨-, hfollow⟩
    · exact hfollow
    · exact hfollow

theorem exists_plain {c : Char} (hc : c = '%' → Directive.read? text = none)
    (h : Falls (behind ++ [c]) text front last) :
    ∃ before after, Falls behind (c :: text) before after := by
  have hfold : (pieces (c :: text)).foldl Piece.follow behind =
      (pieces text).foldl Piece.follow (behind ++ [c]) := by
    rw [pieces_cons hc, List.foldl_cons, Piece.follow]
  obtain ⟨rfl, hplain, hstays, hfollows⟩ := h
  rcases hfollows with ⟨rfl, hfollow⟩ | ⟨hmem, hfollow⟩
  · refine ⟨[], c :: last, rfl, hplain.cons hc, ?_, Or.inl ⟨rfl, ?_⟩⟩
    · exact (nil behind).stays
    · rw [hfold, hfollow, List.append_assoc, List.singleton_append]
  · refine ⟨c :: front, last, rfl, hplain, fun back => ?_,
      Or.inr ⟨List.mem_cons_of_mem c hmem, hfold.trans hfollow⟩⟩
    have hnone : c = '%' → Directive.read? front = none := fun heq =>
      Directive.read?_of_append (hc heq)
    have hunread : c = '%' → Directive.read? (front ++ back) = none := fun heq =>
      read?_append_of_mem (hnone heq) hmem back
    rw [List.cons_append, pieces_cons hunread, pieces_cons hnone, hstays, List.cons_append]

end Falls

theorem exists_falls (behind fmt : List Char) : ∃ front last, Falls behind fmt front last := by
  induction fmt using pieces.induct generalizing behind with
  | case1 => exact ⟨[], [], Falls.nil behind⟩
  | case2 text d rest hread ih =>
      obtain ⟨used, hspells, rfl⟩ := Directive.read?_eq_some_iff.mp hread
      obtain ⟨front, last, hrest⟩ := ih []
      exact ⟨_, last, hrest.directive hspells⟩
  | case3 text hread ih =>
      obtain ⟨front, last, hrest⟩ := ih (behind ++ ['%'])
      exact hrest.exists_plain fun _ => hread
  | case4 c text hc ih =>
      obtain ⟨front, last, hrest⟩ := ih (behind ++ [c])
      exact hrest.exists_plain fun heq => absurd heq hc

/-- Behind its last directive a format is plain, and up to there it does not change with what comes
behind it. -/
theorem exists_trailing (fmt : List Char) : ∃ front, fmt = front ++ trailing fmt ∧
    IsPlain (trailing fmt) ∧ ∀ back, pieces (front ++ back) = pieces front ++ pieces back := by
  obtain ⟨front, last, hfalls⟩ := exists_falls [] fmt
  have hlast : trailing fmt = last := by
    rcases hfalls.follows with ⟨-, hfollow⟩ | ⟨-, hfollow⟩
    · exact hfollow
    · exact hfollow
  rw [hlast]
  exact ⟨front, hfalls.split, hfalls.plain, hfalls.stays⟩

theorem pieces_append {front : List Char} (h : ¬EndsOpen front) (back : List Char) :
    pieces (front ++ back) = pieces front ++ pieces back := by
  obtain ⟨start, hsplit, hplain, hstays⟩ := exists_trailing front
  have hlast : pieces (trailing front ++ back) = pieces (trailing front) ++ pieces back := by
    rw [hplain.pieces_append (fun before after heq hextends => h ⟨before, after, heq, hextends⟩),
      hplain]
  calc pieces (front ++ back) = pieces (start ++ (trailing front ++ back)) := by
        rw [← List.append_assoc, ← hsplit]
    _ = pieces start ++ (pieces (trailing front) ++ pieces back) := by rw [hstays, hlast]
    _ = pieces front ++ pieces back := by rw [← List.append_assoc, ← hstays, ← hsplit]

/-- What finishes a directive makes a piece of it that the two texts do not have. -/
theorem exists_finishing {front : List Char} (h : EndsOpen front) :
    ∃ back, pieces (front ++ back) ≠ pieces front ++ pieces back := by
  obtain ⟨before, text, htrailing, d, more, hspells⟩ := h
  obtain ⟨start, hsplit, hplain, hstays⟩ := exists_trailing front
  rw [htrailing] at hplain hsplit
  have hwhole : pieces (front ++ more) =
      pieces start ++ (before.map .plain ++ [.directive d]) := by
    rw [hsplit, List.append_assoc, hstays, hplain.pieces_finished hspells]
  have hparts : pieces front ++ pieces more =
      pieces start ++ (before ++ '%' :: text ++ more).map .plain := by
    rw [hsplit, hstays, hplain, hspells.isPlain.behind, List.append_assoc, ← List.map_append]
  refine ⟨more, fun heq => ?_⟩
  rw [hwhole, hparts] at heq
  have hmem : .directive d ∈ (before ++ '%' :: text ++ more).map Piece.plain := by
    rw [← List.append_cancel_left heq]
    exact List.mem_append_right _ List.mem_cons_self
  obtain ⟨c, -, hc⟩ := List.mem_map.mp hmem
  cases hc

/-- The pieces of a format stay, whatever comes behind it, exactly where it does not end in an
unfinished directive. -/
theorem pieces_append_iff {front : List Char} :
    (∀ back, pieces (front ++ back) = pieces front ++ pieces back) ↔ ¬EndsOpen front := by
  constructor
  · intro h hopen
    obtain ⟨back, hback⟩ := exists_finishing hopen
    exact hback (h back)
  · exact pieces_append

end ToyC.Printf
