import ToyC.Proofs.Syntax.Part

/-!
Types at the start of a line. Several types can be read where one was written: a
modifier is a type by itself, and a name may start like a type. Of these readings
only the one that was written has a blank and the name behind it.
-/

namespace ToyC.Shape

open Source (isSpace isBlank_of_isSpace isSpace_cases)
open Text (isBlank isWord skipBlanks StopsRun)

/-- The text of a type without the word for constants. -/
inductive IsPlainType : List Char → Prop
  | base {word : List Char} (hword : word ∈ typeBases) : IsPlainType word
  | modified {word space text : List Char} (hword : word ∈ typeModifiers)
      (hspace : ∀ c ∈ space, isSpace c = true) (hne : space ≠ []) (rest : IsPlainType text) :
      IsPlainType (word ++ (space ++ text))

/-- The text of a type. -/
inductive IsType : List Char → Prop
  | plain {text : List Char} (h : IsPlainType text) : IsType text
  | constant {space text : List Char} (hspace : ∀ c ∈ space, isSpace c = true) (hne : space ≠ [])
      (h : IsPlainType text) : IsType ("const".toList ++ (space ++ text))

/-- The words of types. -/
def typeWords : List (List Char) :=
  "const".toList :: (typeModifiers ++ typeBases)

theorem typeWords_chars : ∀ word ∈ typeWords, ∀ c ∈ word, Token.isNameRest c = true := by
  decide

theorem typeWords_isWord {word : List Char} (h : word ∈ typeWords) : ∀ c ∈ word, isWord c = true :=
  fun c hc => Token.isWord_of_isNameRest (typeWords_chars word h c hc)

theorem leads_type {word space : List Char} (hword : word ∈ typeWords)
    (hspace : ∀ c ∈ space, isSpace c = true) (hne : space ≠ []) (rest : List Char) :
    Leads word (word ++ (space ++ rest)) :=
  ⟨typeWords_chars word hword, space ++ rest, rfl, stops_space hspace hne rest⟩

theorem IsPlainType.leads {type space : List Char} (h : IsPlainType type)
    (hspace : ∀ c ∈ space, isSpace c = true) (hne : space ≠ []) (rest : List Char) :
    ∃ word ∈ typeModifiers ++ typeBases, Leads word (type ++ (space ++ rest)) := by
  cases h with
  | @base word hword =>
      have hmem : type ∈ typeModifiers ++ typeBases := List.mem_append_right _ hword
      exact ⟨type, hmem, leads_type (List.mem_cons_of_mem _ hmem) hspace hne rest⟩
  | @modified word inner text hword hinner hneinner htext =>
      have hmem : word ∈ typeModifiers ++ typeBases := List.mem_append_left _ hword
      refine ⟨word, hmem, ?_⟩
      rw [List.append_assoc, List.append_assoc]
      exact leads_type (List.mem_cons_of_mem _ hmem) hinner hneinner _

/-- A line that starts with a type starts with one of the words of types. -/
theorem IsType.leads {type space : List Char} (h : IsType type)
    (hspace : ∀ c ∈ space, isSpace c = true) (hne : space ≠ []) (rest : List Char) :
    ∃ word ∈ typeWords, Leads word (type ++ (space ++ rest)) := by
  cases h with
  | plain hplain =>
      obtain ⟨word, hword, hleads⟩ := hplain.leads hspace hne rest
      exact ⟨word, List.mem_cons_of_mem _ hword, hleads⟩
  | @constant inner text hinner hneinner hplain =>
      refine ⟨_, List.mem_cons_self, ?_⟩
      rw [List.append_assoc, List.append_assoc]
      exact leads_type List.mem_cons_self hinner hneinner _

theorem IsPlainType.stops {type space : List Char} (h : IsPlainType type)
    (hspace : ∀ c ∈ space, isSpace c = true) (hne : space ≠ []) (rest : List Char) :
    StopsRun isBlank (type ++ (space ++ rest)) := by
  obtain ⟨word, hword, hleads⟩ := h.leads hspace hne rest
  have hwords : ∀ word ∈ typeModifiers ++ typeBases, word ≠ [] := by decide
  exact hleads.stops (hwords word hword)

theorem wordAndBlanks?_append (word : List Char) {space text : List Char}
    (hspace : ∀ c ∈ space, isSpace c = true) (hne : space ≠ []) (hstop : StopsRun isBlank text) :
    wordAndBlanks? word (word ++ (space ++ text)) = some (word ++ space, text) := by
  cases space with
  | nil => exact absurd rfl hne
  | cons c space =>
      have hc := isBlank_of_isSpace (hspace c List.mem_cons_self)
      have hrest : ∀ d ∈ space, isBlank d = true := fun d hd =>
        isBlank_of_isSpace (hspace d (List.mem_cons_of_mem _ hd))
      have htake : (space ++ text).takeWhile isBlank = space := Text.takeWhile_run hrest hstop
      have hskip : skipBlanks (space ++ text) = text := Text.dropWhile_run hrest hstop
      rw [wordAndBlanks?, after?_append, List.cons_append]
      simp only [hc, if_true, htake, hskip]

theorem Leads.wordAndBlanks? {word keyword line : List Char} (h : Leads word line)
    (hkeyword : keyword ∈ typeWords) (hne : keyword ≠ word) :
    wordAndBlanks? keyword line = none := by
  rw [Shape.wordAndBlanks?]
  split
  · rename_i d rest hafter
    obtain ⟨c, more, hcons, hname⟩ := h.after?_mem (typeWords_isWord hkeyword) hne hafter
    cases hcons
    rw [Token.isBlank_of_isNameRest hname]
    rfl
  · rfl

theorem findSome?_unique {α β : Type} {f : α → Option β} {xs : List α} {x : α} {y : β}
    (hmem : x ∈ xs) (hx : f x = some y) (hother : ∀ z ∈ xs, z ≠ x → f z = none) :
    xs.findSome? f = some y := by
  induction xs with
  | nil => cases hmem
  | cons z xs ih =>
      by_cases hz : z = x
      · rw [List.findSome?_cons, hz, hx]
      · rw [List.findSome?_cons, hother z List.mem_cons_self hz]
        rcases List.mem_cons.mp hmem with heq | hrest
        · exact absurd heq.symm hz
        · exact ih hrest fun w hw => hother w (List.mem_cons_of_mem _ hw)

/-- The text behind a base, by the first base that fits. -/
theorem findSome?_base {word space line : List Char} (hword : word ∈ typeBases)
    (hspace : ∀ c ∈ space, isSpace c = true) (hne : space ≠ []) :
    (typeBases.findSome? fun base => (after? base (word ++ (space ++ line))).map (base, ·)) =
      some (word, space ++ line) := by
  have hmem : word ∈ typeWords :=
    List.mem_cons_of_mem _ (List.mem_append_right _ hword)
  have hleads := leads_type hmem hspace hne line
  apply findSome?_unique hword
  · rw [after?_append]
    rfl
  · intro base hbase hother
    cases hafter : after? base (word ++ (space ++ line)) with
    | none => rfl
    | some behind =>
        -- No base starts like another one.
        have hchars := typeWords_isWord (List.mem_cons_of_mem _ (List.mem_append_right _ hbase))
        obtain ⟨c, more, -, rfl, -⟩ := hleads.after? hchars hother hafter
        have hprefix : ∀ first ∈ typeBases, ∀ second ∈ typeBases,
            first.isPrefixOf second = true → first = second := by decide
        have heq := hprefix base hbase _ hword
          (List.isPrefixOf_iff_prefix.mpr (List.prefix_append _ _))
        exact absurd heq hother

theorem findSome?_modifier {word space line : List Char} (hword : word ∈ typeModifiers)
    (hspace : ∀ c ∈ space, isSpace c = true) (hne : space ≠ []) (hstop : StopsRun isBlank line) :
    typeModifiers.findSome? (wordAndBlanks? · (word ++ (space ++ line))) =
      some (word ++ space, line) := by
  have hmem : word ∈ typeWords :=
    List.mem_cons_of_mem _ (List.mem_append_left _ hword)
  have hleads := leads_type hmem hspace hne line
  apply findSome?_unique hword (wordAndBlanks?_append word hspace hne hstop)
  intro other hother hdistinct
  exact hleads.wordAndBlanks? (List.mem_cons_of_mem _ (List.mem_append_left _ hother)) hdistinct

/-- Behind every type that a name starts with, the name goes on. -/
theorem typeReadings_leads {word line : List Char} (h : Leads word line) (hword : word ∉ typeWords)
    (taken : List Char) : ∀ reading ∈ typeReadings taken line,
      ∃ c rest, reading.2 = c :: rest ∧ isBlank c = false := by
  have hnone : typeModifiers.findSome? (wordAndBlanks? · line) = none := by
    rw [List.findSome?_eq_none_iff]
    intro modifier hmodifier
    have hmem : modifier ∈ typeWords :=
      List.mem_cons_of_mem _ (List.mem_append_left _ hmodifier)
    exact h.wordAndBlanks? hmem fun heq => hword (heq ▸ hmem)
  intro reading hreading
  rw [typeReadings] at hreading
  split at hreading
  · rename_i heq
    rw [hnone] at heq
    cases heq
  · split at hreading
    · rename_i base rest heq
      rw [List.mem_singleton] at hreading
      subst hreading
      obtain ⟨found, hfound, hmap⟩ := List.exists_of_findSome?_eq_some heq
      obtain ⟨behind, hafter, hpair⟩ := Option.map_eq_some_iff.mp hmap
      cases hpair
      have hmem : base ∈ typeWords :=
        List.mem_cons_of_mem _ (List.mem_append_right _ hfound)
      obtain ⟨c, more, hcons, hname⟩ :=
        h.after?_mem (typeWords_isWord hmem) (fun heq => hword (heq ▸ hmem)) hafter
      exact ⟨c, more, hcons, Token.isBlank_of_isNameRest hname⟩
    · cases hreading

/-- Of the types that a line starts with, only the one that was written has a blank behind it. -/
theorem findSome?_typeReadings {β : Type} {f : List Char × List Char → Option β}
    (hf : ∀ type c rest, isBlank c = false → f (type, c :: rest) = none)
    {type space name line : List Char} (htype : IsPlainType type)
    (hspace : ∀ c ∈ space, isSpace c = true) (hne : space ≠ []) (hname : Leads name line)
    (hnew : name ∉ typeWords) (hnil : name ≠ []) {taken : List Char} {value : β}
    (hvalue : f (taken ++ type, space ++ line) = some value) :
    (typeReadings taken (type ++ (space ++ line))).findSome? f = some value := by
  induction htype generalizing taken with
  | @base word hword =>
      have hnone : ∀ more, (typeReadings more line).findSome? f = none := by
        intro more
        rw [List.findSome?_eq_none_iff]
        rintro ⟨type, behind⟩ hreading
        obtain ⟨c, rest, heq, hblank⟩ := typeReadings_leads hname hnew more _ hreading
        change behind = c :: rest at heq
        rw [heq]
        exact hf type c rest hblank
      have hbase := @findSome?_base word space line hword hspace hne
      rw [typeReadings, hbase]
      split
      · rename_i modifier rest heq
        have hrest : rest = line := by
          by_cases hmodifier : word ∈ typeModifiers
          · rw [findSome?_modifier hmodifier hspace hne (hname.stops hnil)] at heq
            cases heq
            rfl
          · have hmem : word ∈ typeWords :=
              List.mem_cons_of_mem _ (List.mem_append_right _ hword)
            obtain ⟨other, hother, hfound⟩ := List.exists_of_findSome?_eq_some heq
            have hnot := (leads_type hmem hspace hne line).wordAndBlanks?
              (List.mem_cons_of_mem _ (List.mem_append_left _ hother))
              (fun heq => hmodifier (heq ▸ hother))
            rw [hnot] at hfound
            cases hfound
        rw [hrest, List.findSome?_append, hnone, Option.none_or, List.findSome?_cons, hvalue]
      · rw [List.findSome?_cons, hvalue]
  | @modified word inner text hword hinner hneinner htext ih =>
      have hmodifier := findSome?_modifier hword hinner hneinner (htext.stops hspace hne line)
      rw [typeReadings, List.append_assoc, List.append_assoc]
      split
      · rename_i modifier rest heq
        rw [hmodifier] at heq
        cases heq
        have hvalue' : f (taken ++ (word ++ inner) ++ text, space ++ line) = some value := by
          rw [← hvalue]
          simp only [List.append_assoc]
        rw [List.findSome?_append, ih hvalue']
        rfl
      · rename_i heq
        rw [hmodifier] at heq
        cases heq

/-- The type of a line is the one that was written, where it must end in front of a blank. -/
theorem findSome?_types {β : Type} {f : List Char × List Char → Option β}
    (hf : ∀ type c rest, isBlank c = false → f (type, c :: rest) = none)
    {type space name line : List Char} (htype : IsType type)
    (hspace : ∀ c ∈ space, isSpace c = true) (hne : space ≠ []) (hname : Leads name line)
    (hnew : name ∉ typeWords) (hnil : name ≠ []) {value : β}
    (hvalue : f (type, space ++ line) = some value) :
    (types (type ++ (space ++ line))).findSome? f = some value := by
  cases htype with
  | plain hplain =>
      obtain ⟨word, hword, hleads⟩ := hplain.leads hspace hne line
      have hdistinct : "const".toList ≠ word := by
        rintro rfl
        revert hword
        decide
      rw [types, hleads.wordAndBlanks? List.mem_cons_self hdistinct]
      exact findSome?_typeReadings hf hplain hspace hne hname hnew hnil hvalue
  | @constant inner text hinner hneinner hplain =>
      have hstop := hplain.stops hspace hne line
      rw [List.append_assoc, List.append_assoc, types,
        wordAndBlanks?_append "const".toList hinner hneinner hstop]
      apply findSome?_typeReadings hf hplain hspace hne hname hnew hnil
      rw [← hvalue]
      simp only [List.append_assoc]

/-- A line that starts with a word that belongs to no type declares nothing. -/
theorem Leads.declares? {word line : List Char} (h : Leads word line) (hword : word ∉ typeWords) :
    declares? line = none := by
  rw [Shape.declares?, List.findSome?_eq_none_iff]
  rintro ⟨type, behind⟩ hreading
  have hconst : Shape.wordAndBlanks? "const".toList line = none :=
    h.wordAndBlanks? List.mem_cons_self fun heq => hword (heq ▸ List.mem_cons_self)
  rw [types, hconst] at hreading
  obtain ⟨c, rest, heq, hblank⟩ := typeReadings_leads h hword [] _ hreading
  change behind = c :: rest at heq
  rw [heq]
  simp [partAfterBlanks?, hblank]

end ToyC.Shape
