import ToyC.Fault
import ToyC.Syntax.Expr
import ToyC.Text.Word
import ToyC.Source.Escape

/-!
The words of an expression. At each place the longest word is read: a number
takes a point and an exponent where it can, and an operator its second sign. A
string or character literal reaches to its closing quote, and a backslash in it
protects the character behind it unless that is a newline.
-/

namespace ToyC

/-- Why a literal of good form has no value. -/
inductive LiteralError where
  /-- a character literal, with its quotes, that does not stand for one character -/
  | notOneCharacter (raw : String)
  /-- an integer with too many digits, and how many it has -/
  | tooManyDigits (count : Nat)
  deriving DecidableEq, Repr

inductive Token where
  | name (ident : String)
  | literal (value : Value)
  | unusable (cause : LiteralError)
  | operator (op : BinaryOp)
  | bang
  | leftParen
  | rightParen
  | comma

namespace Token

open Text (isDigit digitsValue)

/-- What is read at one place: a token, its characters, and what follows them. -/
structure Reading where
  token : Token
  lexeme : List Char
  rest : List Char

def isGap (c : Char) : Bool :=
  c == ' ' || c == '\t' || c == '\n' || c == '\r'

/-- Names are written in ASCII. -/
def isNameStart (c : Char) : Bool :=
  c.isAlpha || c == '_'

def isNameRest (c : Char) : Bool :=
  c.isAlphanum || c == '_'

def splitSign : List Char → List Char × List Char
  | '+' :: rest => (['+'], rest)
  | '-' :: rest => (['-'], rest)
  | text => ([], text)

/-- Split off an exponent: a letter `e`, a sign or none, and at least one digit. -/
def splitExponent : List Char → List Char × List Char
  | [] => ([], [])
  | e :: rest =>
    let digits := (splitSign rest).2.takeWhile isDigit
    if (e = 'e' ∨ e = 'E') ∧ digits ≠ [] then
      (e :: (splitSign rest).1 ++ digits, (splitSign rest).2.dropWhile isDigit)
    else ([], e :: rest)

/-- The worth of an exponent with its letter; nothing is worth zero. -/
def exponentValue : List Char → Int
  | _ :: '-' :: digits => -(digitsValue digits : Int)
  | _ :: '+' :: digits => digitsValue digits
  | _ :: digits => digitsValue digits
  | [] => 0

def double (whole fraction exponent : List Char) : Token :=
  .literal <| .number <| .float <|
    Decimal.ofDecimal (digitsValue (whole ++ fraction)) (exponentValue exponent - fraction.length)

def integer (digits : List Char) : Token :=
  if maxDigits < digits.length then .unusable (.tooManyDigits digits.length)
  else .literal (.number (.int (digitsValue digits)))

def number? (text : List Char) : Option Reading :=
  let whole := text.takeWhile isDigit
  match text.dropWhile isDigit with
  | '.' :: behind =>
    let fraction := behind.takeWhile isDigit
    if whole = [] ∧ fraction = [] then none
    else
      let (exponent, rest) := splitExponent (behind.dropWhile isDigit)
      some ⟨double whole fraction exponent, whole ++ '.' :: fraction ++ exponent, rest⟩
  | behind =>
    if whole = [] then none
    else
      match splitExponent behind with
      | ([], _) => some ⟨integer whole, whole, behind⟩
      | (exponent, rest) => some ⟨double whole [] exponent, whole ++ exponent, rest⟩

def stringBody? : List Char → Option (List Char × List Char)
  | [] => none
  | '"' :: rest => some ([], rest)
  | '\\' :: c :: rest =>
    if c = '\n' then none
    else (stringBody? rest).map fun (body, behind) => ('\\' :: c :: body, behind)
  | c :: rest =>
    if c = '\\' then none
    else (stringBody? rest).map fun (body, behind) => (c :: body, behind)

/-- The inside of a character literal: one character, or a backslash and one character. -/
def characterBody? : List Char → Option (List Char × List Char)
  | '\\' :: c :: '\'' :: rest => if c = '\n' then none else some (['\\', c], rest)
  | c :: '\'' :: rest => if c = '\\' ∨ c = '\'' then none else some ([c], rest)
  | _ => none

/-- The token of a character literal; its value is the code point. -/
def character (body : List Char) : Token :=
  match Source.unescape body with
  | [c] => .literal (.number (.int c.toNat))
  | _ => .unusable (.notOneCharacter (String.ofList ('\'' :: body ++ ['\''])))

def sign? : List Char → Option (Token × Nat)
  | '|' :: '|' :: _ => some (.operator .or, 2)
  | '&' :: '&' :: _ => some (.operator .and, 2)
  | '=' :: '=' :: _ => some (.operator (.compare .eq), 2)
  | '!' :: '=' :: _ => some (.operator (.compare .ne), 2)
  | '<' :: '=' :: _ => some (.operator (.compare .le), 2)
  | '>' :: '=' :: _ => some (.operator (.compare .ge), 2)
  | '<' :: _ => some (.operator (.compare .lt), 1)
  | '>' :: _ => some (.operator (.compare .gt), 1)
  | '+' :: _ => some (.operator (.arith .add), 1)
  | '-' :: _ => some (.operator (.arith .sub), 1)
  | '*' :: _ => some (.operator (.arith .mul), 1)
  | '/' :: _ => some (.operator (.arith .div), 1)
  | '%' :: _ => some (.operator (.arith .rem), 1)
  | '!' :: _ => some (.bang, 1)
  | '(' :: _ => some (.leftParen, 1)
  | ')' :: _ => some (.rightParen, 1)
  | ',' :: _ => some (.comma, 1)
  | _ => none

def read? : List Char → Option Reading
  | [] => none
  | c :: text =>
    if isNameStart c then
      let lexeme := c :: text.takeWhile isNameRest
      some ⟨.name (String.ofList lexeme), lexeme, text.dropWhile isNameRest⟩
    else if isDigit c ∨ c = '.' then number? (c :: text)
    else if c = '"' then
      (stringBody? text).map fun (body, rest) =>
        ⟨.literal (.text (String.ofList (Source.unescape body))), '"' :: body ++ ['"'], rest⟩
    else if c = '\'' then
      (characterBody? text).map fun (body, rest) =>
        ⟨character body, '\'' :: body ++ ['\''], rest⟩
    else
      (sign? (c :: text)).map fun (token, count) =>
        ⟨token, (c :: text).take count, (c :: text).drop count⟩

/-! ### A reading divides its text -/

theorem splitSign_append (text : List Char) :
    (splitSign text).1 ++ (splitSign text).2 = text := by
  unfold splitSign
  split <;> rfl

theorem splitExponent_append (text : List Char) :
    (splitExponent text).1 ++ (splitExponent text).2 = text := by
  cases text with
  | nil => rfl
  | cons e rest =>
    simp only [splitExponent]
    split
    · simp [List.takeWhile_append_dropWhile, splitSign_append]
    · rfl

theorem number?_append {text : List Char} {r : Reading} (h : number? text = some r) :
    r.lexeme ++ r.rest = text ∧ r.lexeme ≠ [] := by
  have hd := List.takeWhile_append_dropWhile (p := isDigit) (l := text)
  simp only [number?] at h
  split at h
  · rename_i behind heq
    split at h
    · cases h
    · cases h
      have h1 := splitExponent_append (behind.dropWhile isDigit)
      have h2 := List.takeWhile_append_dropWhile (p := isDigit) (l := behind)
      rw [heq] at hd
      refine ⟨?_, by simp⟩
      simp only [List.append_assoc, List.cons_append, h1, h2]
      exact hd
  · split at h
    · cases h
    · rename_i hw
      have h1 := splitExponent_append (text.dropWhile isDigit)
      split at h
      · cases h
        exact ⟨hd, hw⟩
      · rename_i exponent rest _ heq
        cases h
        rw [heq] at h1
        refine ⟨?_, by simp [hw]⟩
        simp only [List.append_assoc] at h1 ⊢
        rw [h1]
        exact hd

theorem stringBody?_append {text body rest : List Char}
    (h : stringBody? text = some (body, rest)) : body ++ '"' :: rest = text := by
  fun_induction stringBody? text generalizing body with
  | case1 => cases h
  | case2 => cases h; rfl
  | case3 => cases h
  | case4 c tail _ ih =>
    obtain ⟨⟨b, t⟩, hb, ht⟩ := Option.map_eq_some_iff.1 h
    simp only [Prod.mk.injEq] at ht
    obtain ⟨rfl, rfl⟩ := ht
    simp [ih hb]
  | case5 => cases h
  | case6 c tail _ _ _ ih =>
    obtain ⟨⟨b, t⟩, hb, ht⟩ := Option.map_eq_some_iff.1 h
    simp only [Prod.mk.injEq] at ht
    obtain ⟨rfl, rfl⟩ := ht
    simp [ih hb]

theorem characterBody?_append {text body rest : List Char}
    (h : characterBody? text = some (body, rest)) : body ++ '\'' :: rest = text := by
  unfold characterBody? at h
  split at h
  · split at h
    · cases h
    · cases h; rfl
  · split at h
    · cases h
    · cases h; rfl
  · cases h

theorem sign?_count {text : List Char} {token : Token} {count : Nat}
    (h : sign? text = some (token, count)) : 0 < count := by
  unfold sign? at h
  split at h <;> cases h <;> decide

/-- The characters of a token and what follows them are the text that was read. -/
theorem read?_append {text : List Char} {r : Reading} (h : read? text = some r) :
    r.lexeme ++ r.rest = text ∧ r.lexeme ≠ [] := by
  cases text with
  | nil => cases h
  | cons c text =>
    simp only [read?] at h
    split at h
    · cases h
      simp [List.takeWhile_append_dropWhile]
    · split at h
      · exact number?_append h
      · split at h
        · rename_i hc
          obtain ⟨⟨b, t⟩, hb, ht⟩ := Option.map_eq_some_iff.1 h
          cases ht
          have := stringBody?_append hb
          simp [hc, this]
        · split at h
          · rename_i hc
            obtain ⟨⟨b, t⟩, hb, ht⟩ := Option.map_eq_some_iff.1 h
            cases ht
            have := characterBody?_append hb
            simp [hc, this]
          · obtain ⟨⟨t, n⟩, hb, ht⟩ := Option.map_eq_some_iff.1 h
            cases ht
            have := sign?_count hb
            refine ⟨List.take_append_drop _ _, ?_⟩
            cases n with
            | zero => omega
            | succ n => simp

theorem read?_length_lt {text : List Char} {r : Reading} (h : read? text = some r) :
    r.rest.length < text.length := by
  obtain ⟨h1, h2⟩ := read?_append h
  rw [← h1, List.length_append]
  have := List.length_pos_iff.2 h2
  omega

end Token

structure Lexeme where
  token : Token
  pos : Position

/-- The tokens of a text, with gaps between them; nothing if some place starts no token. -/
def lexemes? (pos : Position) : List Char → Option (List Lexeme)
  | [] => some []
  | c :: text =>
    if Token.isGap c then lexemes? (pos.after c) text
    else
      match _h : Token.read? (c :: text) with
      | none => none
      | some reading =>
        (lexemes? (pos.advance reading.lexeme) reading.rest).map (⟨reading.token, pos⟩ :: ·)
termination_by text => text.length
decreasing_by
  · simp
  · exact Token.read?_length_lt _h

end ToyC
