import Mathlib.Data.List.Basic
import ToyC.Proofs.Text
import ToyC.Toolchain

/-!
Reading object code back. The pieces between its spaces are the code points of the
assembly, and the assembly is a fixed frame around the lines of the text, each behind the
same mark. Frame and marks are taken off by their places and not by what a line says, so
nothing is lost of any text, not even of one that looks like an assembly itself.
-/

namespace ToyC

open Text (splitOn splitOn_eq not_mem_of_mem_splitOn)

/-! ### Code points in hexadecimal -/

/-- The worth of a hexadecimal digit in small letters. -/
def hexDigit? (c : Char) : Option Nat :=
  if '0' ≤ c ∧ c ≤ '9' then some (c.toNat - '0'.toNat)
  else if 'a' ≤ c ∧ c ≤ 'f' then some (c.toNat - 'a'.toNat + 10)
  else none

/-- The number that digits write behind a number that was read before. -/
def readHexFrom? (total : Nat) (digits : List Char) : Option Nat :=
  digits.foldlM (fun total c => (hexDigit? c).map (16 * total + ·)) total

/-- The number that a piece of object code writes. -/
def readHex? (digits : List Char) : Option Nat :=
  if digits.isEmpty then none else readHexFrom? 0 digits

theorem hexDigit?_digitChar : ∀ d < 16, hexDigit? (Nat.digitChar d) = some d := by
  decide

theorem readHexFrom?_toDigits (n : Nat) : readHexFrom? 0 (Nat.toDigits 16 n) = some n := by
  induction n using Nat.strongRecOn with
  | _ n ih =>
      by_cases hsmall : n < 16
      · rw [Nat.toDigits_of_lt_base hsmall]
        simp [readHexFrom?, hexDigit?_digitChar n hsmall]
      · have hfront : readHexFrom? 0 (Nat.toDigits 16 (n / 16)) = some (n / 16) :=
          ih (n / 16) (by omega)
        have hlast := hexDigit?_digitChar (n % 16) (by omega)
        rw [readHexFrom?] at hfront
        rw [Nat.toDigits_of_base_le (by decide) (by omega), readHexFrom?, List.foldlM_append,
          hfront]
        simp [hlast, Nat.div_add_mod]

/-- What can be read consists of digits. -/
theorem isSome_hexDigit?_of_readHexFrom? {digits : List Char} {total n : Nat}
    (h : readHexFrom? total digits = some n) : ∀ c ∈ digits, (hexDigit? c).isSome := by
  induction digits generalizing total with
  | nil => exact List.forall_mem_nil _
  | cons c rest ih =>
      rw [readHexFrom?, List.foldlM_cons, Option.bind_eq_bind, Option.bind_eq_some_iff] at h
      obtain ⟨next, hc, hrest⟩ := h
      refine List.forall_mem_cons.mpr ⟨?_, ih hrest⟩
      obtain ⟨d, hd, -⟩ := Option.map_eq_some_iff.mp hc
      exact Option.isSome_of_eq_some hd

theorem space_not_mem_toDigits (n : Nat) : ' ' ∉ Nat.toDigits 16 n := by
  intro hmem
  have hdigit := isSome_hexDigit?_of_readHexFrom? (readHexFrom?_toDigits n) ' ' hmem
  exact absurd hdigit (by decide)

theorem readHex?_toDigits (n : Nat) : readHex? (Nat.toDigits 16 n) = some n := by
  have hread := readHexFrom?_toDigits n
  cases hdigits : Nat.toDigits 16 n with
  | nil =>
      -- a number without digits would be zero, and zero has one
      rw [hdigits] at hread
      cases hread
      cases hdigits
  | cons c rest => rwa [hdigits] at hread

/-- The code points that object code writes. -/
def codePoints? (code : List Char) : Option (List Nat) :=
  (splitOn ' ' code).mapM readHex?

/-- The pieces between the spaces of object code are the code points of its assembly. -/
theorem codePoints?_objectCode {asm : List Char} (h : asm ≠ []) :
    codePoints? (objectCode asm) = some (asm.map Char.toNat) := by
  have hpieces : splitOn ' ' (objectCode asm) = asm.map fun c => Nat.toDigits 16 c.toNat := by
    rw [objectCode, splitOn_eq]
    refine List.splitOn_intercalate ' ' (fun piece hpiece => ?_) (by simpa using h)
    obtain ⟨c, -, rfl⟩ := List.mem_map.mp hpiece
    exact space_not_mem_toDigits c.toNat
  have hread : readHex? ∘ (fun c : Char => Nat.toDigits 16 c.toNat) = fun c => pure c.toNat :=
    funext fun c => readHex?_toDigits c.toNat
  rw [codePoints?, hpieces, List.mapM_map, hread, List.mapM_pure]
  rfl

/-- The assembly that object code was made of. -/
def readObjectCode? (code : List Char) : Option (List Char) :=
  (codePoints? code).map (·.map Char.ofNat)

theorem readObjectCode?_objectCode {asm : List Char} (h : asm ≠ []) :
    readObjectCode? (objectCode asm) = some asm := by
  have hback : Char.ofNat ∘ Char.toNat = id := funext Char.ofNat_toNat
  rw [readObjectCode?, codePoints?_objectCode h, Option.map_some, List.map_map, hback, List.map_id]

/-! ### The frame and the marks of an assembly -/

/-- What stands in front of the lines of a text in its assembly. -/
def assemblyHead : List Char :=
  "\n    .file   \"main.c\"\n    .text\n    .globl  main\n".toList ++
    "    .type   main, @function\nmain:\n".toList ++
    "    pushq   %rbp\n    movq    %rsp, %rbp\n    # Mock assembly for:\n".toList

/-- What stands behind them. -/
def assemblyTail : List Char :=
  "\n    popq    %rbp\n    ret\n".toList

/-- What every line of a text stands behind. -/
def commentMark : List Char :=
  "    # ".toList

/-- The text that an assembly was made of. -/
def readAssembly? (asm : List Char) : Option (List Char) := do
  let framed ← asm.dropPrefix? assemblyHead
  let comments ← framed.dropSuffix? assemblyTail
  let lines ← (splitOn '\n' comments).mapM (·.dropPrefix? commentMark)
  return List.intercalate ['\n'] lines

theorem assembly_eq (text : List Char) :
    assembly text = assemblyHead ++
      (List.intercalate ['\n'] ((splitOn '\n' text).map (commentMark ++ ·)) ++ assemblyTail) := by
  dsimp only [assembly, assemblyHead, assemblyTail, commentMark]
  rw [List.append_assoc]

theorem assembly_ne_nil (text : List Char) : assembly text ≠ [] := by
  have htail : assemblyTail ≠ [] := by decide
  rw [assembly_eq]
  exact List.append_ne_nil_of_right_ne_nil _ (List.append_ne_nil_of_right_ne_nil _ htail)

theorem dropPrefix?_append (front rest : List Char) :
    (front ++ rest).dropPrefix? front = some rest :=
  List.dropPrefix?_eq_some_iff.mpr ⟨front, rfl, BEq.rfl⟩

theorem dropSuffix?_append (front rest : List Char) :
    (front ++ rest).dropSuffix? rest = some front :=
  List.dropSuffix?_eq_some_iff.mpr ⟨rest, rfl, BEq.rfl⟩

theorem readAssembly?_assembly (text : List Char) : readAssembly? (assembly text) = some text := by
  have hpieces : splitOn '\n'
      (List.intercalate ['\n'] ((splitOn '\n' text).map (commentMark ++ ·))) =
        (splitOn '\n' text).map (commentMark ++ ·) := by
    rw [splitOn_eq '\n' (List.intercalate _ _)]
    refine List.splitOn_intercalate '\n' (fun piece hpiece => ?_) ?_
    · obtain ⟨line, hline, rfl⟩ := List.mem_map.mp hpiece
      rw [List.mem_append, not_or]
      exact ⟨by decide, not_mem_of_mem_splitOn hline⟩
    · simp [splitOn_eq]
  have hmark : (·.dropPrefix? commentMark) ∘ (commentMark ++ ·) =
      fun line : List Char => (pure line : Option (List Char)) :=
    funext (dropPrefix?_append commentMark)
  have hlines : (splitOn '\n'
      (List.intercalate ['\n'] ((splitOn '\n' text).map (commentMark ++ ·)))).mapM
        (·.dropPrefix? commentMark) = some (splitOn '\n' text) := by
    rw [hpieces, List.mapM_map, hmark, List.mapM_pure, List.map_id']
    rfl
  simp only [readAssembly?, assembly_eq, dropPrefix?_append, dropSuffix?_append, hlines,
    Option.bind_eq_bind, Option.bind_some]
  rw [splitOn_eq, List.intercalate_splitOn]
  rfl

/-! ### From object code to the text -/

/-- The text that object code was made of. -/
def readText? (code : List Char) : Option (List Char) :=
  (readObjectCode? code).bind readAssembly?

theorem readText?_objectCode (text : List Char) :
    readText? (objectCode (assembly text)) = some text := by
  rw [readText?, readObjectCode?_objectCode (assembly_ne_nil text), Option.bind_some,
    readAssembly?_assembly]

/-- Object code tells of the text that it was made of: the pieces between its spaces are the code
points of the assembly, and the assembly without its frame and its marks is the text. So two texts
with the same object code are the same, and that of a build gives the text which its artifact
carries. -/
theorem objectCode_lossless :
    (∀ text : List Char,
      codePoints? (objectCode (assembly text)) = some ((assembly text).map Char.toNat) ∧
      readObjectCode? (objectCode (assembly text)) = some (assembly text) ∧
      readAssembly? (assembly text) = some text) ∧
    (∀ a b : List Char, objectCode (assembly a) = objectCode (assembly b) ↔ a = b) ∧
    ∀ (text : List Char) (name : String),
      (readText? (build text name).objectCode).map String.ofList =
        (build text name).artifact.attributes.bind (·.source) := by
  refine ⟨fun text => ?_, fun a b => ⟨fun h => ?_, fun h => by rw [h]⟩, fun text name => ?_⟩
  · have hframed := assembly_ne_nil text
    exact ⟨codePoints?_objectCode hframed, readObjectCode?_objectCode hframed,
      readAssembly?_assembly text⟩
  · have hread := congrArg readText? h
    rwa [readText?_objectCode, readText?_objectCode, Option.some.injEq] at hread
  · rw [build, readText?_objectCode]
    rfl

/-- A text that ends like the frame, behind a line that looks like one of a text. -/
example : readAssembly? (assembly "    # a\n    popq    %rbp\n    ret\n".toList) =
    some "    # a\n    popq    %rbp\n    ret\n".toList := by
  decide +kernel

end ToyC
