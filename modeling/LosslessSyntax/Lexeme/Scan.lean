import LosslessSyntax.Lexeme.Class
import LosslessSyntax.Lexeme.Comment
import LosslessSyntax.Token

/-!
# Lexeme/Scan — cutting a text into lexemes

The first character of a text decides what the first lexeme is, and the lexeme takes as much of the
text as its kind allows.  A character that begins nothing is a lexeme of its own, of kind `error`, so
every text has a first lexeme, and cutting it off again and again uses up the text.
-/

namespace LosslessSyntax.Lexeme

/-! ## The first lexeme -/

/-- The first lexeme of a text: its kind, what it takes after its first character, and the rest. -/
structure Scan where
  kind : SyntaxKind
  tail : List Char
  rest : List Char
  deriving DecidableEq, Repr

/-- A lexeme that takes every following character of a class. -/
def Scan.run (kind : SyntaxKind) (p : Char → Bool) (cs : List Char) : Scan :=
  ⟨kind, cs.takeWhile p, cs.dropWhile p⟩

/-- The kind of a word made of letters. -/
def wordKind (w : List Char) : SyntaxKind := (SyntaxKind.ofKeyword? (String.ofList w)).getD .ident

/-- The first lexeme of the text `c :: cs`. -/
def scan (c : Char) (cs : List Char) : Scan :=
  if isWhitespace c then .run .whitespace isWhitespace cs
  else if c = '/' then
    match splitComment? cs with
    | some (tail, rest) => ⟨.comment, tail, rest⟩
    | none => ⟨.slash, [], cs⟩
  else if isIdentStart c then
    .run (wordKind (c :: cs.takeWhile isIdentContinue)) isIdentContinue cs
  else if isDecDigit c then .run .intNumber isNumberContinue cs
  else ⟨(SyntaxKind.ofChar? c).getD .error, [], cs⟩

theorem Scan.run_append (kind : SyntaxKind) (p : Char → Bool) (cs : List Char) :
    (Scan.run kind p cs).tail ++ (Scan.run kind p cs).rest = cs :=
  List.takeWhile_append_dropWhile

/-- **The first lexeme and the rest make up the text.** -/
theorem scan_append (c : Char) (cs : List Char) : (scan c cs).tail ++ (scan c cs).rest = cs := by
  unfold scan
  split
  · exact Scan.run_append _ _ _
  split
  · split
    · next h => exact splitComment?_append h
    · rfl
  split
  · exact Scan.run_append _ _ _
  split
  · exact Scan.run_append _ _ _
  · rfl

theorem length_rest_scan_le (c : Char) (cs : List Char) : (scan c cs).rest.length ≤ cs.length := by
  have := congrArg List.length (scan_append c cs)
  simp only [List.length_append] at this
  omega

/-! ## All lexemes -/

/-- The words of a text with their kinds. -/
def words : List Char → List (SyntaxKind × List Char)
  | [] => []
  | c :: cs =>
    let s := scan c cs
    (s.kind, c :: s.tail) :: words s.rest
termination_by cs => cs.length
decreasing_by exact Nat.lt_succ_of_le (length_rest_scan_le c cs)

@[simp] theorem words_nil : words [] = [] := by rw [words]

theorem words_cons (c : Char) (cs : List Char) :
    words (c :: cs) = ((scan c cs).kind, c :: (scan c cs).tail) :: words (scan c cs).rest := by
  rw [words]

/-- The lexeme of a word. -/
def ofWord (w : SyntaxKind × List Char) : Lexeme := ⟨w.1, String.ofList w.2⟩

/-- **The lexemes of a text**, in order. -/
def tokenize (text : String) : List Lexeme := (words text.toList).map ofWord

/-- **The words of a text, laid end to end, are the text.** -/
theorem flatten_words : ∀ cs : List Char, ((words cs).map (·.2)).flatten = cs
  | [] => by simp
  | c :: cs => by
      simp [words_cons, flatten_words (scan c cs).rest, scan_append]
termination_by cs => cs.length
decreasing_by exact Nat.lt_succ_of_le (length_rest_scan_le c cs)

/-- The lexemes of a text spell it. -/
theorem spell_tokenize (text : String) : spell (tokenize text) = text := by
  have hwords : ((tokenize text).map (·.text)).flatMap String.toList =
      ((words text.toList).map (·.2)).flatten := by
    simp [tokenize, ofWord, List.flatMap_def, Function.comp_def]
  rw [← String.toList_inj, spell, String.toList_join, hwords, flatten_words]

/-! ## One lexeme on its own -/

/-- The empty text has no first lexeme. -/
structure EmptyText where

/-- The report that a lexeme was asked of the empty text. -/
def EmptyText.message (_ : EmptyText) : String := "cannot take a token from empty text"

/-- The first token of a text. -/
def first (text : String) : Except EmptyText Token :=
  match text.toList with
  | [] => .error {}
  | c :: cs => .ok (ofWord ((scan c cs).kind, c :: (scan c cs).tail)).token

end LosslessSyntax.Lexeme
