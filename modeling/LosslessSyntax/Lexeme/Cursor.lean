import LosslessSyntax.Lexeme.Scan

/-!
# Lexeme/Cursor — reading a text one step at a time

A cursor stands somewhere in a text and moves forward only: what it has passed and what lies ahead
make up the text at every moment (`all_step`).  It offers the moves the lexer is made of one by one,
for a reader who wants to watch them.
-/

namespace LosslessSyntax.Lexeme

/-- A place in a text: the characters passed, the nearest first, and those ahead. -/
structure Cursor where
  passed : List Char
  ahead : List Char
  deriving DecidableEq, Repr

namespace Cursor

/-- The cursor at the start of a text. -/
def ofText (text : String) : Cursor := ⟨[], text.toList⟩

/-- The whole text, passed and ahead. -/
def all (c : Cursor) : List Char := c.passed.reverse ++ c.ahead

/-- The text passed so far. -/
def text (c : Cursor) : String := String.ofList c.passed.reverse

/-- The length in bytes of the text passed so far. -/
def length (c : Cursor) : Nat := c.text.utf8ByteSize

/-- The next character, if there is one. -/
def current? (c : Cursor) : Option Char := c.ahead.head?

/-- Whether the text ahead begins with a word. -/
def looksAt (c : Cursor) (word : List Char) : Bool := word.isPrefixOf c.ahead

/-- Moves past the first part of a cut of the text ahead. -/
def pass (c : Cursor) (p : Split) : Cursor := ⟨p.1.reverse ++ c.passed, p.2⟩

/-- Moves past the next character. -/
def bump (c : Cursor) : Cursor :=
  match c.ahead with
  | [] => c
  | a :: cs => c.pass ([a], cs)

/-- Moves past the characters of a class. -/
def bumpWhile (p : Char → Bool) (c : Cursor) : Cursor :=
  c.pass (c.ahead.takeWhile p, c.ahead.dropWhile p)

/-- Moves to the end of the comment whose first slash lies behind, if one was opened there. -/
def scanComment (c : Cursor) : Option SyntaxKind × Cursor :=
  match splitComment? c.ahead with
  | some p => (some .comment, c.pass p)
  | none => (none, c)

/-- Moves to the end of the number whose first digit lies behind. -/
def scanNumber (c : Cursor) : Cursor := c.bumpWhile isNumberContinue

/-! ## Moves by name -/

/-- The classes of characters a cursor may skip. -/
inductive CharClass
  | whitespace | identContinue | decDigit
  deriving DecidableEq, Repr

/-- Whether a character is of the class. -/
def CharClass.holds : CharClass → Char → Bool
  | .whitespace => isWhitespace
  | .identContinue => isIdentContinue
  | .decDigit => isDecDigit

/-- One question to a cursor, or one move of it. -/
inductive Step
  | current
  | looksAt (word : String)
  | bump
  | bumpWhile (cls : CharClass)
  | scanComment
  | scanNumber
  | text
  deriving Repr

/-- What a step answers. -/
inductive Reply
  | char (c : Option Char)
  | truth (b : Bool)
  | text (s : String)
  | scanned (kind : Option SyntaxKind) (s : String)
  deriving DecidableEq, Repr

/-- The answer to a step, and the cursor after it. -/
def step (c : Cursor) : Step → Reply × Cursor
  | .current => (.char c.current?, c)
  | .looksAt word => (.truth (c.looksAt word.toList), c)
  | .bump => (.char c.current?, c.bump)
  | .bumpWhile cls => let d := c.bumpWhile cls.holds; (.text d.text, d)
  | .scanComment => let (k, d) := c.scanComment; (.scanned k d.text, d)
  | .scanNumber => let d := c.scanNumber; (.scanned (some .intNumber) d.text, d)
  | .text => (.text c.text, c)

/-- The answers to a list of steps, and the cursor after them. -/
def run (c : Cursor) : List Step → List Reply × Cursor
  | [] => ([], c)
  | s :: ss =>
    let (r, d) := c.step s
    let (rs, e) := d.run ss
    (r :: rs, e)

/-! ## The text never changes -/

theorem all_pass {c : Cursor} {p : Split} (h : p.1 ++ p.2 = c.ahead) : (c.pass p).all = c.all := by
  simp [pass, all, h]

theorem all_bumpWhile (c : Cursor) (p : Char → Bool) : (c.bumpWhile p).all = c.all :=
  all_pass List.takeWhile_append_dropWhile

theorem all_bump (c : Cursor) : c.bump.all = c.all := by
  unfold bump
  split
  · rfl
  · next h => exact all_pass h.symm

theorem all_scanComment (c : Cursor) : c.scanComment.2.all = c.all := by
  unfold scanComment
  split
  · next h => exact all_pass (splitComment?_append h)
  · rfl

/-- **A step neither loses nor adds a character.** -/
theorem all_step (c : Cursor) (s : Step) : (c.step s).2.all = c.all := by
  cases s with
  | bump => exact all_bump c
  | bumpWhile cls => exact all_bumpWhile c _
  | scanComment => exact all_scanComment c
  | scanNumber => exact all_bumpWhile c _
  | _ => rfl

end Cursor

end LosslessSyntax.Lexeme
