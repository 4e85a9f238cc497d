import LosslessSyntax.Unicode.Identifier
import LosslessSyntax.Unicode.WhiteSpace

/-!
# Lexeme/Class — the classes of characters the lexer tells apart

Names are made of letters of any script, and the low line counts as a letter; numbers are made of the
ten ASCII digits alone.
-/

namespace LosslessSyntax.Lexeme

/-- The characters of a run of white space. -/
abbrev isWhitespace (c : Char) : Bool := Unicode.isWhiteSpace c

/-- The characters a name may start with. -/
def isIdentStart (c : Char) : Bool := c == '_' || Unicode.isXidStart c

/-- The characters a name may go on with. -/
def isIdentContinue (c : Char) : Bool := Unicode.isXidContinue c

/-- The characters a number may start with. -/
def isDecDigit (c : Char) : Bool := c.isDigit

/-- The characters a number may go on with: digits, grouped by low lines. -/
def isNumberContinue (c : Char) : Bool := isDecDigit c || c == '_'

/-- What starts a name may also go on with it. -/
theorem isIdentContinue_of_isIdentStart {c : Char} (h : isIdentStart c = true) :
    isIdentContinue c = true := by
  rcases (Bool.or_eq_true _ _).mp h with h | h
  · obtain rfl := eq_of_beq h
    decide
  · exact Unicode.isXidContinue_of_isXidStart h

end LosslessSyntax.Lexeme
