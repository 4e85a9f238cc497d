import LosslessSyntax.Unicode.Ranges

/-!
# Unicode/WhiteSpace — the characters that separate tokens

The property White_Space: the controls from the tabulator to the carriage return, the blank and its
typographic variants, and the line and paragraph separators.
-/

namespace LosslessSyntax.Unicode

/-- The intervals of White_Space. -/
def whiteSpace : Ranges :=
  [(0x9, 0xD), (0x20, 0x20), (0x85, 0x85), (0xA0, 0xA0), (0x1680, 0x1680), (0x2000, 0x200A),
   (0x2028, 0x2029), (0x202F, 0x202F), (0x205F, 0x205F), (0x3000, 0x3000)]

/-- Whether a character is white space. -/
def isWhiteSpace (c : Char) : Bool := whiteSpace.covers c.toNat

end LosslessSyntax.Unicode
