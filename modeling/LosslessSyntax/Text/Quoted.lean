import LosslessSyntax.Unicode.Unprintable

/-!
# Text/Quoted — text between quotes, with every character visible

Quoted text stays on one line and shows what it holds: the quote, the backslash and the common
controls are written as a backslash and a letter, every other unprintable character as its code point
in braces, and all else stands for itself.  An apostrophe needs no escape between double quotes.
-/

namespace LosslessSyntax.Text.Quoted

/-- A code point in lower-case hexadecimal, without leading zeros. -/
def hex (n : Nat) : List Char := Nat.toDigits 16 n

/-- How a character is written between quotes. -/
def escape (c : Char) : List Char :=
  if c = '\x00' then ['\\', '0']
  else if c = '\t' then ['\\', 't']
  else if c = '\n' then ['\\', 'n']
  else if c = '\r' then ['\\', 'r']
  else if c = '"' then ['\\', '"']
  else if c = '\\' then ['\\', '\\']
  else if Unicode.isUnprintable c then ['\\', 'u', '{'] ++ hex c.toNat ++ ['}']
  else [c]

/-- The characters of a text as they are written between quotes. -/
def encode (cs : List Char) : List Char := cs.flatMap escape

@[simp] theorem encode_nil : encode [] = [] := rfl

@[simp] theorem encode_cons (c : Char) (cs : List Char) :
    encode (c :: cs) = escape c ++ encode cs := rfl

theorem encode_append (cs ds : List Char) : encode (cs ++ ds) = encode cs ++ encode ds := by
  simp [encode]

/-- A text between quotes. -/
def quote (s : String) : String := String.ofList ('"' :: (encode s.toList ++ ['"']))

@[simp] theorem toList_quote (s : String) :
    (quote s).toList = '"' :: (encode s.toList ++ ['"']) := by
  simp [quote]

/-- No character is written as nothing. -/
theorem escape_ne_nil (c : Char) : escape c ≠ [] := by
  unfold escape
  repeat' split
  all_goals simp

end LosslessSyntax.Text.Quoted
