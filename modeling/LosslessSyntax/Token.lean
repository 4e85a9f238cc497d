import LosslessSyntax.Kind

/-!
# Token — pieces of source text, with and without their wording

A `Lexeme` is a kind together with the word that bears it; a `Token` keeps of the word only its
length in bytes, which is all that the grammar may know.  Words laid end to end give back the text
they were cut from.
-/

namespace LosslessSyntax

/-- A kind and a length in bytes. -/
structure Token where
  kind : SyntaxKind
  length : Nat
  deriving DecidableEq, Repr, Inhabited

/-- A kind and the word that bears it. -/
structure Lexeme where
  kind : SyntaxKind
  text : String
  deriving DecidableEq, Repr, Inhabited

namespace Lexeme

/-- The length of the word in bytes. -/
def length (l : Lexeme) : Nat := l.text.utf8ByteSize

/-- What is left of a lexeme once its wording is forgotten. -/
def token (l : Lexeme) : Token := ⟨l.kind, l.length⟩

/-- Whether the grammar passes the lexeme over. -/
def isTrivia (l : Lexeme) : Bool := l.kind.isTrivia

@[simp] theorem kind_token (l : Lexeme) : l.token.kind = l.kind := rfl

@[simp] theorem length_token (l : Lexeme) : l.token.length = l.length := rfl

end Lexeme

/-- The text that lexemes spell, laid end to end. -/
def Lexeme.spell (ls : List Lexeme) : String := String.join (ls.map (·.text))

@[simp] theorem Lexeme.spell_nil : spell [] = "" := rfl

@[simp] theorem Lexeme.spell_cons (l : Lexeme) (ls : List Lexeme) :
    spell (l :: ls) = l.text ++ spell ls := by
  rw [spell, List.map_cons, String.join_cons, spell]

@[simp] theorem Lexeme.spell_append (ls ms : List Lexeme) :
    spell (ls ++ ms) = spell ls ++ spell ms := by
  rw [spell, List.map_append, String.join_append, spell, spell]

end LosslessSyntax
