import LosslessSyntax.Kind
import LosslessSyntax.Text.Range

/-!
# SyntaxError — what is wrong with a text, and where

An error never stops the reading of a text: errors are collected beside the tree.  What is wrong is a
`Complaint`, whose wording is one function; where it is wrong is either a single place or a range.
-/

namespace LosslessSyntax

/-- What is wrong with a text. -/
inductive Complaint
  /-- A token of a given kind is missing. -/
  | expected (kind : SyntaxKind)
  /-- A definition has no name. -/
  | expectedName
  /-- An operand, a value or a statement is missing. -/
  | expectedExpression
  /-- A closing parenthesis closes nothing. -/
  | unmatchedParen
  /-- An integer literal is beyond the range of integers. -/
  | literalTooLarge
  /-- Anything else, in the words of the one who noticed it. -/
  | other (text : String)
  deriving DecidableEq, Repr, Inhabited

/-- The wording of a complaint. -/
def Complaint.message : Complaint → String
  | expected kind => s!"expected {kind.label}"
  | expectedName => "expected a name"
  | expectedExpression => "expected expression"
  | unmatchedParen => "unmatched ')'"
  | literalTooLarge => "integer literal is too large"
  | other text => text

/-- Where a text is wrong. -/
inductive Location
  | offset (n : Nat)
  | range (r : TextRange)
  deriving DecidableEq, Repr, Inhabited

namespace Location

/-- The place where the trouble begins. -/
def start : Location → Nat
  | offset n => n
  | range r => r.start

/-- The place where the trouble ends. -/
def stop : Location → Nat
  | offset n => n
  | range r => r.stop

/-- The written form of a location. -/
def render : Location → String
  | offset n => toString n
  | range r => r.render

end Location

/-- A complaint and the place it is about. -/
structure SyntaxError where
  complaint : Complaint
  location : Location
  deriving DecidableEq, Repr, Inhabited

namespace SyntaxError

/-- The wording of an error. -/
def message (e : SyntaxError) : String := e.complaint.message

/-- The line that reports an error, with its location. -/
def line (e : SyntaxError) : String := s!"error {e.location.render}: {e.message}"

end SyntaxError

end LosslessSyntax
