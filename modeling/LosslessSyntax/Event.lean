import LosslessSyntax.SyntaxError
import LosslessSyntax.Text.Quoted

/-!
# Event — the flat record of a parse

The grammar writes down what it does instead of building a tree.  A node is a `start` and a later
`finish`, with the tokens and nodes between them as its children; a node that has to be wrapped after
the fact links from its `start` to the later `start` of its wrapper by the distance between the two.
A `hole` keeps the place of a `start` whose kind is not known yet.

`Call` is what such a record says once the links are resolved: the instructions to build a tree, in
the order in which they must be carried out.
-/

namespace LosslessSyntax

/-- An entry of the record of a parse. -/
inductive Event
  /-- A node begins; its wrapper, if any, begins `wrapper` entries later. -/
  | start (kind : SyntaxKind) (wrapper : Option Nat)
  /-- The next token that is not trivia belongs here. -/
  | token
  /-- The node begun last ends. -/
  | finish
  /-- Something is wrong here. -/
  | error (complaint : Complaint)
  /-- The place of a node that has not been given a kind, or that has been dealt with. -/
  | hole
  deriving DecidableEq, Repr, Inhabited

namespace Event

/-- Whether an entry begins a node. -/
def isStart : Event → Bool
  | start .. => true
  | _ => false

/-- The name under which reports of a damaged record show an entry. -/
def describe : Event → String
  | start kind none => s!"StartNode \x7b kind: {kind.label}, forward_parent: None \x7d"
  | start kind (some d) => s!"StartNode \x7b kind: {kind.label}, forward_parent: Some({d}) \x7d"
  | token => "AddToken"
  | finish => "FinishNode"
  | error c => s!"Error \x7b msg: ParseError({Text.Quoted.quote c.message}) \x7d"
  | hole => "Placeholder"

end Event

/-- An instruction for building a tree. -/
inductive Call
  /-- Begin a node inside the current one and make it the current one. -/
  | start (kind : SyntaxKind)
  /-- Add the next token that is not trivia to the current node. -/
  | token
  /-- End the current node. -/
  | finish
  /-- Note that something is wrong here. -/
  | error (complaint : Complaint)
  deriving DecidableEq, Repr, Inhabited

end LosslessSyntax
