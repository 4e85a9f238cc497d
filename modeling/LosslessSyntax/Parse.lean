import LosslessSyntax.Event.Replay
import LosslessSyntax.Grammar
import LosslessSyntax.Lexeme.Scan
import LosslessSyntax.Text.Edit
import LosslessSyntax.Tree.Dump
import LosslessSyntax.Tree.Sink
import LosslessSyntax.View

/-!
# Parse — from text to tree

A text is cut into lexemes, the grammar records what it makes of them, and the record is replayed into
a sink that puts the tree together; then the literals are looked at once more, because a number may be
too large for any grammar to notice.  Any text has a tree, and what is wrong with it is listed beside
the tree: first what the grammar complained about, then the literals.
-/

namespace LosslessSyntax

/-- The tree of a text and what is wrong with it. -/
structure Parse where
  tree : SyntaxTree
  errors : List SyntaxError
  deriving Repr, Inhabited

namespace Parse

/-- What can keep the stages from fitting together. -/
inductive Failure
  | recorder (e : Recorder.Failure)
  | replay (e : BrokenLink)
  | sink (e : Sink.Failure)
  deriving Repr

/-- The report of a failure. -/
def Failure.message? : Failure → Option String
  | recorder e => e.message?
  | replay e => e.message?
  | sink e => e.message?

/-! ## The stages -/

/-- What the grammar makes of the tokens of a file. -/
def recording (ls : List Lexeme) : Recorder := Grammar.file (.ofTokens (ls.map Lexeme.token))

/-- The record of a file, unless the recording went wrong. -/
def record (ls : List Lexeme) : Except Failure (Array Event) :=
  match (recording ls).failure? with
  | some e => .error (.recorder e)
  | none => .ok (recording ls).log

/-- The tree that a record describes over the lexemes of a text. -/
def build (ls : List Lexeme) (log : Array Event) : Except Failure Parse :=
  let playback := Event.replay log
  match (Sink.ofLexemes ls).calls playback.calls.toList with
  | .error e => .error (.sink e)
  | .ok sink =>
    match playback.broken with
    | some e => .error (.replay e)
    | none =>
      match sink.build with
      | .error e => .error (.sink e)
      | .ok (tree, errors) => .ok ⟨tree, errors⟩

/-- The errors of literals that are out of range, in the order of the text. -/
def literalErrors (root : Element) : List SyntaxError :=
  (root.nodes.filter fun n => n.kind == .literal && n.isInteger && n.intValue?.isNone).map
    fun n => ⟨.literalTooLarge, .range n.range⟩

/-- The parse with the errors of its literals added. -/
def validated (p : Parse) : Parse :=
  { p with errors := p.errors ++ literalErrors p.tree.placed }

/-- **Parses a text.** -/
def ofText (text : String) : Except Failure Parse :=
  let ls := Lexeme.tokenize text
  match record ls with
  | .error e => .error e
  | .ok log => (build ls log).map validated

/-! ## Looking at a parse -/

/-- The text that was parsed. -/
def text (p : Parse) : String := p.tree.text

/-- The root of the tree, in its place. -/
def root (p : Parse) : Element := p.tree.placed

/-- The tree and the errors in writing. -/
def dump (p : Parse) : String := p.tree.dump p.errors

/-! ## Editing -/

/-- What can go wrong with an edit. -/
inductive EditFailure
  | outOfPlace (e : Text.Edit.OutOfPlace)
  | parse (e : Failure)

/-- The report of a failed edit; there is none for an edit that is out of place. -/
def EditFailure.message? : EditFailure → Option String
  | outOfPlace _ => none
  | parse e => e.message?

/-- The parse of the edited text. -/
def edit (p : Parse) (e : Text.Edit) : Except EditFailure Parse :=
  match e.apply p.text with
  | .error e => .error (.outOfPlace e)
  | .ok text =>
    match ofText text with
    | .error e => .error (.parse e)
    | .ok q => .ok q

/-- The parses after each of some edits, up to the first that fails. -/
def edits (p : Parse) : List Text.Edit → List Parse × Option EditFailure
  | [] => ([], none)
  | e :: es =>
    match p.edit e with
    | .error f => ([], some f)
    | .ok q =>
      let (ps, f) := q.edits es
      (q :: ps, f)

end Parse

end LosslessSyntax
