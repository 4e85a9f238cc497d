import LosslessSyntax.Body.Lower
import LosslessSyntax.Parse

/-!
# Journal — what the stages report about their work

Each stage says how much it has done: how many lexemes it cut, how many entries it recorded, how many
errors it met, which definitions it dropped, how much it read off the tree.  A journal is read off the
values that pass between the stages.
-/

namespace LosslessSyntax

/-- How much detail an entry of a journal goes into. -/
inductive Level
  | trace | debug
  deriving DecidableEq, Repr

/-- The name of a level. -/
def Level.label : Level → String
  | trace => "TRACE"
  | debug => "DEBUG"

/-- An entry of a journal. -/
inductive Notice
  | tokenized (tokens : Nat)
  | recorded (events : Nat)
  | parsed (bytes errors : Nat)
  | dropped (definition : TextRange)
  | lowered (statements expressions : Nat)
  deriving DecidableEq, Repr

namespace Notice

/-- The level of an entry. -/
def level : Notice → Level
  | tokenized _ | recorded _ | dropped _ => .trace
  | parsed .. | lowered .. => .debug

/-- The wording of an entry. -/
def message : Notice → String
  | tokenized n => s!"tokenized input into {n} tokens"
  | recorded n => s!"grammar produced {n} events"
  | parsed b n => s!"parsed {b} bytes with {n} syntax error(s)"
  | dropped r => s!"dropping variable definition without a name at {r.render}"
  | lowered s e => s!"lowered {s} statements into {e} expressions"

end Notice

/-- The journal of parsing a text and reading its body. -/
def journal (text : String) : Except Parse.Failure (List Notice) :=
  let ls := Lexeme.tokenize text
  match Parse.record ls with
  | .error e => .error e
  | .ok log =>
    match Parse.build ls log with
    | .error e => .error e
    | .ok p =>
      let s := Lowering.ofFile p.root
      .ok ([.tokenized ls.length, .recorded log.size, .parsed text.utf8ByteSize p.errors.length] ++
        s.dropped.toList.map .dropped ++ [.lowered s.statements.size s.exprs.size])

end LosslessSyntax
