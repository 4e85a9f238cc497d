import LosslessSyntax.Event.Recorder
import LosslessSyntax.Operator

/-!
# Grammar — definitions and arithmetic

A file is a run of statements: definitions `let name = expression` and bare expressions, with
semicolons wherever they please.  An expression is a number, a name, a negation, a parenthesised
expression or a binary operation, and operators bind by power: a product tighter than a sum, a
negation tighter than both, and operators of one power to the left.

A rule never fails.  What it misses it complains about, and a token it cannot use becomes an error
node unless it is one that an enclosing rule is waiting for.
-/

namespace LosslessSyntax.Grammar

open SyntaxKind Recorder

/-! ## Expressions -/

/-- Where an expression is missed, these tokens are left to the enclosing rule. -/
def expressionStops : KindSet := .ofList [letKw, semi, rParen]

/-- A rule that may have recorded a node. -/
abbrev Rule := Recorder → Option ClosedNode × Recorder

/-- A node that consists of the next token, which must be of a kind. -/
def leaf (token node : SyntaxKind) (r : Recorder) : ClosedNode × Recorder :=
  let r := r.insist token
  let (n, r) := r.start
  r.take.close n node

/-- A number. -/
def number : Recorder → ClosedNode × Recorder := leaf intNumber literal

/-- The use of a name. -/
def reference : Recorder → ClosedNode × Recorder := leaf ident nameRef

/-- A negation, with the rule for expressions that bind at least as tightly as given. -/
def negation (expr : Nat → Rule) (r : Recorder) : ClosedNode × Recorder :=
  let (n, r) := r.start
  let (_, r) := expr UnaryOperator.negate.power r.take
  r.close n prefixExpr

/-- An expression in parentheses. -/
def parenthesised (expr : Nat → Rule) (r : Recorder) : ClosedNode × Recorder :=
  let r := r.insist lParen
  let (n, r) := r.start
  let (_, r) := expr 0 r.take
  let (_, r) := r.expect rParen
  r.close n parenExpr

/-- An operand: an expression up to its first operator. -/
def operand (expr : Nat → Rule) : Rule := fun r =>
  match r.peek with
  | (some .intNumber, r) => let (n, r) := number r; (some n, r)
  | (some .ident, r) => let (n, r) := reference r; (some n, r)
  | (some .minus, r) => let (n, r) := negation expr r; (some n, r)
  | (some .lParen, r) => let (n, r) := parenthesised expr r; (some n, r)
  | (_, r) => (none, r.recover .expectedExpression expressionStops)

/-- The operators behind an operand, as long as they bind at least as tightly as `power`, each
enclosing what stands to its left. -/
def operations (expr : Nat → Rule) (power : Nat) : Nat → ClosedNode → Recorder →
    ClosedNode × Recorder
  | 0, n, r => (n, r)
  | fuel + 1, n, r =>
    match r.peek with
    | (none, r) => (n, r)
    | (some kind, r) =>
      match BinaryOperator.ofKind? kind with
      | none => (n, r)
      | some op =>
        if op.leftPower < power then (n, r)
        else
          let (m, r) := r.enclose n
          let (_, r) := expr op.rightPower r.take
          let (n, r) := r.close m binExpr
          operations expr power fuel n r

/-- An expression whose operators bind at least as tightly as given.  Every level of nesting and
every operator reads a token, so more fuel than there are tokens is never used up. -/
def expressionWith : Nat → Nat → Rule
  | 0, _ => fun r => (none, r)
  | fuel + 1, power => fun r =>
    match operand (expressionWith fuel) r with
    | (none, r) => (none, r)
    | (some n, r) =>
      let (n, r) := operations (expressionWith fuel) power fuel n r
      (some n, r)

/-- An expression, if one starts here. -/
def expression : Rule := fun r => expressionWith (r.stream.length + 1) 0 r

/-! ## Statements -/

/-- Where a name is missed, these tokens are left to the definition. -/
def nameStops : KindSet := .ofList [eq, letKw, semi, rParen]

/-- The name that a definition introduces. -/
def definedName (r : Recorder) : Recorder :=
  match r.isAt ident with
  | (true, r) =>
    let (n, r) := r.start
    (r.take.close n name).2
  | (false, r) => r.recover .expectedName nameStops

/-- A definition. -/
def definition (r : Recorder) : ClosedNode × Recorder :=
  let r := r.insist letKw
  let (n, r) := r.start
  let r := definedName r.take
  let (_, r) := r.expect eq
  let (_, r) := expression r
  r.close n variableDef

/-- A statement: a definition or an expression. -/
def statement (r : Recorder) : Recorder :=
  match r.isAt letKw with
  | (true, r) => (definition r).2
  | (false, r) => (expression r).2

/-- Statements up to the end of the text.  Each round reads a token, so more fuel than there are
tokens is never used up. -/
def statements : Nat → Recorder → Recorder
  | 0, r => r
  | fuel + 1, r =>
    match r.isAtEnd with
    | (true, r) => r
    | (false, r) =>
      match r.eat semi with
      | (true, r) => statements fuel r
      | (false, r) =>
        match r.isAt rParen with
        | (true, r) => statements fuel (r.recover .unmatchedParen ∅)
        | (false, r) => statements fuel (statement r)

/-- A whole file. -/
def file (r : Recorder) : Recorder :=
  let (n, r) := r.start
  let r := statements (r.stream.length + 1) r
  (r.close n sourceFile).2

end LosslessSyntax.Grammar
