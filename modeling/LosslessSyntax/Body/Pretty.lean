import LosslessSyntax.Body

/-!
# Body/Pretty — bodies in writing

Every statement has a line.  Every operation is in parentheses, so that the written form shows how the
operands are grouped, and what is missing says so.
-/

namespace LosslessSyntax.Body

/-- How an operator between two operands is written; one that is absent is a question mark. -/
def symbol : Option BinaryOperator → String
  | some op => op.symbol
  | none => "?"

/-- The written form of an expression.  Operands come before what is made of them, so a bound above
the number of the expression is above those of all its operands; an expression at or beyond its bound
is not written. -/
def renderExpr (b : Body) : (bound : Nat) → ExprId → String
  | 0, _ => ""
  | bound + 1, id =>
    match b.exprs[id]? with
    | none => ""
    | some .missing => "<missing>"
    | some (.int n) => Text.Integer.render n
    | some (.var name) => name.text
    | some (.unary op operand) => "(" ++ op.symbol ++ b.renderExpr bound operand ++ ")"
    | some (.binary op lhs rhs) =>
      "(" ++ b.renderExpr bound lhs ++ " " ++ symbol op ++ " " ++ b.renderExpr bound rhs ++ ")"

/-- The line of a statement. -/
def renderStmt (b : Body) : Stmt → String
  | .define name value => "let " ++ name.text ++ " = " ++ b.renderExpr b.exprs.size value ++ "\n"
  | .expr value => b.renderExpr b.exprs.size value ++ "\n"

/-- **The written form of a body.** -/
def pretty (b : Body) : String := String.join (b.statements.toList.map b.renderStmt)

end LosslessSyntax.Body
