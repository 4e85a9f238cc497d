import LosslessSyntax.Operator
import LosslessSyntax.Text.Integer

/-!
# Body — what a file means

A body is a file without its spelling: statements, and expressions that refer to their operands by
number.  What a text left out is there as `missing`, so a body is never incomplete.
-/

namespace LosslessSyntax

/-- A name, for what is defined and for what is used alike. -/
structure Name where
  text : String
  deriving DecidableEq, Repr, Inhabited

/-- Names are in the order of their code points, which is also that of their bytes in UTF-8. -/
instance : Ord Name := ⟨fun a b => compare a.text b.text⟩

/-- The number of an expression of a body. -/
abbrev ExprId := Nat

/-- An expression; its operands are expressions of the same body. -/
inductive Expr
  /-- The text has no expression here, or none with a value. -/
  | missing
  | int (value : Int)
  | var (name : Name)
  | unary (op : UnaryOperator) (operand : ExprId)
  | binary (op : Option BinaryOperator) (lhs rhs : ExprId)
  deriving DecidableEq, Repr, Inhabited

/-- The operands of an expression, from left to right. -/
def Expr.operands : Expr → List ExprId
  | missing | int _ | var _ => []
  | unary _ e => [e]
  | binary _ l r => [l, r]

/-- A statement. -/
inductive Stmt
  | define (name : Name) (value : ExprId)
  | expr (value : ExprId)
  deriving DecidableEq, Repr, Inhabited

/-- The expression that a statement is about. -/
def Stmt.value : Stmt → ExprId
  | define _ e => e
  | expr e => e

/-- The statements of a file and the expressions they refer to. -/
structure Body where
  exprs : Array Expr
  statements : Array Stmt
  deriving DecidableEq, Repr, Inhabited

end LosslessSyntax
