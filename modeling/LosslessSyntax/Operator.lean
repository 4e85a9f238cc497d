import LosslessSyntax.Kind

/-!
# Operator — the operators of arithmetic and how tightly they bind

An operator between two operands binds each of them with a power.  A product binds tighter than a sum,
a negation tighter than both, and every operator binds tighter on its right than on its left, which
makes a chain of operators of one power lean to the left.
-/

namespace LosslessSyntax

/-- The operators that stand between two operands. -/
inductive BinaryOperator
  | add | subtract | multiply | divide
  deriving DecidableEq, Repr, Inhabited

namespace BinaryOperator

/-- The operator a token stands for. -/
def ofKind? : SyntaxKind → Option BinaryOperator
  | .plus => some add
  | .minus => some subtract
  | .star => some multiply
  | .slash => some divide
  | _ => none

/-- The name of an operator. -/
def label : BinaryOperator → String
  | add => "Add"
  | subtract => "Subtract"
  | multiply => "Multiply"
  | divide => "Divide"

/-- The written form of an operator. -/
def symbol : BinaryOperator → String
  | add => "+"
  | subtract => "-"
  | multiply => "*"
  | divide => "/"

/-- How tightly an operator binds the operand on its left. -/
def leftPower : BinaryOperator → Nat
  | add | subtract => 1
  | multiply | divide => 3

/-- How tightly an operator binds the operand on its right. -/
def rightPower : BinaryOperator → Nat
  | add | subtract => 2
  | multiply | divide => 4

theorem leftPower_lt_rightPower (op : BinaryOperator) : op.leftPower < op.rightPower := by
  cases op <;> decide

end BinaryOperator

/-- The operators that stand in front of an operand. -/
inductive UnaryOperator
  | negate
  deriving DecidableEq, Repr, Inhabited

namespace UnaryOperator

/-- The operator a token stands for. -/
def ofKind? : SyntaxKind → Option UnaryOperator
  | .minus => some negate
  | _ => none

/-- The name of an operator. -/
def label : UnaryOperator → String
  | negate => "Neg"

/-- The written form of an operator. -/
def symbol : UnaryOperator → String
  | negate => "-"

/-- How tightly an operator binds its operand. -/
def power : UnaryOperator → Nat
  | negate => 5

/-- An operator in front of an operand binds tighter than any between two operands. -/
theorem rightPower_lt_power (op : BinaryOperator) (u : UnaryOperator) : op.rightPower < u.power := by
  cases op <;> cases u <;> decide

end UnaryOperator

end LosslessSyntax
