/-
Precedences of expressions.

A precedence is a number; an operand is put in parentheses when its own
precedence is below the least one that its place accepts. All operators with
two operands associate to the left, so the right operand must bind tighter
than the operator.
-/
import EsFront.Syntax.Form

namespace EsFront

/-- How tightly an expression binds. -/
abbrev Precedence := Nat

namespace Precedence

/-- Accepts every expression. -/
def lowest : Precedence := 0

def sequence : Precedence := 1

/-- Assignments; also the least for arguments, elements and initial values,
where a bare comma would change the meaning. -/
def assignment : Precedence := 2

def conditional : Precedence := 3

def logicalOr : Precedence := 4

def logicalAnd : Precedence := 5

/-- Operators in front of their operand. -/
def unary : Precedence := 15

/-- Operators after their operand. -/
def afterOperand : Precedence := 16

/-- Member access, calls and `new` with arguments. -/
def callMember : Precedence := 18

/-- Names, literals, `this`, arrays, objects and functions. -/
def primary : Precedence := 19

end Precedence

/-- The precedence of an operator with two operands. -/
def BinaryOperator.precedence : BinaryOperator → Precedence
  | bitwiseOr => 6
  | bitwiseXor => 7
  | bitwiseAnd => 8
  | equal | notEqual | strictEqual | strictNotEqual => 9
  | lessThan | lessThanEqual | greaterThan | greaterThanEqual | isIn | instanceOf => 10
  | leftShift | rightShift | unsignedRightShift => 11
  | add | subtract => 12
  | multiply | divide | remainder => 13

/-- The precedence of a logical operator. -/
def LogicalOperator.precedence : LogicalOperator → Precedence
  | or => .logicalOr
  | and => .logicalAnd

/-- The least precedence of a left operand. -/
def Precedence.leftOperand (p : Precedence) : Precedence := p

/-- The least precedence of a right operand. -/
def Precedence.rightOperand (p : Precedence) : Precedence := p + 1

/-- The precedence of a form; that of a name for all that is no expression. -/
def Form.precedence {kind : NodeKind} {slots : List Slot} : Form kind slots → Precedence
  | .sequenceExpression => .sequence
  | .assignmentExpression _ => .assignment
  | .conditionalExpression => .conditional
  | .logicalExpression op => op.precedence
  | .binaryExpression op => op.precedence
  | .unaryExpression _ => .unary
  | .updateExpression _ before => if before then .unary else .afterOperand
  | .callExpression | .newExpression | .memberExpression _ => .callMember
  | _ => .primary

end EsFront
