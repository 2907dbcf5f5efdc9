/-
Operators and the small closed vocabularies of the syntax.

Every vocabulary is an enumeration with the text of each member (`text`), and
a member is found again by its text (`ofText?`).
-/
namespace EsFront

/-- How a name was introduced. -/
inductive DeclKind where
  | var
  /-- By `let`. -/
  | lexical
  | const
  | argument
  | function
  /-- As the parameter of a catch clause. -/
  | caught
deriving DecidableEq, Repr, Inhabited

namespace DeclKind

def text : DeclKind → String
  | var => "var"
  | lexical => "let"
  | const => "const"
  | argument => "argument"
  | function => "function"
  | caught => "catch"

/-- The kind of a variable declaration by its keyword. -/
def ofKeyword? (keyword : String) : Option DeclKind :=
  [var, lexical, const].find? (·.text = keyword)

/-- Whether the name is bound in the block around it, not in the function. -/
def isBlockScoped : DeclKind → Bool
  | lexical | const | caught => true
  | var | argument | function => false

def isConst (kind : DeclKind) : Bool := kind = const

end DeclKind

/-- Operators with two operands that are always evaluated. -/
inductive BinaryOperator where
  | equal
  | notEqual
  | strictEqual
  | strictNotEqual
  | lessThan
  | lessThanEqual
  | greaterThan
  | greaterThanEqual
  | leftShift
  | rightShift
  | unsignedRightShift
  | add
  | subtract
  | multiply
  | divide
  | remainder
  | bitwiseOr
  | bitwiseXor
  | bitwiseAnd
  | isIn
  | instanceOf
deriving DecidableEq, Repr, Inhabited

namespace BinaryOperator

def all : List BinaryOperator :=
  [equal, notEqual, strictEqual, strictNotEqual, lessThan, lessThanEqual, greaterThan,
    greaterThanEqual, leftShift, rightShift, unsignedRightShift, add, subtract, multiply,
    divide, remainder, bitwiseOr, bitwiseXor, bitwiseAnd, isIn, instanceOf]

def text : BinaryOperator → String
  | equal => "=="
  | notEqual => "!="
  | strictEqual => "==="
  | strictNotEqual => "!=="
  | lessThan => "<"
  | lessThanEqual => "<="
  | greaterThan => ">"
  | greaterThanEqual => ">="
  | leftShift => "<<"
  | rightShift => ">>"
  | unsignedRightShift => ">>>"
  | add => "+"
  | subtract => "-"
  | multiply => "*"
  | divide => "/"
  | remainder => "%"
  | bitwiseOr => "|"
  | bitwiseXor => "^"
  | bitwiseAnd => "&"
  | isIn => "in"
  | instanceOf => "instanceof"

def ofText? (text : String) : Option BinaryOperator := all.find? (·.text = text)

end BinaryOperator

/-- Operators whose second operand may be left unevaluated. -/
inductive LogicalOperator where
  | or
  | and
deriving DecidableEq, Repr, Inhabited

namespace LogicalOperator

def text : LogicalOperator → String
  | or => "||"
  | and => "&&"

def ofText? (text : String) : Option LogicalOperator := [or, and].find? (·.text = text)

end LogicalOperator

/-- Assignment, plain or combined with an operation. -/
inductive AssignmentOperator where
  | assign
  | addAssign
  | subtractAssign
  | multiplyAssign
  | divideAssign
  | remainderAssign
  | leftShiftAssign
  | rightShiftAssign
  | unsignedRightShiftAssign
  | bitwiseOrAssign
  | bitwiseXorAssign
  | bitwiseAndAssign
deriving DecidableEq, Repr, Inhabited

namespace AssignmentOperator

def all : List AssignmentOperator :=
  [assign, addAssign, subtractAssign, multiplyAssign, divideAssign, remainderAssign,
    leftShiftAssign, rightShiftAssign, unsignedRightShiftAssign, bitwiseOrAssign,
    bitwiseXorAssign, bitwiseAndAssign]

def text : AssignmentOperator → String
  | assign => "="
  | addAssign => "+="
  | subtractAssign => "-="
  | multiplyAssign => "*="
  | divideAssign => "/="
  | remainderAssign => "%="
  | leftShiftAssign => "<<="
  | rightShiftAssign => ">>="
  | unsignedRightShiftAssign => ">>>="
  | bitwiseOrAssign => "|="
  | bitwiseXorAssign => "^="
  | bitwiseAndAssign => "&="

def ofText? (text : String) : Option AssignmentOperator := all.find? (·.text = text)

end AssignmentOperator

/-- Operators in front of one operand. -/
inductive UnaryOperator where
  | minus
  | plus
  | not
  | bitwiseNot
  | typeOf
  | void
  | delete
deriving DecidableEq, Repr, Inhabited

namespace UnaryOperator

def all : List UnaryOperator := [minus, plus, not, bitwiseNot, typeOf, void, delete]

def text : UnaryOperator → String
  | minus => "-"
  | plus => "+"
  | not => "!"
  | bitwiseNot => "~"
  | typeOf => "typeof"
  | void => "void"
  | delete => "delete"

def ofText? (text : String) : Option UnaryOperator := all.find? (·.text = text)

/-- Whether the operator is a word, which needs a blank after it. -/
def isKeyword : UnaryOperator → Bool
  | typeOf | void | delete => true
  | minus | plus | not | bitwiseNot => false

end UnaryOperator

/-- Increment and decrement. -/
inductive UpdateOperator where
  | increment
  | decrement
deriving DecidableEq, Repr, Inhabited

namespace UpdateOperator

def text : UpdateOperator → String
  | increment => "++"
  | decrement => "--"

def ofText? (text : String) : Option UpdateOperator :=
  [increment, decrement].find? (·.text = text)

end UpdateOperator

/-- The kinds of members of an object literal. -/
inductive PropertyKind where
  | init
  | get
  | set
deriving DecidableEq, Repr, Inhabited

namespace PropertyKind

def text : PropertyKind → String
  | init => "init"
  | get => "get"
  | set => "set"

def ofText? (text : String) : Option PropertyKind := [init, get, set].find? (·.text = text)

end PropertyKind

/-- Comments between delimiters, and comments up to the end of the line. -/
inductive CommentKind where
  | block
  | line
deriving DecidableEq, Repr, Inhabited

namespace CommentKind

def text : CommentKind → String
  | block => "Block"
  | line => "Line"

def ofText? (text : String) : Option CommentKind := [block, line].find? (·.text = text)

end CommentKind

end EsFront
