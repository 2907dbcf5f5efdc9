/-
A printer that writes as it goes.

The printer appends to its output and keeps the level of indentation, which it
raises before the lines inside a node and lowers after them. What it writes for
a node is put together from what it writes for the node's children
(`Printer.Part`); what has to be known of a child's text, such as how tightly it
binds, is taken from its printed form. (`Program.print` gives the text as a
function of the program instead.)
-/
import EsFront.Print.Program

namespace EsFront

structure Printer where
  options : PrintOptions
  output : String
  /-- The level of indentation. -/
  level : Nat
  /-- How often the level was to be lowered although it was zero. -/
  underflows : Nat
deriving DecidableEq, Repr, Inhabited

/-- A step of the printer. -/
abbrev Printing := StateM Printer

namespace Printer

/-- A printer that has written nothing. -/
def new (options : PrintOptions) : Printer := ⟨options, "", 0, 0⟩

/-! ### Output and indentation -/

def write (text : String) : Printing Unit :=
  modify fun printer => { printer with output := printer.output ++ text }

def writeNewLine : Printing Unit := do
  write (← get).options.newLine

def writeIndent : Printing Unit := do
  let printer ← get
  write (repeated printer.options.indent printer.level)

/-- Ends the line and indents the next. -/
def writeLine : Printing Unit := do
  writeNewLine
  writeIndent

def raiseIndent : Printing Unit :=
  modify fun printer => { printer with level := printer.level + 1 }

/-- Lowers the level, which stays at zero. -/
def lowerIndent : Printing Unit :=
  modify fun printer =>
    if 0 < printer.level then { printer with level := printer.level - 1 }
    else { printer with underflows := printer.underflows + 1 }

/-- Writes something one level further in. -/
def indented (act : Printing Unit) : Printing Unit := do
  raiseIndent
  act
  lowerIndent

/-- Writes something between a pair of brackets. -/
def enclose (bracket : Bracket) (act : Printing Unit) : Printing Unit := do
  write bracket.openingText
  act
  write bracket.closingText

/-- Writes things with a comma and a blank between any two. -/
def separate : List (Printing Unit) → Printing Unit
  | [] => pure ()
  | [act] => act
  | act :: next :: rest => do
    act
    write ", "
    separate (next :: rest)

/-- Writes a text and something behind it, if there is something. -/
def behind (text : String) : Option (Printing Unit) → Printing Unit
  | none => pure ()
  | some act => do
    write text
    act

/-! ### Comments -/

def writeComment (c : Comment) : Printing Unit :=
  match c.kind with
  | .block => do
    write "/*"
    write c.value
    write "*/"
  | .line => do
    write "//"
    write c.value

/-- Writes something if comments are wanted. -/
def ifComments (act : Printing Unit) : Printing Unit := do
  if (← get).options.preserveComments then act else pure ()

/-- Comments in front of a node, each on a line of its own. -/
def writeLeading (comments : List Comment) : Printing Unit :=
  ifComments <| comments.forM fun c => do
    writeComment c
    writeLine

/-- Comments in front of a program. -/
def writeUnattached (comments : List Comment) : Printing Unit :=
  ifComments <| comments.forM fun c => do
    writeComment c
    writeNewLine

/-! ### Children -/

/-- How a node is written. -/
structure Part where
  /-- The comments in front of it. -/
  comments : List Comment
  /-- What is known of its text. -/
  shape : Printed
  /-- Writes it without those comments. -/
  body : Printing Unit
  /-- Writes it in the head of a loop, where that differs. -/
  inHead? : Option (Printing Unit)
  /-- Writes the parameters and body of a function expression. -/
  accessor? : Option (Printing Unit)

namespace Part

/-- An expression where at least the given precedence is asked for. -/
def expression (part : Part) (least : Precedence) : Printing Unit :=
  if part.shape.precedence < least then enclose .round part.body else part.body

/-- An expression in the head of a loop, where the operator `in` may stand only
in brackets. -/
def withoutIn (part : Part) (least : Precedence) : Printing Unit :=
  if part.shape.bareIn then enclose .round (part.expression .lowest) else part.expression least

/-- A declaration or an expression in the head of a loop. -/
def inHead (part : Part) : Printing Unit :=
  match part.inHead? with
  | some act => act
  | none => part.withoutIn .lowest

/-- A statement with its comments. -/
def statement (part : Part) : Printing Unit := do
  writeLeading part.comments
  part.body

end Part

/-- Statements, each on a line of its own. -/
def writeLines (parts : List Part) : Printing Unit :=
  parts.forM fun part => do
    writeLine
    part.statement

/-! ### Statements -/

/-- The statements of a program. The first stands on a line that has begun. -/
def program : List Part → Printing Unit
  | [] => pure ()
  | first :: rest => do
    first.statement
    writeLines rest

def block (body : List Part) : Printing Unit :=
  enclose .curly <|
    if body.isEmpty then pure ()
    else do
      indented (writeLines body)
      writeLine

/-- An expression as a statement. -/
def expressionStatement (e : Part) : Printing Unit := do
  if e.shape.opensStatement then enclose .round (e.expression .lowest) else e.expression .lowest
  write ";"

/-- The consequent of an `if` with an `else`, in braces when the `else` would
belong to an `if` inside it. -/
def closedConsequent (consequent : Part) : Printing Unit :=
  if consequent.shape.openIf then
    enclose .curly do
      indented do
        writeLine
        consequent.statement
      writeLine
  else consequent.statement

def ifStatement (test consequent : Part) (alternate : Option Part) : Printing Unit := do
  write "if "
  enclose .round (test.expression .lowest)
  write " "
  match alternate with
  | none => consequent.statement
  | some alternate => do
    closedConsequent consequent
    write " else "
    alternate.statement

def switchCase (test : Option Part) (consequent : List Part) : Printing Unit := do
  match test with
  | some test => do
    write "case "
    test.expression .lowest
    write ":"
  | none => write "default:"
  indented (writeLines consequent)

def switchStatement (discriminant : Part) (cases : List Part) : Printing Unit := do
  write "switch "
  enclose .round (discriminant.expression .lowest)
  write " "
  enclose .curly do
    indented <| cases.forM fun part => do
      writeLine
      part.body
    writeLine

def tryStatement (block : Part) (handler finalizer : Option Part) : Printing Unit := do
  write "try "
  block.body
  behind " catch " (handler.map Part.body)
  behind " finally " (finalizer.map Part.body)

def forStatement (init test update : Option Part) (body : Part) : Printing Unit := do
  write "for "
  enclose .round do
    (init.map Part.inHead).getD (pure ())
    write ";"
    behind " " (test.map (Part.expression · .lowest))
    write ";"
    behind " " (update.map (Part.expression · .lowest))
  write " "
  body.statement

/-- A declaration without the semicolon, given how its declarators are written. -/
def declaration (kind : DeclKind) (declarators : List (Printing Unit)) : Printing Unit := do
  write (kind.text ++ " ")
  separate declarators

/-- A declarator, given how its initial value is written. -/
def declarator (id : Part) (init : Option Part) (value : Part → Precedence → Printing Unit) :
    Printing Unit := do
  id.body
  behind " = " (init.map (value · .assignment))

def parameters (params : List Part) : Printing Unit :=
  enclose .round (separate (params.map Part.body))

def functionTail (params : List Part) (body : Part) : Printing Unit := do
  parameters params
  write " "
  body.body

def function (generator : Bool) (name : Option Part) (params : List Part) (body : Part) :
    Printing Unit := do
  write (if generator then "function*" else "function")
  behind " " (name.map Part.body)
  functionTail params body

/-! ### Expressions -/

def arguments (parts : List Part) : Printing Unit :=
  enclose .round (separate (parts.map (Part.expression · .assignment)))

/-- An array. A hole at the end needs a comma of its own. -/
def array (elements : List (Option Part)) : Printing Unit :=
  enclose .square do
    separate (elements.map fun e => (e.map (Part.expression · .assignment)).getD (pure ()))
    match elements.getLast? with
    | some none => write ","
    | _ => pure ()

def object (properties : List Part) : Printing Unit :=
  enclose .curly <|
    if properties.isEmpty then pure ()
    else do
      write " "
      separate (properties.map Part.body)
      write " "

def propertyKey (computed : Bool) (key : Part) : Printing Unit :=
  if computed then enclose .square (key.expression .assignment) else key.expression .primary

def property (kind : PropertyKind) (computed shorthand : Bool) (key value : Part) :
    Printing Unit :=
  match if kind = .init then none else value.accessor? with
  | some tail => do
    write (kind.text ++ " ")
    propertyKey computed key
    tail
  | none =>
    if shorthand && !computed && value.shape.isIdentifier then value.expression .assignment
    else do
      propertyKey computed key
      write ": "
      value.expression .assignment

def unary (op : UnaryOperator) (argument : Part) : Printing Unit := do
  write (if op.isKeyword || signClash op argument.shape then op.text ++ " " else op.text)
  argument.expression .unary

def update (op : UpdateOperator) (before : Bool) (argument : Part) : Printing Unit :=
  if before then do
    write op.text
    argument.expression .callMember
  else do
    argument.expression .callMember
    write op.text

/-- An operator between its operands. -/
def between (left : Printing Unit) (op : String) (right : Printing Unit) : Printing Unit := do
  left
  write " "
  write op
  write " "
  right

/-- The operand of `new`. -/
def callee (part : Part) : Printing Unit :=
  if part.shape.containsCall then enclose .round (part.expression .lowest)
  else part.expression .callMember

/-- The object of a member access. A number in front of a point is put in parentheses. -/
def memberObject (computed : Bool) (object : Part) : Printing Unit :=
  if object.shape.isNumber && !computed then enclose .round (object.expression .lowest)
  else object.expression .callMember

def member (computed : Bool) (object property : Part) : Printing Unit := do
  memberObject computed object
  if computed then enclose .square (property.expression .lowest)
  else do
    write "."
    property.expression .primary

/-! ### Nodes -/

section form

variable {kind : NodeKind} {slots : List Slot}

/-- Writes a node without its comments. -/
def form (form : Form kind slots) (values : Values Part slots) : Printing Unit :=
  match form, values with
  | .program .., (body, ()) => program body
  | .blockStatement, (body, ()) => block body
  | .emptyStatement, () => write ";"
  | .expressionStatement, (e, ()) => expressionStatement e
  | .ifStatement, (test, consequent, alternate, ()) => ifStatement test consequent alternate
  | .labeledStatement, (label, body, ()) => do
    label.body
    write ": "
    body.statement
  | .breakStatement, (label, ()) => do
    write "break"
    behind " " (label.map Part.body)
    write ";"
  | .continueStatement, (label, ()) => do
    write "continue"
    behind " " (label.map Part.body)
    write ";"
  | .switchStatement, (discriminant, cases, ()) => switchStatement discriminant cases
  | .returnStatement, (argument, ()) => do
    write "return"
    behind " " (argument.map (Part.expression · .lowest))
    write ";"
  | .throwStatement, (argument, ()) => do
    write "throw "
    argument.expression .lowest
    write ";"
  | .tryStatement, (block, handler, finalizer, ()) => tryStatement block handler finalizer
  | .whileStatement, (test, body, ()) => do
    write "while "
    enclose .round (test.expression .lowest)
    write " "
    body.statement
  | .doWhileStatement, (body, test, ()) => do
    write "do "
    body.statement
    write " while "
    enclose .round (test.expression .lowest)
    write ";"
  | .forStatement, (init, test, update, body, ()) => forStatement init test update body
  | .forInStatement, (left, right, body, ()) => do
    write "for "
    enclose .round do
      left.inHead
      write " in "
      right.expression .lowest
    write " "
    body.statement
  | .debuggerStatement, () => write "debugger;"
  | .variableDeclaration declKind, (declarators, ()) => do
    declaration declKind (declarators.map Part.body)
    write ";"
  | .variableDeclarator _, (id, init, ()) => declarator id init Part.expression
  | .functionDeclaration generator, (id, params, body, ()) =>
    function generator (some id) params body
  | .switchCase, (test, consequent, ()) => switchCase test consequent
  | .catchClause, (param, body, ()) => do
    enclose .round param.body
    write " "
    body.body
  | .property kind computed shorthand, (key, value, ()) =>
    property kind computed shorthand key value
  | .identifier name _ _, () => write name
  | .literal value raw, () => write (literalText value raw)
  | .thisExpression, () => write "this"
  | .arrayExpression, (elements, ()) => array elements
  | .objectExpression, (properties, ()) => object properties
  | .functionExpression generator, (id, params, body, ()) => function generator id params body
  | .unaryExpression op, (argument, ()) => unary op argument
  | .updateExpression op before, (argument, ()) => update op before argument
  | .binaryExpression op, (left, right, ()) =>
    between (left.expression op.precedence.leftOperand) op.text
      (right.expression op.precedence.rightOperand)
  | .logicalExpression op, (left, right, ()) =>
    between (left.expression op.precedence.leftOperand) op.text
      (right.expression op.precedence.rightOperand)
  | .assignmentExpression op, (left, right, ()) =>
    between (left.expression .callMember) op.text (right.expression .assignment)
  | .conditionalExpression, (test, consequent, alternate, ()) => do
    test.expression .logicalOr
    write " ? "
    consequent.expression .assignment
    write " : "
    alternate.expression .assignment
  | .callExpression, (callee, args, ()) => do
    callee.expression .callMember
    arguments args
  | .newExpression, (operand, args, ()) => do
    write "new "
    callee operand
    arguments args
  | .memberExpression computed, (object, property, ()) => member computed object property
  | .sequenceExpression, (expressions, ()) =>
    separate (expressions.map (Part.expression · .assignment))

/-- Writes a declaration or a declarator in the head of a loop. -/
def inHead? (form : Form kind slots) (values : Values Part slots) : Option (Printing Unit) :=
  match form, values with
  | .variableDeclaration declKind, (declarators, ()) =>
    some (declaration declKind (declarators.map Part.inHead))
  | .variableDeclarator _, (id, init, ()) => some (declarator id init Part.withoutIn)
  | _, _ => none

/-- Writes the parameters and body of a function expression. -/
def accessor? (form : Form kind slots) (values : Values Part slots) : Option (Printing Unit) :=
  match form, values with
  | .functionExpression _, (_, params, body, ()) => some (functionTail params body)
  | _, _ => none

/-- How a node is written, given how its children are. -/
def part (data : NodeData) (form : Form kind slots) (values : Values Part slots) : Part :=
  { comments := data.comments
    shape := layout [] form (Values.mapWith Part.shape slots values)
    body := Printer.form form values
    inHead? := inHead? form values
    accessor? := accessor? form values }

end form

end Printer

/-- How a node is written. -/
def Node.part {kind : NodeKind} (node : Node kind) : Printer.Part := node.fold Printer.part

namespace Printer

/-! ### Texts -/

/-- Writes a program without the line end after the last statement. -/
def writeProgram (program : Program) : Printing Unit := do
  writeUnattached program.comments
  writeIndent
  program.part.body

/-- Ends the last line if the options say so and there is any output. -/
def endOutput : Printing Unit := do
  let printer ← get
  if printer.options.trailingNewline && !printer.output.isEmpty then writeNewLine else pure ()

/-- Takes the output out of the printer. -/
def takeOutput : Printing String := do
  let printer ← get
  set { printer with output := "" }
  return printer.output

/-- The text of a program. -/
def printProgram (program : Program) : Printing String := do
  modify fun printer => { printer with output := "", level := 0 }
  writeProgram program
  endOutput
  takeOutput

/-- The text of an expression. -/
def printExpression {kind : NodeKind} (node : Node kind) : Printing String := do
  modify fun printer => { printer with output := "" }
  node.part.expression .lowest
  takeOutput

end Printer

end EsFront
