/-
The text of programs and expressions.

* `Program.print` — a whole program: its unattached comments, then its
  statements, each on a line of its own;
* `Node.printExpression` — an expression by itself.
-/
import EsFront.Print.Layout

namespace EsFront

/-- The pieces of a program without the line end after the last statement. -/
def Program.pieces (withComments : Bool) (program : Program) : List Piece :=
  let unattached := if withComments then program.comments else []
  unattached.flatMap (fun c => [.comment c, .line 0]) ++ (program.printed withComments).pieces 0

/-- The text of a program. The last line is ended too if the options say so and
there is any text. -/
def Program.print (options : PrintOptions) (program : Program) : String :=
  let text := render options (program.pieces options.preserveComments)
  if options.trailingNewline && !text.isEmpty then text ++ options.newLine else text

/-- The text of an expression where every precedence is accepted. -/
def Node.printExpression {kind : NodeKind} (options : PrintOptions) (node : Node kind) : String :=
  render options ((node.printed options.preserveComments).pieces 0)

end EsFront
