/-
A printer has no memory.

What a printer has written before does not change what it writes: it gives the text that a
new printer with the same options gives, whatever it was asked for before. For everything
that it writes only appends to the output, the text that is appended depends on nothing
but the options and the level of indentation, and the level is afterwards what it was
before; so it is never lowered at zero. Main statement: `Printer.no_memory`.

Along the way: a printer's texts are `Program.print` and `Node.printExpression`
(`Request.perform_run`).
-/
import EsFront.Proofs.Print.Rendition

namespace EsFront

namespace Printer

/-! ### Texts -/

/-- A text that a printer is asked for. -/
inductive Request where
  | program (program : Program)
  | expression (e : AnyNode)

namespace Request

def perform : Request → Printing String
  | program p => printProgram p
  | expression e => printExpression e.node

/-- The text as a function of the program or expression. -/
def text (options : PrintOptions) : Request → String
  | program p => p.print options
  | expression e => e.node.printExpression options

end Request

section parts

variable {kind : NodeKind} (withComments : Bool) (node : Node kind)

theorem appends_part_body :
    Appends withComments node.part.body (node.printed withComments).pieces := by
  rw [← node.rendition_part withComments, ← node.rendition_printed]
  exact (node.rendition withComments).body

theorem appends_expression :
    Appends withComments (node.part.expression .lowest) (node.printed withComments).pieces := by
  rw [← node.rendition_part withComments, ← node.rendition_printed]
  exact (node.rendition withComments).expression_lowest

end parts

/-- Nothing is indented at the start of a program. -/
theorem writeProgram_run (program : Program) {printer : Printer} (h : printer.level = 0) :
    (writeProgram program).run printer
      = ((), printer.append (program.pieces printer.options.preserveComments)) := by
  have hunattached := appends_writeUnattached program.comments printer rfl
  have hindent (pieces : List Piece) :
      writeIndent.run (printer.append pieces) = ((), printer.append pieces) := by
    let indentation := repeated printer.options.indent printer.level
    have hrun : writeIndent.run (printer.append pieces)
        = ((), { printer with output := (printer.append pieces).output ++ indentation }) := rfl
    rw [hrun, show indentation = "" by simp [indentation, h, repeated], String.append_empty]
    rfl
  have hbody (pieces : List Piece) :=
    appends_part_body printer.options.preserveComments program (printer.append pieces) rfl
  have hlevel (pieces : List Piece) : (printer.append pieces).level = 0 := h
  rw [writeProgram, run_andThen hunattached, run_andThen (hindent _), hbody, hlevel,
    append_append]
  rfl

theorem endOutput_run (printer : Printer) :
    endOutput.run printer = ((), { printer with output :=
      if printer.options.trailingNewline && !printer.output.isEmpty
      then printer.output ++ printer.options.newLine else printer.output }) := by
  have hrun : endOutput.run printer
      = (if printer.options.trailingNewline && !printer.output.isEmpty
          then writeNewLine else pure ()).run printer := rfl
  rw [hrun]
  split <;> rfl

theorem takeOutput_run (printer : Printer) :
    takeOutput.run printer = (printer.output, { printer with output := "" }) := rfl

theorem printProgram_run (program : Program) (printer : Printer) :
    (printProgram program).run printer
      = (program.print printer.options, { printer with output := "", level := 0 }) := by
  let begun : Printer := { printer with output := "", level := 0 }
  have hbegun : (modify fun printer : Printer => { printer with output := "", level := 0 }
      : Printing Unit).run printer = ((), begun) := rfl
  have houtput (pieces : List Piece) :
      (begun.append pieces).output = render printer.options pieces := String.empty_append
  rw [printProgram, run_andThen hbegun, run_andThen (writeProgram_run program rfl),
    run_andThen (endOutput_run _), takeOutput_run, houtput]
  rfl

theorem printExpression_run {kind : NodeKind} (node : Node kind) (printer : Printer) :
    (printExpression node).run printer
      = (render printer.options
          ((node.printed printer.options.preserveComments).pieces printer.level),
        { printer with output := "" }) := by
  let begun : Printer := { printer with output := "" }
  have hbegun : (modify fun printer : Printer => { printer with output := "" }
      : Printing Unit).run printer = ((), begun) := rfl
  have houtput (pieces : List Piece) :
      (begun.append pieces).output = render printer.options pieces := String.empty_append
  rw [printExpression, run_andThen hbegun,
    run_andThen (appends_expression printer.options.preserveComments node begun rfl),
    takeOutput_run, houtput]
  rfl

/-- A text is the one that the printed form gives. -/
theorem Request.perform_run (request : Request) (options : PrintOptions) :
    request.perform.run (new options) = (request.text options, new options) := by
  cases request with
  | program p => exact printProgram_run p (new options)
  | expression e => exact printExpression_run e.node (new options)

/-- After any number of texts the printer is as new. -/
theorem requests_run (options : PrintOptions) : ∀ requests : List Request,
    (requests.mapM Request.perform).run (new options)
      = (requests.map (Request.text options), new options)
  | [] => rfl
  | request :: requests => by
    have hrun : ((request :: requests).mapM Request.perform).run (new options)
        = ((request.perform.run (new options)).1 ::
              ((requests.mapM Request.perform).run (request.perform.run (new options)).2).1,
            ((requests.mapM Request.perform).run (request.perform.run (new options)).2).2) := by
      rw [List.mapM_cons]
      rfl
    rw [hrun, request.perform_run, requests_run options requests]
    rfl

/-! ### Parts of texts -/

/-- Something that a printer writes on the way. -/
inductive Call where
  | comment (c : Comment)
  | leadingComments (comments : List Comment)
  | statement (any : AnyNode)
  /-- A node without the comments in front of it, whatever its form: a block, an `if`, a
  `switch`, a `try`, a loop, an object, a property, a literal, a name, … -/
  | node (any : AnyNode)
  /-- The beginning of the head of a loop. -/
  | inHead (any : AnyNode)
  | expression (e : AnyNode) (least : Precedence)
  | withoutIn (e : AnyNode) (least : Precedence)
  /-- A declaration without the semicolon, in the head of a loop or elsewhere. -/
  | declaration (noIn : Bool) (kind : DeclKind) (declarators : List AnyNode)
  | function (generator : Bool) (name : Option AnyNode) (params : List AnyNode) (body : AnyNode)
  | parameters (params : List AnyNode)
  | arguments (args : List AnyNode)
  | propertyKey (computed : Bool) (key : AnyNode)

/-- How a node is written. -/
def partOf (any : AnyNode) : Part := any.node.part

def Call.perform : Call → Printing Unit
  | comment c => writeComment c
  | leadingComments comments => writeLeading comments
  | statement any => (partOf any).statement
  | node any => (partOf any).body
  | inHead any => (partOf any).inHead
  | expression e least => (partOf e).expression least
  | withoutIn e least => (partOf e).withoutIn least
  | declaration noIn kind declarators =>
    Printer.declaration kind
      ((declarators.map partOf).map (if noIn then Part.inHead else Part.body))
  | function generator name params body =>
    Printer.function generator (name.map partOf) (params.map partOf) (partOf body)
  | parameters params => Printer.parameters (params.map partOf)
  | arguments args => Printer.arguments (args.map partOf)
  | propertyKey computed key => Printer.propertyKey computed (partOf key)

/-- Whatever the printer writes, it appends pieces. -/
theorem Call.exists_appends (call : Call) (withComments : Bool) :
    ∃ pieces, Appends withComments call.perform pieces := by
  let rendition (any : AnyNode) : Rendition withComments := any.node.rendition withComments
  -- nodes are printed as their renditions say, and every call has one of the renditions
  have hpart : partOf = Rendition.part ∘ rendition :=
    funext fun any => (any.node.rendition_part withComments).symm
  cases call with
  | comment c => exact ⟨_, appends_writeComment c⟩
  | leadingComments comments => exact ⟨_, appends_writeLeading comments⟩
  | statement any =>
    rw [perform, hpart]
    exact ⟨_, (rendition any).statement⟩
  | node any =>
    rw [perform, hpart]
    exact ⟨_, (rendition any).body⟩
  | inHead any =>
    rw [perform, hpart]
    exact ⟨_, (rendition any).inHead⟩
  | expression e least =>
    rw [perform, hpart]
    exact ⟨_, (rendition e).expression least⟩
  | withoutIn e least =>
    rw [perform, hpart]
    exact ⟨_, (rendition e).withoutIn least⟩
  | declaration noIn kind declarators =>
    rw [perform, hpart, ← List.map_map]
    cases noIn with
    | true => exact ⟨_, Rendition.declaration (declarators.map rendition) kind Rendition.inHead⟩
    | false => exact ⟨_, Rendition.declaration (declarators.map rendition) kind Rendition.body⟩
  | function generator name params body =>
    rw [perform, hpart, ← List.map_map, ← Option.map_map]
    exact ⟨_, (rendition body).function (params.map rendition) (name.map rendition) generator⟩
  | parameters params =>
    rw [perform, hpart, ← List.map_map]
    exact ⟨_, Rendition.parameters (params.map rendition)⟩
  | arguments args =>
    rw [perform, hpart, ← List.map_map]
    exact ⟨_, Rendition.arguments (args.map rendition)⟩
  | propertyKey computed key =>
    rw [perform, hpart]
    exact ⟨_, (rendition key).propertyKey computed⟩

/-- A printer gives, for each text that it is asked for, what a new printer with the same
options gives, and is then as new. Whatever it writes on the way is appended to the
output, depends only on the options and the level of indentation, and leaves the level as
it was, so that the level is never lowered at zero. -/
theorem no_memory :
    (∀ (options : PrintOptions) (requests : List Request),
      (requests.mapM Request.perform).run (new options)
        = (requests.map fun request => (request.perform.run (new options)).1, new options)) ∧
    ∀ call : Call, ∃ text : PrintOptions → Nat → String, ∀ printer : Printer,
      call.perform.run printer
        = ((), { printer with
            output := printer.output ++ text printer.options printer.level }) := by
  refine ⟨fun options requests => ?_, fun call => ?_⟩
  · have htext (request : Request) :
        (request.perform.run (new options)).1 = request.text options := by
      rw [request.perform_run]
    simp only [requests_run, htext]
  · -- the pieces differ with the comments, but the options tell which they are
    obtain ⟨pieces, hpieces⟩ := Classical.axiomOfChoice call.exists_appends
    exact ⟨fun options level => render options (pieces options.preserveComments level),
      fun printer => hpieces printer.options.preserveComments printer rfl⟩

end Printer

end EsFront
