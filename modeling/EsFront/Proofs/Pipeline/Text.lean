/-
What is written does not depend on resolution.

What is written of a tree is computed node by node from the data, the form and
what is written of the children (`Node.fold`), and of an identifier only the
name is read. So trees that differ only in the marks of identifiers are written
alike. Main statement: `resolve_keeps_text`.
-/
import EsFront.Pipeline.Compile
import EsFront.Proofs.Scope.Marks

namespace EsFront

/-! ### Trees with other marks -/

section fold

variable {ρ : Type}
  {combine : {kind : NodeKind} → {slots : List Slot} →
    NodeData → Form kind slots → Values ρ slots → ρ}
  {change : NodeId → IdentifierView → IdentifierView}

/-- The result for a node is the same after the change. -/
def Overlooks (combine : {kind : NodeKind} → {slots : List Slot} →
    NodeData → Form kind slots → Values ρ slots → ρ)
    (change : NodeId → IdentifierView → IdentifierView) : Prop :=
  ∀ {kind : NodeKind} {slots : List Slot} (data : NodeData) (form : Form kind slots)
    (values : Values ρ slots),
    combine data (form.mark (change data.id)) values = combine data form values

mutual

/-- A result that overlooks a change in every node does so in every tree. -/
theorem Node.fold_mark (h : Overlooks combine change) {kind : NodeKind} : ∀ node : Node kind,
    (node.mark change).fold combine = node.fold combine
  | .mk data form fields => by
    rw [Node.mark, Node.fold, Node.fold, Fields.fold_mark h fields]
    exact h data form _

theorem Fields.fold_mark (h : Overlooks combine change) {slots : List Slot} :
    ∀ fields : Fields slots, (fields.mark change).fold combine = fields.fold combine
  | .nil => by
    rw [Fields.mark]
  | @Fields.cons slot _ field rest => by
    rw [Fields.mark, Fields.fold, Fields.fold, Fields.fold_mark h rest]
    congr 1
    split
    · exact Field.fold_mark h field
    · rfl

theorem Field.fold_mark (h : Overlooks combine change) {arity : Arity} {holds : Capability} :
    ∀ field : Field arity holds, (field.mark change).fold combine = field.fold combine
  | .one node _ => by
    rw [Field.mark, Field.fold, Field.fold, Node.fold_mark h node]
  | .absent => by
    rw [Field.mark]
  | .present node _ => by
    rw [Field.mark, Field.fold, Field.fold, Node.fold_mark h node]
  | .nil => by
    rw [Field.mark]
  | .cons node _ rest => by
    rw [Field.mark, Field.fold, Field.fold, Node.fold_mark h node, Field.fold_mark h rest]
  | .hole rest => by
    rw [Field.mark, Field.fold, Field.fold, Field.fold_mark h rest]

end

end fold

section labels

variable (change : NodeId → IdentifierView → IdentifierView)

mutual

theorem Node.labels_mark {kind : NodeKind} : ∀ node : Node kind,
    (node.mark change).labels = node.labels
  | .mk data form fields => by
    rw [Node.mark, Node.labels, Node.labels, Fields.labels_mark fields]

theorem Fields.labels_mark {slots : List Slot} : ∀ fields : Fields slots,
    (fields.mark change).labels = fields.labels
  | .nil => by
    rw [Fields.mark]
  | @Fields.cons slot _ field rest => by
    rw [Fields.mark, Fields.labels, Fields.labels, Fields.labels_mark rest]
    congr 1
    split
    · exact Field.labels_mark field
    · rfl

theorem Field.labels_mark {arity : Arity} {holds : Capability} : ∀ field : Field arity holds,
    (field.mark change).labels = field.labels
  | .one node _ => by
    rw [Field.mark, Field.labels, Field.labels, Node.labels_mark node]
  | .absent => by
    rw [Field.mark]
  | .present node _ => by
    rw [Field.mark, Field.labels, Field.labels, Node.labels_mark node]
  | .nil => by
    rw [Field.mark]
  | .cons node _ rest => by
    rw [Field.mark, Field.labels, Field.labels, Node.labels_mark node, Field.labels_mark rest]
  | .hole rest => by
    rw [Field.mark, Field.labels, Field.labels, Field.labels_mark rest]

end

end labels

/-! ### What is written -/

section written

variable (info : NodeId → ResolutionInfo)

theorem overlooks_object :
    Overlooks Export.object fun id found => { found with info := info id } := by
  intro kind slots data form values
  -- by the form, because only an identifier has a mark, which is in no member
  cases form <;> rfl

theorem overlooks_layout (withComments : Bool) :
    Overlooks
      (fun data form values => layout (if withComments then data.comments else []) form values)
      fun id found => { found with info := info id } := by
  intro kind slots data form values
  cases form <;> rfl

namespace Program

theorem comments_annotate (p : Program) : Program.comments (p.annotate info) = p.comments := by
  obtain ⟨data, form, fields⟩ := p
  cases form
  rfl

theorem print_annotate (printing : PrintOptions) (p : Program) :
    Program.print printing (p.annotate info) = p.print printing := by
  have hprinted : Node.printed printing.preserveComments (p.annotate info)
      = p.printed printing.preserveComments :=
    Node.fold_mark (overlooks_layout info printing.preserveComments) p
  unfold Program.print Program.pieces
  rw [comments_annotate, hprinted]

/-- The comments of all nodes are read off the labels. -/
theorem exported_comments_eq {slots : List Slot} (data : NodeData) (form : Form .program slots)
    (fields : Fields slots) :
    Export.comments (.mk data form fields) = (Program.comments (.mk data form fields) ++
      fields.labels.flatMap (·.data.comments)).mergeSort Export.precedes := by
  rw [Export.comments, ← Fields.labels_entries data.id fields, List.flatMap_map]
  rfl

theorem exported_comments_annotate (p : Program) :
    Export.comments (p.annotate info) = Export.comments p := by
  have hcomments := comments_annotate info p
  obtain ⟨data, form, fields⟩ := p
  rw [Node.annotate, Node.mark] at hcomments ⊢
  rw [exported_comments_eq, exported_comments_eq, hcomments, Fields.labels_mark]

theorem toEstree_eq (data : NodeData) (comments : List Comment) (index : DirectiveIndex)
    (body : Field (.list false) .statement) :
    Program.toEstree (.mk data (.program comments index) (.cons body .nil))
      = .object (("type", .string NodeKind.program.tag) :: Export.place data.loc data.range ++
        Export.attributes (.program comments index) ++
        [("body", Export.fieldValue (.list false) (body.fold Export.object)),
          ("elements", Export.fieldValue (.list false) (body.fold Export.object)),
          ("comments", .array ((Export.comments
            (.mk data (.program comments index) (.cons body .nil))).map Export.comment))]) := rfl

theorem toEstree_annotate (p : Program) : Program.toEstree (p.annotate info) = p.toEstree := by
  have hcomments := exported_comments_annotate info p
  obtain ⟨data, form, fields⟩ := p
  rcases form with ⟨comments, index⟩
  rcases fields with _ | ⟨body, rest⟩
  cases rest
  have hmark : Node.annotate info (.mk data (.program comments index) (.cons body .nil))
      = .mk data (.program comments index)
        (.cons (body.mark fun id found => { found with info := info id }) .nil) := by
    rw [Node.annotate, Node.mark, Fields.mark, Fields.mark]
    rfl
  -- the statements are written node by node, but comments are collected from the whole tree
  rw [hmark] at hcomments ⊢
  have hbody : (body.mark fun id found => { found with info := info id }).fold Export.object
      = body.fold Export.object := Field.fold_mark (overlooks_object info) body
  rw [toEstree_eq, toEstree_eq, hcomments, hbody]

end Program

end written

/-! ### Files -/

/-- What is written of a file. -/
def FileOutput.written (output : FileOutput) : String × Option Json := (output.text, output.estree)

theorem written_emit (settings : CompileOptions) (info : NodeId → ResolutionInfo) (p : Program)
    (declarations : Nat) (diagnostics : Diagnostics) :
    (emit settings (p.annotate info) declarations diagnostics).written
      = (emit settings p 0 []).written := by
  unfold emit
  dsimp only
  rw [Program.toEstree_annotate, Program.print_annotate]
  by_cases hestree : settings.emitEstree = true
  · rw [if_pos hestree, if_pos hestree]
    rfl
  · rw [if_neg hestree, if_neg hestree]
    rfl

/-- A file is written as it would be without resolution. -/
theorem written_compileEstree {raw : Json} {path : String} {p : Program}
    (h : importProgram raw (some path) = .ok p) (settings : CompileOptions) :
    (compileEstree settings path raw).map (·.written) = .ok (emit settings p 0 []).written := by
  have hprogram : compileEstree settings path raw = .ok (compileProgram settings path p) := by
    rw [compileEstree, importEstree, h]
    rfl
  rw [hprogram]
  refine congrArg Except.ok ?_
  change (compileProgram settings path p).written = _
  unfold compileProgram emitFile CompileOptions.events
  by_cases hresolve : settings.resolve = true
  · have hmarked : (p.resolve settings.resolver).1 = p.annotated (p.resolution settings.resolver) :=
      congrArg Prod.fst (Program.resolve_of_bare h settings.resolver rfl)
    rw [if_pos hresolve, if_pos hresolve]
    -- the walk is that of `Program.resolve`, only written out
    change (emit settings (p.resolve settings.resolver).1 _ _).written = _
    rw [hmarked]
    exact written_emit settings _ p _ _
  · rw [if_neg hresolve]

/-- Resolution changes nothing but the marks of walked identifiers, so a program
is written alike before and after, and a file is compiled to the same text
whether and however names are resolved. -/
theorem resolve_keeps_text (raw : Json) (file : Option String) (options : ResolveOptions) :
    (∀ p, importProgram raw file = .ok p →
      (p.resolve options).1.bare = p.bare ∧
        Program.toEstree (p.resolve options).1 = p.toEstree ∧
        ∀ printing, Program.print printing (p.resolve options).1 = p.print printing) ∧
    ∀ (settings : CompileOptions) (path : String) (resolve : Bool),
      (compileEstree { settings with resolve, resolver := options } path raw).map (·.written)
        = (compileEstree settings path raw).map (·.written) := by
  constructor
  · intro p h
    rw [Program.resolve_of_bare h options rfl]
    exact ⟨p.bare_annotate _, p.toEstree_annotate _, fun printing => p.print_annotate _ printing⟩
  · intro settings path resolve
    cases h : importProgram raw (some path) with
    | error reason =>
      unfold compileEstree importEstree
      rw [h]
      rfl
    | ok p =>
      rw [written_compileEstree h, written_compileEstree h]
      rfl

theorem repeatedVariable_keeps_text :
    ∃ p, importProgram repeatedVariable none = .ok p ∧
      (p.resolve {}).1.bare = p.bare ∧ Program.toEstree (p.resolve {}).1 = p.toEstree ∧
      ∀ printing, Program.print printing (p.resolve {}).1 = p.print printing := by
  have hok : (importProgram repeatedVariable none).toOption.isSome = true := by decide +kernel
  obtain ⟨p, hp⟩ := Option.isSome_iff_exists.mp hok
  have himport := importProgram_of_toOption hp
  exact ⟨p, himport, (resolve_keeps_text repeatedVariable none {}).1 p himport⟩

end EsFront
