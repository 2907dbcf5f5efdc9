/-
Imported programs are well formed.

The import makes nodes top down and marks them bottom up: numbers and comments
are given out when a node is reached, binders and declarators are marked when
their parent is put together. What comes out is described without either order
(`Program.WellFormed`). Main statements:

* `Node.imported_iff` — a tree has the shape of imported trees exactly when this
  holds node by node;
* `AnyNode.Regular.marked`, `AnyNode.regular_of_marked` — at one node, the shape
  says the same as the marks;
* `importProgram_wellFormed` — for whole programs.
-/
import EsFront.Proofs.Print.Comments
import EsFront.Proofs.Syntax.Marking

namespace EsFront

/-! ### The shape of a tree, node by node -/

/-- The form of the node is one that the import makes of nodes with the given
role. -/
def AnyNode.Shaped (role : Role) : AnyNode → Prop
  | ⟨_, .mk _ form _⟩ => form.Imported role

/-- The location of the node names the given file. -/
def AnyNode.LocatedIn (file : Option String) (any : AnyNode) : Prop :=
  ∀ loc ∈ any.node.data.loc, loc.IsIn file

/-- The location of the node names the file, and the children have the shapes
that their roles ask for. -/
structure AnyNode.Regular (file : Option String) (any : AnyNode) : Prop where
  located : any.LocatedIn file
  shaped : ∀ placed ∈ any.placed, placed.child.Shaped placed.slot.role

section imported

variable {file : Option String}

theorem Field.imported_iff {arity : Arity} {holds : Capability} {role : Role}
    (field : Field arity holds) :
    field.Imported file role ↔ ∀ child ∈ field.children, child.node.Imported file role := by
  induction field using Field.induction with
  | one => rw [Field.Imported, Field.children, List.forall_mem_singleton]
  | absent => simp [Field.Imported, Field.children]
  | present => rw [Field.Imported, Field.children, List.forall_mem_singleton]
  | nil => simp [Field.Imported, Field.children]
  | cons node _ rest ih => rw [Field.Imported, Field.children, List.forall_mem_cons, ih]
  | hole rest ih => rw [Field.Imported, Field.children, ih]

theorem Fields.imported_iff {slots : List Slot} (fields : Fields slots) :
    fields.Imported file ↔
      ∀ placed ∈ fields.placed, placed.child.node.Imported file placed.slot.role := by
  induction slots with
  | nil =>
    cases fields
    simp [Fields.Imported, Fields.placed]
  | cons slot slots ih =>
    cases fields with
    | cons field rest =>
      rw [Fields.Imported, Fields.placed, List.forall_mem_append, List.forall_mem_map,
        Field.imported_iff field, ih]

/-- If the children are imported trees exactly when all their nodes are regular,
so are the fields of the node. -/
theorem Fields.imported_iff_regular {kind : NodeKind} {slots : List Slot} {data : NodeData}
    {form : Form kind slots} {fields : Fields slots}
    (hchild : ∀ placed ∈ fields.placed, ∀ role, placed.child.node.Imported file role ↔
      placed.child.Shaped role ∧ ∀ any ∈ placed.child.node.nodes, any.Regular file) :
    ((∀ loc, data.loc = some loc → loc.IsIn file) ∧ fields.Imported file) ↔
      ∀ any ∈ (Node.mk data form fields).nodes, any.Regular file := by
  have hnodes : ∀ any, any ∈ (Node.mk data form fields).nodes ↔
      any = ⟨kind, .mk data form fields⟩ ∨
        ∃ placed ∈ fields.placed, any ∈ placed.child.node.nodes :=
    fun any => @AnyNode.mem_nodes_iff ⟨kind, .mk data form fields⟩ any
  rw [Fields.imported_iff]
  constructor
  · rintro ⟨hloc, himported⟩ any hany
    rcases (hnodes any).mp hany with rfl | ⟨placed, hplaced, hany⟩
    · exact ⟨hloc, fun placed hplaced => ((hchild placed hplaced _).mp (himported placed hplaced)).1⟩
    · exact ((hchild placed hplaced _).mp (himported placed hplaced)).2 any hany
  · intro hregular
    have hroot := hregular _ ((hnodes _).mpr (.inl rfl))
    refine ⟨hroot.located, fun placed hplaced => (hchild placed hplaced _).mpr ?_⟩
    exact ⟨hroot.shaped placed hplaced,
      fun any hany => hregular any ((hnodes any).mpr (.inr ⟨placed, hplaced, hany⟩))⟩

/-- A tree has the shape of imported trees when its root has and every node is
regular. -/
theorem Node.imported_iff (any : AnyNode) : ∀ role,
    any.node.Imported file role ↔
      any.Shaped role ∧ ∀ other ∈ any.node.nodes, other.Regular file := by
  induction any using AnyNode.placed_induction with
  | step any ih =>
    intro role
    obtain ⟨kind, node⟩ := any
    cases node with
    | mk data form fields =>
      rw [Node.Imported, @Fields.imported_iff_regular _ _ _ data form fields ih]
      rfl

/-- The same for a program, whose own form the import makes of no node. -/
theorem Program.imported_iff {data : NodeData} {comments : List Comment} {index : DirectiveIndex}
    {body : Field (.list false) .statement} :
    ((∀ loc, data.loc = some loc → loc.IsIn file) ∧ body.Imported file .child) ↔
      ∀ any ∈ (Node.mk data (.program comments index) (.cons body .nil)).nodes,
        any.Regular file := by
  rw [← Fields.imported_iff_regular (fun placed _ => Node.imported_iff placed.child),
    Fields.Imported, Fields.Imported]
  simp

end imported

/-! ### Shape and marks -/

/-- The value and the text of a literal. -/
def Form.literal? {kind : NodeKind} {slots : List Slot} :
    Form kind slots → Option (LiteralValue × Option String)
  | .literal value raw => some (value, raw)
  | _ => none

/-- The value and the text of a literal; nothing for other nodes. -/
def AnyNode.literal? : AnyNode → Option (LiteralValue × Option String)
  | ⟨_, .mk _ form _⟩ => form.literal?

/-- The text of a `null` does not read as a regular expression. -/
def AnyNode.PlainNull (any : AnyNode) : Prop :=
  ∀ literal ∈ any.literal?, literal.1 = .null → literal.2.bind Json.splitRegExp? = none

/-- What the shape of a node says about its attributes. -/
theorem AnyNode.shaped_iff {role : Role} {any : AnyNode} :
    any.Shaped role ↔ any.kind ≠ .program ∧ any.PlainNull ∧
      (∀ declKind ∈ any.declarationKind?,
        declKind = .var ∨ declKind = .lexical ∨ declKind = .const) ∧
      (∀ declKind ∈ any.declaratorKind?, declKind = role.declKind) ∧
      ∀ found ∈ any.identifier?,
        found.isBinder = role.isBinder ∧ found.info = .unresolved := by
  obtain ⟨kind, node⟩ := any
  cases node with
  | mk data form fields =>
    cases form <;>
      simp [Shaped, PlainNull, Form.Imported, AnyNode.declarationKind?, AnyNode.declaratorKind?,
        AnyNode.identifier?, AnyNode.literal?, Form.declarationKind?, Form.declaratorKind?,
        Form.identifier?, Form.literal?]

section marks

variable {file : Option String}

theorem AnyNode.kind_of_declaratorKind? {any : AnyNode} {declKind : DeclKind}
    (h : any.declaratorKind? = some declKind) : any.kind = .variableDeclarator := by
  obtain ⟨kind, node⟩ := any
  cases node with
  | mk data form fields =>
    cases form with
    | variableDeclarator => rfl
    | _ => cases h

/-- The slot of a child is one of binders exactly in the places of binders. -/
theorem AnyNode.isBinder_of_placed {any : AnyNode} {placed : PlacedChild}
    (hplaced : placed ∈ any.placed) :
    placed.slot.role.isBinder = true ↔ (any.kind, placed.slot.name) ∈ bindingPlaces := by
  obtain ⟨kind, node⟩ := any
  cases node with
  | mk data form fields => exact form.isBinder_iff (Fields.mem_placed hplaced).1

theorem AnyNode.kind_ne_program {any : AnyNode} {placed : PlacedChild}
    (hplaced : placed ∈ any.placed) : placed.child.kind ≠ .program := by
  intro hkind
  obtain ⟨kind, node⟩ := any
  cases node with
  | mk data form fields =>
    obtain ⟨hslot, haccepts, -⟩ := Fields.mem_placed hplaced
    rw [hkind, form.not_accepts_program hslot] at haccepts
    cases haccepts

theorem AnyNode.declarationKind?_of_placed {any : AnyNode} {placed : PlacedChild}
    (hplaced : placed ∈ any.placed) {declKind : DeclKind}
    (hkind : placed.child.declaratorKind? = some declKind) :
    any.declarationKind? = some placed.slot.role.declKind := by
  obtain ⟨kind, node⟩ := any
  cases node with
  | mk data form fields =>
    obtain ⟨hslot, haccepts, -⟩ := Fields.mem_placed hplaced
    rw [kind_of_declaratorKind? hkind] at haccepts
    exact form.declarationKind?_eq hslot haccepts

/-- A program is no declaration, identifier or literal. -/
theorem Program.attributes_eq_none (p : Program) :
    AnyNode.declarationKind? ⟨_, p⟩ = none ∧ AnyNode.identifier? ⟨_, p⟩ = none ∧
      AnyNode.literal? ⟨_, p⟩ = none := by
  cases p with
  | mk data form fields =>
    cases form
    exact ⟨rfl, rfl, rfl⟩

/-- The whole tree is regular exactly when its nodes are located in the file and
marked, and the text of no `null` reads as a regular expression. -/
theorem Program.regular_iff (p : Program) :
    (∀ any ∈ p.nodes, any.Regular file) ↔
      ∀ any ∈ p.nodes, any.LocatedIn file ∧ any.Marked ∧ any.PlainNull := by
  obtain ⟨hdeclaration, hidentifier, hliteral⟩ := p.attributes_eq_none
  constructor
  · intro hregular any hany
    -- what a node says about itself, its parent asks for
    have hown : any.PlainNull ∧
        (∀ declKind ∈ any.declarationKind?,
          declKind = .var ∨ declKind = .lexical ∨ declKind = .const) ∧
        ∀ found ∈ any.identifier?, found.info = .unresolved := by
      rcases @AnyNode.exists_parent ⟨_, p⟩ any hany with
        rfl | ⟨parent, hparent, placed, hplaced, rfl⟩
      · simp [AnyNode.PlainNull, hdeclaration, hidentifier, hliteral]
      · obtain ⟨-, hnull, hkeyword, -, hfound⟩ :=
          AnyNode.shaped_iff.mp ((hregular parent hparent).shaped placed hplaced)
        exact ⟨hnull, hkeyword, fun found h => (hfound found h).2⟩
    refine ⟨(hregular any hany).located, ⟨?_, ?_, hown.2.1, hown.2.2⟩, hown.1⟩
    · intro placed hplaced found h
      obtain ⟨-, -, -, -, hfound⟩ :=
        AnyNode.shaped_iff.mp ((hregular any hany).shaped placed hplaced)
      rw [(hfound found h).1]
      exact AnyNode.isBinder_of_placed hplaced
    · intro placed hplaced declKind h
      obtain ⟨-, -, -, hkind, -⟩ :=
        AnyNode.shaped_iff.mp ((hregular any hany).shaped placed hplaced)
      rw [hkind declKind h]
      exact AnyNode.declarationKind?_of_placed hplaced h
  · intro hnodes any hany
    obtain ⟨hlocated, hmarked, -⟩ := hnodes any hany
    refine ⟨hlocated, fun placed hplaced => AnyNode.shaped_iff.mpr ?_⟩
    obtain ⟨-, hchild, hnull⟩ :=
      hnodes placed.child (@AnyNode.child_mem_nodes ⟨_, p⟩ _ _ hany hplaced)
    refine ⟨AnyNode.kind_ne_program hplaced, hnull, hchild.keyword, ?_, ?_⟩
    · intro declKind h
      have hdeclares := hmarked.declarators placed hplaced declKind h
      rw [AnyNode.declarationKind?_of_placed hplaced h, Option.some.injEq] at hdeclares
      exact hdeclares.symm
    · intro found h
      refine ⟨?_, hchild.unresolved found h⟩
      rw [Bool.eq_iff_iff, hmarked.binders placed hplaced found h]
      exact (AnyNode.isBinder_of_placed hplaced).symm

end marks

/-! ### Numbers and comments -/

/-- Nodes that are reached one after the other get consecutive numbers. -/
theorem Reached.ids_eq_range' {s s' : ImportState} {labels : List Label}
    (h : Reached s labels s') :
    labels.map (·.data.id) = List.range' s.nextId labels.length := by
  induction h with
  | nil => rfl
  | @cons s t s' label rest hfirst _ ih =>
    have hid : label.data.id = s.nextId := (congrArg (·.1.id) hfirst).symm
    have hnext : t.nextId = s.nextId + 1 := (congrArg (·.2.nextId) hfirst).symm
    rw [List.map_cons, List.length_cons, List.range'_succ, ih, hid, hnext]

/-- The directives of a node that is reached are those of its comments. -/
theorem Reached.directives_eq {s s' : ImportState} {labels : List Label}
    (h : Reached s labels s') :
    ∀ label ∈ labels, label.data.directives = label.data.comments.flatMap Comment.directives := by
  induction h with
  | nil => exact fun _ h => absurd h List.not_mem_nil
  | cons hfirst _ ih =>
    rw [List.forall_mem_cons]
    refine ⟨?_, ih⟩
    rw [← congrArg (·.1.directives) hfirst, ← congrArg (·.1.comments) hfirst]
    rfl

/-! ### Imported programs -/

/-- What every program that the import makes has. -/
structure Program.WellFormed (p : Program) : Prop where
  /-- In pre-order, with the fields of a node in the order of its slots, the
  nodes have the numbers `0, 1, 2, …`. -/
  numbered : p.nodes.map (·.node.id) = List.range p.nodes.length
  marked : ∀ any ∈ p.nodes, any.Marked
  /-- Comments are at statements and declarations, -/
  comments : ∀ any ∈ p.nodes, any.node.data.comments ≠ [] →
    any.kind.category = .statement ∨ any.kind.category = .declaration
  /-- directives also at the program. -/
  directives : ∀ any ∈ p.nodes, any.node.data.directives ≠ [] →
    any.kind.category = .statement ∨ any.kind.category = .declaration ∨ any = ⟨_, p⟩
  /-- A node has the directives of its comments, in order, -/
  parsed : ∀ any ∈ p.nodes, any ≠ ⟨_, p⟩ →
    any.node.data.directives = any.node.data.comments.flatMap Comment.directives
  /-- and the program has those of the comments that are left to it. -/
  parsedRest : p.data.directives = p.comments.flatMap Comment.directives

/-- The nodes of a program whose statements have been read: it comes first, and
the labels of the others are those of the statements. -/
theorem Import.nodes_finish (data : NodeData) (t : ImportState)
    (body : Field (.list false) .statement) :
    ∃ others, (finish data t body).nodes = ⟨_, finish data t body⟩ :: others ∧
      others.map AnyNode.label = body.labels := by
  have hlabels := Node.labels_eq (finish data t body)
  rw [finish, Node.nodes_mk, Node.labels, Fields.labels, Fields.labels, List.append_nil,
    List.map_cons, List.cons.injEq] at hlabels
  exact ⟨_, Node.nodes_mk _ _ _, hlabels.2⟩

/-- All nodes of an imported program are regular. -/
theorem importProgram_regular {raw : Json} {file : Option String} {p : Program}
    (h : importProgram raw file = .ok p) : ∀ any ∈ p.nodes, any.Regular file := by
  obtain ⟨found, index, t, body, -, -, -, ⟨himported, -⟩, rfl⟩ := importProgram_ok h
  exact Program.imported_iff.mp ⟨fun _ => Import.location?_isIn, himported⟩

/-- Every imported program is well formed. -/
theorem importProgram_wellFormed {raw : Json} {file : Option String} {p : Program}
    (h : importProgram raw file = .ok p) : p.WellFormed := by
  have hmarked : ∀ any ∈ p.nodes, any.Marked :=
    fun any hany => ((Program.regular_iff p).mp (importProgram_regular h) any hany).2.1
  have hcomments : ∀ any ∈ p.nodes, any.node.data.comments ≠ [] →
      any.kind.category = .statement ∨ any.kind.category = .declaration := by
    intro any hany hcomments
    have hkind := importProgram_acceptsComments h hany hcomments
    simpa [NodeKind.acceptsComments, NodeKind.isStatement, NodeKind.isDeclaration] using hkind
  obtain ⟨found, index, t, body, -, -, hreached, -, hp⟩ := importProgram_ok h
  obtain ⟨others, hnodes, hlabels⟩ :=
    Import.nodes_finish ⟨0, raw.location? file, raw.range?, [], []⟩ t body
  rw [← hp] at hnodes
  have hparsed : ∀ any ∈ others,
      any.node.data.directives = any.node.data.comments.flatMap Comment.directives := by
    intro any hany
    refine hreached.directives_eq any.label ?_
    rw [← hlabels]
    exact List.mem_map_of_mem hany
  refine ⟨?_, hmarked, hcomments, ?_, ?_, ?_⟩
  · -- the program is reached first, and its statements after it
    have hids := hreached.ids_eq_range'
    rw [← hlabels, List.map_map, List.length_map] at hids
    have hown : p.id = 0 := by
      rw [hp]
      rfl
    rw [hnodes, List.map_cons, List.length_cons, List.range_eq_range', List.range'_succ]
    show p.id :: others.map _ = 0 :: _
    rw [hown, ← hids]
    rfl
  · -- directives come from comments, but those of the program from what is left
    intro any hany hdirectives
    rcases List.mem_cons.mp (hnodes ▸ hany) with rfl | hother
    · exact .inr (.inr rfl)
    · have hne : any.node.data.comments ≠ [] := by
        intro hnil
        rw [hparsed any hother, hnil] at hdirectives
        exact hdirectives rfl
      exact (hcomments any hany hne).imp_right .inl
  · intro any hany hne
    rw [hnodes, List.mem_cons] at hany
    exact hparsed any (hany.resolve_left hne)
  · rw [hp]
    rfl

/-- A function with a parameter and a catch clause, and a declaration, both under
doc comments. -/
def commentedBinders : Json :=
  let node (kind : NodeKind) (members : List (String × Json)) : Json :=
    .object (("type", .string kind.tag) :: members)
  let onLine (line : Nat) : String × Json :=
    ("loc", .object [("start", .object [("line", .nat line), ("column", .nat 0)]),
      ("end", .object [("line", .nat line), ("column", .nat 9)])])
  let comment (line : Nat) : Json :=
    .object [("type", .string "Block"), ("value", .string "* @tag \x7bparam\x7d"), onLine line]
  let identifier (name : String) : Json := node .identifier [("name", .string name)]
  let block (body : List Json) : Json := node .blockStatement [("body", .array body)]
  let handler : Json := node .catchClause [("param", identifier "e"), ("body", block [])]
  let attempt : Json := node .tryStatement [("block", block []), ("handler", handler)]
  let declarator : Json := node .variableDeclarator [("id", identifier "x")]
  node .program
    [("body", .array
      [node .functionDeclaration [onLine 2, ("id", identifier "f"),
        ("params", .array [identifier "a"]), ("body", block [attempt])],
        node .variableDeclaration [onLine 4, ("kind", .string "let"),
          ("declarations", .array [declarator])]]),
      ("comments", .array [comment 1, comment 3, comment 7])]

theorem commentedBinders_wellFormed :
    ∃ p, importProgram commentedBinders none = .ok p ∧ p.nodes.length = 13 ∧ p.WellFormed := by
  have hlength : (importProgram commentedBinders none).toOption.map (·.nodes.length) = some 13 := by
    decide +kernel
  obtain ⟨p, hp, hnodes⟩ := Option.map_eq_some_iff.mp hlength
  have himport := importProgram_of_toOption hp
  exact ⟨p, himport, hnodes, importProgram_wellFormed himport⟩

end EsFront
