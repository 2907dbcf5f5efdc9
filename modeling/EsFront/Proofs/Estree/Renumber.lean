/-
Exporting and importing any program.

A program need not come from the import: nodes may have been taken out, moved or
put in, so that their numbers no longer follow the tree. If it has no comments
and is marked as its shape asks for (`Program.Portable`), it is read back from
its own value with the numbers `0, 1, 2, …` in pre-order and otherwise as it is
(`Program.renumbered`). Main statement: `importProgram_toEstree_renumbered`.

The proof goes through the tree with the new numbers: numbers apart it is the old
one (`Node.mapData_renumber`), so it is written alike, and its labels are what the
nodes get that are reached one after the other when there are no comments
(`Node.reached_renumber`).
-/
import EsFront.Proofs.Estree.RoundTrip
import EsFront.Proofs.Estree.WellFormed
import EsFront.Proofs.Syntax.Data

namespace EsFront

/-! ### New numbers -/

mutual

/-- The tree with its nodes numbered in pre-order, from the given number on. -/
def Node.renumber {kind : NodeKind} (next : NodeId) : Node kind → Node kind
  | .mk data form fields => .mk { data with id := next } form (fields.renumber (next + 1))

def Fields.renumber {slots : List Slot} (next : NodeId) : Fields slots → Fields slots
  | .nil => .nil
  | .cons field rest =>
    .cons (field.renumber next) (rest.renumber (next + field.labels.length))

def Field.renumber {arity : Arity} {holds : Capability} (next : NodeId) :
    Field arity holds → Field arity holds
  | .one node accepted => .one (node.renumber next) accepted
  | .absent => .absent
  | .present node accepted => .present (node.renumber next) accepted
  | .nil => .nil
  | .cons node accepted rest =>
    .cons (node.renumber next) accepted (rest.renumber (next + node.labels.length))
  | .hole rest => .hole (rest.renumber next)

end

/-- The program with its nodes numbered `0, 1, 2, …` in pre-order. -/
def Program.renumbered (p : Program) : Program := p.renumber 0

/-- The result for a node does not depend on its number. -/
def IgnoresNumbers {ρ : Type} (combine : {kind : NodeKind} → {slots : List Slot} →
    NodeData → Form kind slots → Values ρ slots → ρ) : Prop :=
  ∀ {kind : NodeKind} {slots : List Slot} (data : NodeData) (form : Form kind slots)
    (values : Values ρ slots) (id : NodeId),
    combine { data with id } form values = combine data form values

/-- The data without the number of the node. -/
def NodeData.unnumbered (data : NodeData) : NodeData := { data with id := 0 }

mutual

/-- Numbers apart, the tree is the same. -/
theorem Node.mapData_renumber {kind : NodeKind} (next : NodeId) : ∀ node : Node kind,
    (node.renumber next).mapData NodeData.unnumbered = node.mapData NodeData.unnumbered
  | .mk data form fields => by
    rw [Node.renumber, Node.mapData, Node.mapData, Fields.mapData_renumber _ fields]
    rfl

theorem Fields.mapData_renumber {slots : List Slot} (next : NodeId) : ∀ fields : Fields slots,
    (fields.renumber next).mapData NodeData.unnumbered = fields.mapData NodeData.unnumbered
  | .nil => by rw [Fields.renumber]
  | .cons field rest => by
    rw [Fields.renumber, Fields.mapData, Fields.mapData, Field.mapData_renumber _ field,
      Fields.mapData_renumber _ rest]

theorem Field.mapData_renumber {arity : Arity} {holds : Capability} (next : NodeId) :
    ∀ field : Field arity holds,
      (field.renumber next).mapData NodeData.unnumbered = field.mapData NodeData.unnumbered
  | .one node _ => by
    rw [Field.renumber, Field.mapData, Field.mapData, Node.mapData_renumber _ node]
  | .absent => by rw [Field.renumber]
  | .present node _ => by
    rw [Field.renumber, Field.mapData, Field.mapData, Node.mapData_renumber _ node]
  | .nil => by rw [Field.renumber]
  | .cons node _ rest => by
    rw [Field.renumber, Field.mapData, Field.mapData, Node.mapData_renumber _ node,
      Field.mapData_renumber _ rest]
  | .hole rest => by
    rw [Field.renumber, Field.mapData, Field.mapData, Field.mapData_renumber _ rest]

end

section renumber

variable {arity : Arity} {holds : Capability} (next : NodeId) (field : Field arity holds)

/-- Results that do not look at numbers are the same with other numbers. -/
theorem Field.fold_renumber {ρ : Type}
    {combine : {kind : NodeKind} → {slots : List Slot} →
      NodeData → Form kind slots → Values ρ slots → ρ}
    (h : IgnoresNumbers combine) : (field.renumber next).fold combine = field.fold combine := by
  have hignores : IgnoresChange NodeData.unnumbered combine :=
    fun data form values => h data form values 0
  rw [← Field.fold_mapData hignores, Field.mapData_renumber, Field.fold_mapData hignores]

theorem Field.height_renumber : (field.renumber next).height = field.height := by
  rw [← Field.height_mapData NodeData.unnumbered, Field.mapData_renumber, Field.height_mapData]

theorem Field.imported_renumber {file : Option String} {role : Role}
    (h : field.Imported file role) : (field.renumber next).Imported file role := by
  have hloc : ∀ data : NodeData, data.unnumbered.loc = data.loc := fun _ => rfl
  rw [← Field.imported_mapData hloc, Field.mapData_renumber, Field.imported_mapData hloc]
  exact h

/-- A list field with other numbers is written as the same entries. -/
theorem Field.entryValues_renumber {holes : Bool} (field : Field (.list holes) holds) :
    (field.renumber next).entryValues = field.entryValues := by
  -- the export does not write numbers
  have hignores : IgnoresNumbers Export.object := fun _ _ _ _ => rfl
  exact Field.entryValues_congr (Field.fold_renumber next field hignores)

end renumber

/-! ### Reaching the nodes of a tree without comments -/

/-- The node has neither comments nor directives. -/
def Label.Uncommented (label : Label) : Prop :=
  label.data.comments = [] ∧ label.data.directives = []

instance (label : Label) : Decidable label.Uncommented :=
  inferInstanceAs (Decidable (_ ∧ _))

theorem CommentIndex.claimFor_empty (kind : NodeKind) (loc : Option SourceLocation) :
    CommentIndex.empty.claimFor kind loc = ([], .empty) := by
  unfold claimFor claim
  cases loc with
  | none => rfl
  | some loc =>
    by_cases hpos : 0 < loc.start.line
    · cases kind.acceptsComments <;> simp only [hpos] <;> rfl
    · cases kind.acceptsComments <;> simp only [hpos] <;> rfl

/-- Without comments a node gets the next number and nothing else. -/
theorem ImportState.reach_empty (next : NodeId) {label : Label} (h : label.Uncommented) :
    ImportState.reach ⟨next, .empty⟩ label.kind label.data.loc label.data.range
      = ({ label.data with id := next }, ⟨next + 1, .empty⟩) := by
  obtain ⟨kind, id, loc, range, comments, directives⟩ := label
  obtain ⟨rfl, rfl⟩ := h
  unfold reach
  dsimp only
  rw [CommentIndex.claimFor_empty]
  rfl

mutual

/-- The nodes of a tree without comments are reached one after the other if they
are numbered in pre-order. -/
theorem Node.reached_renumber {kind : NodeKind} (next : NodeId) : ∀ node : Node kind,
    (∀ label ∈ node.labels, label.Uncommented) →
      Reached ⟨next, .empty⟩ (node.renumber next).labels ⟨next + node.labels.length, .empty⟩
  | .mk data form fields, h => by
    rw [Node.labels, List.forall_mem_cons] at h
    have hfields := Fields.reached_renumber (next + 1) fields h.2
    rw [Node.renumber, Node.labels, Node.labels, List.length_cons]
    refine .cons (ImportState.reach_empty next h.1) ?_
    rw [← Nat.add_assoc, Nat.add_right_comm]
    exact hfields

theorem Fields.reached_renumber {slots : List Slot} (next : NodeId) : ∀ fields : Fields slots,
    (∀ label ∈ fields.labels, label.Uncommented) →
      Reached ⟨next, .empty⟩ (fields.renumber next).labels ⟨next + fields.labels.length, .empty⟩
  | .nil, _ => by
    rw [Fields.renumber, Fields.labels]
    exact .nil
  | .cons field rest, h => by
    rw [Fields.labels, List.forall_mem_append] at h
    rw [Fields.renumber, Fields.labels, Fields.labels, List.length_append, ← Nat.add_assoc]
    exact (Field.reached_renumber next field h.1).append (Fields.reached_renumber _ rest h.2)

theorem Field.reached_renumber {arity : Arity} {holds : Capability} (next : NodeId) :
    ∀ field : Field arity holds, (∀ label ∈ field.labels, label.Uncommented) →
      Reached ⟨next, .empty⟩ (field.renumber next).labels ⟨next + field.labels.length, .empty⟩
  | .one node _, h => by
    rw [Field.labels] at h
    rw [Field.renumber, Field.labels, Field.labels]
    exact Node.reached_renumber next node h
  | .absent, _ => by
    rw [Field.renumber, Field.labels]
    exact .nil
  | .present node _, h => by
    rw [Field.labels] at h
    rw [Field.renumber, Field.labels, Field.labels]
    exact Node.reached_renumber next node h
  | .nil, _ => by
    rw [Field.renumber, Field.labels]
    exact .nil
  | .cons node _ rest, h => by
    rw [Field.labels, List.forall_mem_append] at h
    rw [Field.renumber, Field.labels, Field.labels, List.length_append, ← Nat.add_assoc]
    exact (Node.reached_renumber next node h.1).append (Field.reached_renumber _ rest h.2)
  | .hole rest, h => by
    rw [Field.labels] at h
    rw [Field.renumber, Field.labels, Field.labels]
    exact Field.reached_renumber next rest h

end

/-! ### Programs -/

/-- The program is what the export can write without loss: it has no comments and
directives, its marks are those that its shape asks for, its locations are in the
file, and it is no deeper than the import allows. -/
structure Program.Portable (file : Option String) (p : Program) : Prop where
  comments : p.comments = []
  index : p.directiveIndex = .empty
  uncommented : ∀ any ∈ p.nodes, any.label.Uncommented
  marked : ∀ any ∈ p.nodes, any.Marked
  located : ∀ any ∈ p.nodes, any.LocatedIn file
  plainNull : ∀ any ∈ p.nodes, any.PlainNull
  height : p.height ≤ Import.depthLimit + 1

instance (file : Option String) (loc : SourceLocation) : Decidable (loc.IsIn file) :=
  inferInstanceAs (Decidable (∀ name ∈ file, loc.source = some name))

instance (file : Option String) (any : AnyNode) : Decidable (any.LocatedIn file) :=
  inferInstanceAs (Decidable (∀ loc ∈ any.node.data.loc, loc.IsIn file))

instance (any : AnyNode) : Decidable any.PlainNull :=
  inferInstanceAs (Decidable (∀ literal ∈ any.literal?,
    literal.1 = .null → literal.2.bind Json.splitRegExp? = none))

instance (file : Option String) (p : Program) : Decidable (p.Portable file) :=
  decidable_of_iff
    (p.comments = [] ∧ p.directiveIndex = .empty ∧ (∀ any ∈ p.nodes, any.label.Uncommented) ∧
      (∀ any ∈ p.nodes, any.Marked) ∧ (∀ any ∈ p.nodes, any.LocatedIn file) ∧
      (∀ any ∈ p.nodes, any.PlainNull) ∧ p.height ≤ Import.depthLimit + 1)
    ⟨fun ⟨comments, index, uncommented, marked, located, plainNull, height⟩ =>
        ⟨comments, index, uncommented, marked, located, plainNull, height⟩,
      fun ⟨comments, index, uncommented, marked, located, plainNull, height⟩ =>
        ⟨comments, index, uncommented, marked, located, plainNull, height⟩⟩

/-- Without comments at its nodes a program is written without comments. -/
theorem Export.comments_eq_nil {p : Program} (hcomments : p.comments = [])
    (h : ∀ label ∈ p.labels, label.Uncommented) : Export.comments p = [] := by
  cases p with
  | mk data form fields =>
    have hattached : (fields.entries data.id).flatMap (·.any.node.data.comments) = [] := by
      rw [List.flatMap_eq_nil_iff]
      intro entry hentry
      refine (h entry.any.label ?_).1
      rw [Node.labels, ← Fields.labels_entries data.id fields]
      exact List.mem_cons_of_mem _ (List.mem_map_of_mem hentry)
    show (Program.comments _ ++ (fields.entries data.id).flatMap _).mergeSort precedes = []
    rw [hcomments, hattached, List.append_nil, List.mergeSort_nil]

/-- With no comments left, a program is finished with none. -/
theorem Import.finish_empty (data : NodeData) (next : NodeId)
    (body : Field (.list false) .statement) :
    finish data ⟨next, .empty⟩ body
      = .mk { data with directives := [] } (.program [] .empty) (.cons body .nil) := by
  have hrest : CommentIndex.empty.takeRest = ([], .empty) := by
    show ((List.mergeSort [] CommentIndex.precedes, _) : List Comment × CommentIndex) = _
    rw [List.mergeSort_nil]
    rfl
  unfold finish
  dsimp only
  rw [hrest]
  rfl

/-- A program without comments is read back from its value if its statements have
the shape of imported trees and are not too deep. -/
theorem importProgram_renumber {file : Option String} {data : NodeData}
    {body : Field (.list false) .statement}
    (hnone : Export.comments (.mk data (.program [] .empty) (.cons body .nil)) = [])
    (hlocated : ∀ loc ∈ data.loc, loc.IsIn file) (himported : body.Imported file .child)
    (hheight : body.height ≤ Import.depthLimit)
    (huncommented : ∀ label ∈ body.labels, label.Uncommented) :
    importProgram (Program.toEstree (.mk data (.program [] .empty) (.cons body .nil))) file
      = .ok (.mk ⟨0, data.loc, data.range, [], []⟩ (.program [] .empty)
          (.cons (body.renumber 1) .nil)) := by
  -- what is read is the value of the renumbered statements, so they are what is found
  obtain ⟨htag, hloc, hrange, hbody, hcomments⟩ := Program.get?_toEstree data [] .empty body
  generalize Program.toEstree (.mk data (.program [] .empty) (.cons body .nil)) = raw at *
  rw [hnone, List.map_nil] at hcomments
  rw [← Field.entryValues_renumber 1 body] at hbody
  -- its own place
  have hstart : ImportState.start.reach .program (raw.location? file) raw.range?
      = (⟨0, data.loc, data.range, [], []⟩, .mk 1 .empty) := by
    rw [Export.location?_of_get? hloc hlocated, Export.range?_of_get? hrange]
    cases data.loc <;> rfl
  -- no comments
  have hread : Import.comments file raw = .ok [] := by
    rw [Import.comments, hcomments]
    rfl
  -- its statements
  obtain ⟨entries, hentries, hlist⟩ :=
    Import.list_back (Import.node_back Import.depthLimit) .program hbody
      (Field.imported_renumber 1 body himported)
      (Nat.le_trans (Nat.le_of_eq (Field.height_renumber 1 body)) hheight)
      (Field.reached_renumber 1 body huncommented)
  have hname : Import.statementsName raw = "body" := by
    rw [Import.statementsName, Json.isAbsent, hbody]
    rfl
  refine importProgram_eq_ok.mpr (Import.program_gives.mpr ⟨htag, ?_⟩)
  rw [hname]
  exact ⟨_, _, _, _, entries, _, _, hstart, hread, rfl, hentries, hlist,
    (Import.finish_empty ⟨0, data.loc, data.range, [], []⟩ _ _).symm⟩

/-- A program that can be written without loss is read back with its nodes
numbered in pre-order. -/
theorem importProgram_toEstree_renumbered {file : Option String} {p : Program}
    (h : p.Portable file) :
    importProgram p.toEstree file = .ok p.renumbered ∧
      p.renumbered.nodes.map (·.node.id) = List.range p.renumbered.nodes.length := by
  have huncommented : ∀ label ∈ p.labels, label.Uncommented := by
    rw [← Node.labels_eq]
    exact List.forall_mem_map.mpr h.uncommented
  have hnone : Export.comments p = [] := Export.comments_eq_nil h.comments huncommented
  have hregular : ∀ any ∈ p.nodes, any.Regular file :=
    (Program.regular_iff p).mpr fun any hany =>
      ⟨h.located any hany, h.marked any hany, h.plainNull any hany⟩
  constructor
  · obtain ⟨hcomments, hindex, -, -, -, -, hheight⟩ := h
    obtain ⟨⟨id, loc, range, own, directives⟩, form, fields⟩ := p
    cases form with
    | program comments index =>
      rcases fields with _ | ⟨body, _ | _⟩
      rw [Node.labels, List.forall_mem_cons, Fields.labels, Fields.labels, List.append_nil]
        at huncommented
      rw [Node.height, Fields.height, Fields.height] at hheight
      obtain ⟨⟨rfl, rfl⟩, hbody⟩ := huncommented
      obtain rfl : comments = [] := hcomments
      obtain rfl : index = .empty := hindex
      obtain ⟨hlocated, himported⟩ := Program.imported_iff.mpr hregular
      exact importProgram_renumber hnone hlocated himported (by omega) hbody
  · have hids := (Node.reached_renumber 0 p huncommented).ids_eq_range'
    rw [← Node.labels_eq, List.map_map, List.length_map] at hids
    rw [List.range_eq_range']
    exact hids

/-- `var x = [, null];` with the same number at every node, as a program that was
put together by hand may have. -/
def unnumberedDeclaration : Program :=
  let data : NodeData := ⟨7, none, some ⟨0, 9⟩, [], []⟩
  let name : Node .identifier := .mk data (.identifier "x" true .unresolved) .nil
  let empty : Node .literal := .mk data (.literal .null (some "null")) .nil
  let array : Node .arrayExpression :=
    .mk data .arrayExpression (.cons (.hole (.cons empty rfl .nil)) .nil)
  let declarator : Node .variableDeclarator :=
    .mk data (.variableDeclarator .var) (.cons (.one name rfl) (.cons (.present array rfl) .nil))
  let declaration : Node .variableDeclaration :=
    .mk data (.variableDeclaration .var) (.cons (.cons declarator rfl .nil) .nil)
  .mk data (.program [] .empty) (.cons (.cons declaration rfl .nil) .nil)

theorem unnumberedDeclaration_renumbered :
    unnumberedDeclaration.Portable (some "a.js") ∧
      importProgram unnumberedDeclaration.toEstree (some "a.js")
        = .ok unnumberedDeclaration.renumbered ∧
      unnumberedDeclaration.renumbered.nodes.map (·.node.id) = [0, 1, 2, 3, 4, 5] := by
  have hportable : unnumberedDeclaration.Portable (some "a.js") := by decide +kernel
  obtain ⟨himport, hids⟩ := importProgram_toEstree_renumbered hportable
  have hlength : unnumberedDeclaration.renumbered.nodes.length = 6 := by decide +kernel
  rw [hlength] at hids
  exact ⟨hportable, himport, hids⟩

end EsFront
