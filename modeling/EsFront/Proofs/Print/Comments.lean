/-
The comments of a printed program.

A program is printed with its own comments and, in pre-order, those of the nodes
that stand in places for statements (`Program.written_pieces`). The comments of
all other nodes are left out. These can only be blocks that are bodies of
functions and catch clauses or parts of a `try` statement, declarations in the
heads of loops, and what is inside the key of a property that is left out
itself. Main statement: `importProgram_written` — a printed program has all its
comments, each once, exactly when no such node has any.
-/
import EsFront.Print.Program
import EsFront.Proofs.Comments.Partition
import EsFront.Proofs.Print.Written

namespace EsFront

/-! ### How the nodes of a tree stand -/

/-- Whether the key of a property is left out: its value, which is a name,
stands for both. -/
def Form.omitsKey {kind : NodeKind} {slots : List Slot} (form : Form kind slots)
    (fields : Fields slots) : Bool :=
  match form, fields.view AnyNode.kind with
  | .property _ computed shorthand, (_, value, ()) =>
    shorthand && !computed && decide (value = .identifier)
  | _, _ => false

mutual

/-- The nodes of a tree, a parent before its children, with the way they stand in
its text. -/
def Node.standings {kind : NodeKind} (standing : Standing) :
    Node kind → List (AnyNode × Standing)
  | .mk data form fields =>
    (⟨kind, .mk data form fields⟩, standing) :: fields.standings standing (form.omitsKey fields)

def Fields.standings {slots : List Slot} (outer : Standing) (omitsKey : Bool) :
    Fields slots → List (AnyNode × Standing)
  | .nil => []
  | @Fields.cons slot _ field rest =>
    field.standings (slot.standing outer omitsKey) ++ rest.standings outer omitsKey

def Field.standings {arity : Arity} {holds : Capability} (standing : Standing) :
    Field arity holds → List (AnyNode × Standing)
  | .one node _ => node.standings standing
  | .absent => []
  | .present node _ => node.standings standing
  | .nil => []
  | .cons node _ rest => node.standings standing ++ rest.standings standing
  | .hole rest => rest.standings standing

end

/-- The nodes of a program with the way they stand in its text. -/
def Program.standings (p : Program) : List (AnyNode × Standing) := Node.standings .part p

/-- The comments of the nodes that stand as statements, in order. -/
def shown (standings : List (AnyNode × Standing)) : List Comment :=
  (standings.filter (·.2 = .statement)).flatMap (·.1.node.data.comments)

theorem shown_append (standings more : List (AnyNode × Standing)) :
    shown (standings ++ more) = shown standings ++ shown more := by
  rw [shown, List.filter_append, List.flatMap_append]
  rfl

theorem shown_cons (any : AnyNode) (standing : Standing) (rest : List (AnyNode × Standing)) :
    shown ((any, standing) :: rest)
      = (if standing = .statement then any.node.data.comments else []) ++ shown rest := by
  cases standing with
  | statement => rfl
  | part => rfl
  | omitted => rfl

mutual

theorem Node.map_standings {kind : NodeKind} (place : Option (NodeId × String))
    (standing : Standing) : ∀ node : Node kind,
      (node.standings standing).map (·.1) = (node.entries place).map (·.any)
  | .mk data form fields => by
    rw [Node.standings, Node.entries, List.map_cons, List.map_cons,
      Fields.map_standings data.id standing (form.omitsKey fields) fields]

theorem Fields.map_standings {slots : List Slot} (parent : NodeId) (outer : Standing)
    (omitsKey : Bool) : ∀ fields : Fields slots,
      (fields.standings outer omitsKey).map (·.1) = (fields.entries parent).map (·.any)
  | .nil => by
    rw [Fields.standings, Fields.entries]
    rfl
  | @Fields.cons slot _ field rest => by
    rw [Fields.standings, Fields.entries, List.map_append, List.map_append,
      Field.map_standings (parent, slot.name) _ field,
      Fields.map_standings parent outer omitsKey rest]

theorem Field.map_standings {arity : Arity} {holds : Capability} (place : NodeId × String)
    (standing : Standing) : ∀ field : Field arity holds,
      (field.standings standing).map (·.1) = (field.entries place).map (·.any)
  | .one node _ => by
    rw [Field.standings, Field.entries, Node.map_standings (some place) standing node]
  | .absent => by
    rw [Field.standings, Field.entries]
    rfl
  | .present node _ => by
    rw [Field.standings, Field.entries, Node.map_standings (some place) standing node]
  | .nil => by
    rw [Field.standings, Field.entries]
    rfl
  | .cons node _ rest => by
    rw [Field.standings, Field.entries, List.map_append, List.map_append,
      Node.map_standings (some place) standing node, Field.map_standings place standing rest]
  | .hole rest => by
    rw [Field.standings, Field.entries, Field.map_standings place standing rest]

end

/-! ### What is printed of a tree -/

/-- The printed form of a node with the comments of all nodes. -/
abbrev laidOut {kind : NodeKind} {slots : List Slot} (data : NodeData) (form : Form kind slots)
    (values : Values Printed slots) : Printed := layout data.comments form values

theorem Node.isIdentifier_fold {kind : NodeKind} (node : Node kind) :
    (node.fold laidOut).isIdentifier = decide (kind = .identifier) := by
  cases node with
  | mk data form fields => exact isIdentifier_layout _ form _

theorem Node.isIdentifier_of_accepted {kind : NodeKind} {holds : Capability} (node : Node kind)
    (accepted : holds.accepts kind = true) (h : holds = .identifier) :
    (node.fold laidOut).isIdentifier = true := by
  rw [node.isIdentifier_fold, decide_eq_true_eq]
  subst h
  exact of_decide_eq_true accepted

/-- What stands for a key in the text stands for it in the tree. -/
theorem Form.standsForKey_fold {kind : NodeKind} {slots : List Slot} (form : Form kind slots)
    (fields : Fields slots) : form.standsForKey (fields.fold laidOut) = form.omitsKey fields := by
  cases form with
  | property kind computed shorthand =>
    cases fields with
    | cons key rest =>
      cases rest with
      | cons value rest =>
        cases rest
        cases value with
        | one node accepted =>
          change (shorthand && !computed && (node.fold laidOut).isIdentifier) = _
          rw [Node.isIdentifier_fold]
          rfl
  | _ => rfl

mutual

/-- The comments that are written with a tree are those of its statements. -/
theorem Node.printed_spec {kind : NodeKind} : ∀ node : Node kind,
    (node.fold laidOut).Steady ∧
      ∀ standing, shown (node.standings standing) = standing.shows (node.fold laidOut)
  | .mk data form fields => by
    obtain ⟨hexpects, hshown⟩ := Fields.printed_spec fields
    have hinner : shown (fields.standings .part (form.omitsKey fields))
        = (layout data.comments form (fields.fold laidOut)).inner := by
      rw [hshown, ← form.standsForKey_fold]
      exact (written_layout _ _ _ (hexpects.imp fun _ _ hp => hp.1) 0).symm
    refine ⟨steady_layout data.comments form _ hexpects, fun standing => ?_⟩
    rw [Node.standings, shown_cons, Node.fold]
    cases standing with
    | statement =>
      -- the fields stand as those of a part do
      have hsame : shown (fields.standings .statement (form.omitsKey fields))
          = shown (fields.standings .part (form.omitsKey fields)) := by
        rw [hshown, hshown]
        simp
      rw [hsame, hinner, Standing.shows]
      exact congrArg (· ++ _) (comments_layout _ form _).symm
    | part => exact hinner
    | omitted =>
      -- nothing inside a key that is left out is written
      rw [hshown]
      exact Values.collect_eq_nil (fun _ _ => rfl) _

theorem Fields.printed_spec {slots : List Slot} : ∀ fields : Fields slots,
    Values.All Slot.Expects slots (fields.fold laidOut) ∧
      ∀ outer omitsKey, shown (fields.standings outer omitsKey)
        = Values.collect (fun slot => (slot.standing outer omitsKey).shows) slots
            (fields.fold laidOut)
  | .nil => by
    refine ⟨trivial, fun outer omitsKey => ?_⟩
    rw [Fields.standings]
    rfl
  | @Fields.cons slot _ field rest => by
    obtain ⟨hfield, hshownField⟩ := Field.printed_spec field
    obtain ⟨hrest, hshownRest⟩ := Fields.printed_spec rest
    rw [Fields.fold]
    refine ⟨⟨hfield, hrest⟩, fun outer omitsKey => ?_⟩
    rw [Fields.standings, shown_append, hshownField, hshownRest]
    rfl

theorem Field.printed_spec {arity : Arity} {holds : Capability} : ∀ field : Field arity holds,
    Value.All (fun p => p.Steady ∧ (holds = .identifier → p.isIdentifier = true)) arity
        (field.fold laidOut) ∧
      ∀ standing, shown (field.standings standing)
        = Value.collect standing.shows arity (field.fold laidOut)
  | .one node accepted => by
    obtain ⟨hsteady, hshown⟩ := Node.printed_spec node
    rw [Field.fold]
    refine ⟨⟨hsteady, node.isIdentifier_of_accepted accepted⟩, fun standing => ?_⟩
    rw [Field.standings, hshown]
    rfl
  | .absent => by
    rw [Field.fold]
    refine ⟨?_, fun standing => ?_⟩
    · intro p hp
      cases hp
    · rw [Field.standings]
      rfl
  | .present node accepted => by
    obtain ⟨hsteady, hshown⟩ := Node.printed_spec node
    rw [Field.fold]
    refine ⟨?_, fun standing => ?_⟩
    · intro p hp
      cases hp
      exact ⟨hsteady, node.isIdentifier_of_accepted accepted⟩
    · rw [Field.standings, hshown]
      exact (List.append_nil _).symm
  | .nil => by
    rw [Field.fold]
    refine ⟨Value.all_nil _, fun standing => ?_⟩
    rw [Field.standings, Value.collect_nil]
    rfl
  | .cons node accepted rest => by
    obtain ⟨hsteady, hshownNode⟩ := Node.printed_spec node
    obtain ⟨hrest, hshownRest⟩ := Field.printed_spec rest
    rw [Field.fold]
    refine ⟨Value.all_cons _ _ ⟨hsteady, node.isIdentifier_of_accepted accepted⟩ hrest,
      fun standing => ?_⟩
    rw [Field.standings, shown_append, hshownNode, hshownRest, Value.collect_cons]
  | .hole rest => by
    obtain ⟨hrest, hshown⟩ := Field.printed_spec rest
    rw [Field.fold]
    refine ⟨?_, fun standing => ?_⟩
    · intro p hp
      exact hrest p ((List.mem_cons.mp hp).resolve_left (Option.some_ne_none p))
    · rw [Field.standings, hshown]
      rfl

end

/-- A program is printed with its own comments and those of its statements. -/
theorem Program.written_pieces (p : Program) :
    written (p.pieces true) = p.comments ++ shown p.standings := by
  obtain ⟨-, hshown⟩ := Node.printed_spec p
  rw [Program.pieces, written_append, if_pos rfl, written_leading, Program.standings, hshown]
  rfl

/-! ### Which comments are left out -/

/-- Where no statement is asked for, only blocks and declarations of variables
may carry comments. -/
theorem Capability.block_or_variables {holds : Capability} {kind : NodeKind}
    (accepted : holds.accepts kind = true) (hholds : holds ≠ .statement)
    (hkind : kind.acceptsComments = true) :
    kind = .blockStatement ∨ kind = .variableDeclaration := by
  -- an expression carries none
  have hexpression : kind.isExpression = false := by
    cases kind <;> first | rfl | cases hkind
  cases holds with
  | statement => exact absurd rfl hholds
  | block => exact .inl (of_decide_eq_true accepted)
  | variableDeclaration => exact .inr (of_decide_eq_true accepted)
  | expression => exact absurd (hexpression.symm.trans accepted) Bool.false_ne_true
  | loopHead =>
    rw [accepts, hexpression, Bool.false_or, decide_eq_true_eq] at accepted
    exact .inr accepted
  | _ =>
    cases of_decide_eq_true accepted
    cases hkind

/-- A node that may carry comments but stands in no place for statements is a
block or a declaration of variables. -/
def Restricted (m : AnyNode × Standing) : Prop :=
  m.2 = .part → m.1.kind.acceptsComments = true →
    m.1.kind = .blockStatement ∨ m.1.kind = .variableDeclaration

mutual

theorem Node.restricted {kind : NodeKind} {standing : Standing} : ∀ node : Node kind,
    Restricted (⟨kind, node⟩, standing) → ∀ m ∈ node.standings standing, Restricted m
  | .mk data form fields, h, m, hm => by
    rw [Node.standings] at hm
    rcases List.mem_cons.mp hm with rfl | hfields
    · exact h
    · exact Fields.restricted fields m hfields

theorem Fields.restricted {slots : List Slot} {outer : Standing} {omitsKey : Bool} :
    ∀ fields : Fields slots, ∀ m ∈ fields.standings outer omitsKey, Restricted m
  | .nil, m, hm => by
    rw [Fields.standings] at hm
    exact absurd hm List.not_mem_nil
  | @Fields.cons slot _ field rest, m, hm => by
    rw [Fields.standings] at hm
    rcases List.mem_append.mp hm with hfield | hrest
    · refine Field.restricted field (fun hpart hholds => ?_) m hfield
      rw [Slot.standing, if_pos hholds] at hpart
      split at hpart
      · cases hpart
      · cases hpart
    · exact Fields.restricted rest m hrest

theorem Field.restricted {arity : Arity} {holds : Capability} {standing : Standing} :
    ∀ field : Field arity holds, (standing = .part → holds ≠ .statement) →
      ∀ m ∈ field.standings standing, Restricted m
  | .one node accepted, h, m, hm => by
    rw [Field.standings] at hm
    exact Node.restricted node (fun hpart => Capability.block_or_variables accepted (h hpart)) m hm
  | .absent, _, m, hm => by
    rw [Field.standings] at hm
    exact absurd hm List.not_mem_nil
  | .present node accepted, h, m, hm => by
    rw [Field.standings] at hm
    exact Node.restricted node (fun hpart => Capability.block_or_variables accepted (h hpart)) m hm
  | .nil, _, m, hm => by
    rw [Field.standings] at hm
    exact absurd hm List.not_mem_nil
  | .cons node accepted rest, h, m, hm => by
    rw [Field.standings] at hm
    rcases List.mem_append.mp hm with hnode | hrest
    · exact Node.restricted node (fun hpart => Capability.block_or_variables accepted (h hpart)) m
        hnode
    · exact Field.restricted rest h m hrest
  | .hole rest, h, m, hm => by
    rw [Field.standings] at hm
    exact Field.restricted rest h m hm

end

/-- The comments of the nodes that do not stand as statements, in order. -/
def hidden (standings : List (AnyNode × Standing)) : List Comment :=
  (standings.filter fun m => !decide (m.2 = .statement)).flatMap (·.1.node.data.comments)

theorem hidden_eq_nil {standings : List (AnyNode × Standing)} : hidden standings = [] ↔
    ∀ m ∈ standings, m.2 ≠ .statement → m.1.node.data.comments = [] := by
  rw [hidden, List.flatMap_eq_nil_iff]
  simp

namespace Program

theorem map_standings (p : Program) : p.standings.map (·.1) = p.nodes := Node.map_standings none _ p

/-- The comments of all nodes are shown or hidden. -/
theorem attached_perm (p : Program) :
    (p.nodes.flatMap (·.node.data.comments)).Perm (shown p.standings ++ hidden p.standings) := by
  rw [← p.map_standings, List.flatMap_map, shown, hidden, ← List.flatMap_append]
  exact (List.filter_append_perm _ p.standings).symm.flatMap_right _

/-- All comments are written exactly when none is hidden. -/
theorem written_perm_iff (p : Program) :
    (written (p.pieces true)).Perm (p.comments ++ p.nodes.flatMap (·.node.data.comments))
      ↔ hidden p.standings = [] := by
  rw [p.written_pieces, List.perm_append_left_iff]
  constructor
  · intro h
    -- hidden comments would make one side longer
    have hlength := (h.trans p.attached_perm).length_eq
    rw [List.length_append] at hlength
    exact List.length_eq_zero_iff.mp (by omega)
  · intro h
    have hattached := p.attached_perm
    rw [h, List.append_nil] at hattached
    exact hattached.symm

end Program

/-- A node with comments is of a kind that may carry them. -/
theorem importProgram_acceptsComments {raw : Json} {file : Option String} {p : Program}
    (h : importProgram raw file = .ok p) {any : AnyNode} (hany : any ∈ p.nodes)
    (hcomments : any.node.data.comments ≠ []) : any.kind.acceptsComments = true := by
  obtain ⟨found, index, t, body, -, hadd, hreached, -, rfl⟩ := importProgram_ok h
  have hkeyed : index.Keyed := (CommentIndex.add_spec CommentIndex.keyed_empty hadd).keyed
  obtain ⟨own, hlabels, -, hown⟩ :=
    Import.labels_finish ⟨0, raw.location? file, raw.range?, [], []⟩ t body
  have hlabel := List.mem_map_of_mem (f := AnyNode.label) hany
  rw [Node.labels_eq, hlabels] at hlabel
  rcases List.mem_cons.mp hlabel with rfl | hbody
  · exact absurd hown hcomments
  · obtain ⟨c, hc⟩ := List.exists_mem_of_ne_nil _ hcomments
    obtain ⟨line, -, hclaims⟩ := hreached.claims_of_mem hkeyed hbody hc
    by_contra hkind
    have hstart : any.label.startLine? = none := if_neg hkind
    rw [Label.claims, hstart] at hclaims
    cases hclaims

/-- A program is printed with its own comments and, in order, those of the nodes
that stand as statements. The others with comments are blocks and declarations of
variables in other places, or in a key that is left out. So all comments are
written, each once, exactly when no such node has any. -/
theorem importProgram_written {raw : Json} {file : Option String} {p : Program}
    (h : importProgram raw file = .ok p) (options : PrintOptions)
    (hoptions : options.preserveComments = true) :
    p.standings.map (·.1) = p.nodes ∧
    written (p.pieces options.preserveComments) = p.comments ++ shown p.standings ∧
    (∀ m ∈ p.standings, m.2 = .part → m.1.node.data.comments ≠ [] →
      m.1.kind = .blockStatement ∨ m.1.kind = .variableDeclaration) ∧
    ((written (p.pieces options.preserveComments)).Perm
        (p.comments ++ p.nodes.flatMap (·.node.data.comments)) ↔
      ∀ m ∈ p.standings, m.2 ≠ .statement → m.1.node.data.comments = []) := by
  rw [hoptions]
  refine ⟨p.map_standings, p.written_pieces, ?_, p.written_perm_iff.trans hidden_eq_nil⟩
  intro m hm hpart hcomments
  have hany : m.1 ∈ p.nodes := by
    rw [← p.map_standings]
    exact List.mem_map_of_mem hm
  -- the program itself carries none
  have hroot : Restricted (⟨.program, p⟩, .part) := by
    intro _ hkind
    cases hkind
  exact Node.restricted p hroot m hm hpart (importProgram_acceptsComments h hany hcomments)

/-- A function whose body starts two lines below, and a doc comment that ends on
the given line. -/
def commentedFunction (line : Nat) : Json :=
  let onLine (line : Nat) : String × Json :=
    ("loc", .object [("start", .object [("line", .nat line), ("column", .nat 0)]),
      ("end", .object [("line", .nat line), ("column", .nat 9)])])
  .object [("type", .string "Program"),
    ("body", .array [.object [("type", .string "FunctionDeclaration"), onLine 1,
      ("id", .object [("type", .string "Identifier"), ("name", .string "f")]),
      ("params", .array []),
      ("body", .object [("type", .string "BlockStatement"), onLine 3, ("body", .array [])])]]),
    ("comments", .array [.object [("type", .string "Block"), ("value", .string "* doc "),
      onLine line]])]

/-- The comment above the function is written. -/
theorem commentedFunction_written :
    ∃ p, importProgram (commentedFunction 1) none = .ok p ∧
      (written (p.pieces true)).Perm (p.comments ++ p.nodes.flatMap (·.node.data.comments)) := by
  have hfacts : ((importProgram (commentedFunction 1) none).toOption.map fun p =>
      decide (∀ m ∈ p.standings, m.2 ≠ .statement → m.1.node.data.comments = [])) = some true := by
    decide +kernel
  obtain ⟨p, hp, hnone⟩ := Option.map_eq_some_iff.mp hfacts
  have himport := importProgram_of_toOption hp
  obtain ⟨-, -, -, hiff⟩ := importProgram_written himport {} rfl
  exact ⟨p, himport, hiff.mpr (of_decide_eq_true hnone)⟩

/-- The comment above the body of the function is lost. -/
theorem commentedFunction_lost :
    ∃ p, importProgram (commentedFunction 2) none = .ok p ∧
      p.print {} = "function f() \x7b\x7d\n" ∧
      ¬ (written (p.pieces true)).Perm
        (p.comments ++ p.nodes.flatMap (·.node.data.comments)) := by
  have hfacts : ((importProgram (commentedFunction 2) none).toOption.map fun p =>
      decide (p.print {} = "function f() \x7b\x7d\n" ∧ (written (p.pieces true)).length ≠
        (p.comments ++ p.nodes.flatMap (·.node.data.comments)).length)) = some true := by
    decide +kernel
  obtain ⟨p, hp, hlost⟩ := Option.map_eq_some_iff.mp hfacts
  obtain ⟨hprint, hlength⟩ := of_decide_eq_true hlost
  exact ⟨p, importProgram_of_toOption hp, hprint, fun hperm => hlength hperm.length_eq⟩

end EsFront
