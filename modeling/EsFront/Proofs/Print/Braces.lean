/-
Braces around the consequent of an `if`.

An `else` belongs to the nearest `if` before it that has none yet. So the printer puts
the consequent of an `if` with an `else` in braces when it ends in an `if` without one.

* `Node.endsOpen` — whether a statement ends in an `if` without `else`;
* `Node.brace` — a tree with such consequents put in blocks;
* `Node.printed_brace` — it is printed like the tree itself.
-/
import EsFront.Proofs.Print.Fold
import EsFront.Proofs.Print.Statement

namespace EsFront

/-! ### Statements that end in an open `if` -/

/-- Whether a statement of the given form ends in an `if` without `else`, given which of
its parts do. -/
def Form.endsOpen {kind : NodeKind} {slots : List Slot} (form : Form kind slots)
    (values : Values Bool slots) : Bool :=
  match form, values with
  | .ifStatement, (_, _, none, ()) => true
  | .ifStatement, (_, _, some alternate, ()) => alternate
  | .labeledStatement, (_, body, ()) => body
  | .whileStatement, (_, body, ()) => body
  | .forStatement, (_, _, _, body, ()) => body
  | .forInStatement, (_, _, body, ()) => body
  | _, _ => false

/-- Whether a statement ends in an `if` without `else`. -/
def Node.endsOpen {kind : NodeKind} (node : Node kind) : Bool :=
  node.fold fun _ form values => form.endsOpen values

/-- The printer knows which statements end so. -/
theorem Node.openIf_printed {kind : NodeKind} (withComments : Bool) (node : Node kind) :
    (node.printed withComments).openIf = node.endsOpen := by
  refine Node.fold_map (f := Printed.openIf) ?_ node
  intro kind slots data form values
  cases form with
  | ifStatement =>
    obtain ⟨test, consequent, alternate, ⟨⟩⟩ := values
    cases alternate <;> rfl
  | _ => rfl

/-! ### Consequents in braces -/

/-- A statement behind which an `else` can stand: in a block if the `else` would be read
with an `if` inside it. -/
def Stmt.closed (s : Stmt) : Stmt := if s.node.endsOpen then .block .blank [s] else s

theorem Stmt.closed_of_open (s : Stmt) (h : s.node.endsOpen = true) :
    s.closed = .block .blank [s] :=
  if_pos h

theorem Stmt.closed_of_closed (s : Stmt) (h : s.node.endsOpen = false) : s.closed = s :=
  if_neg (by rw [h]; exact Bool.false_ne_true)

/-- The fields of an `if` with an `else`, with the consequent closed; those of all other
nodes as they are. -/
def Form.braceConsequent {kind : NodeKind} {slots : List Slot} :
    Form kind slots → Fields slots → Fields slots
  | .ifStatement,
    .cons test (.cons (.one consequent accepted) (.cons (.present alternate h) .nil)) =>
    let inner : Stmt := Stmt.closed ⟨_, consequent, accepted⟩
    .cons test (.cons (.one inner.node inner.accepted) (.cons (.present alternate h) .nil))
  | _, fields => fields

mutual

/-- A tree in which every consequent that needs braces has them. -/
def Node.brace {kind : NodeKind} : Node kind → Node kind
  | .mk data form fields => .mk data form (form.braceConsequent fields.brace)

def Fields.brace {slots : List Slot} : Fields slots → Fields slots
  | .nil => .nil
  | .cons field rest => .cons field.brace rest.brace

def Field.brace {arity : Arity} {holds : Capability} : Field arity holds → Field arity holds
  | .one node accepted => .one node.brace accepted
  | .absent => .absent
  | .present node accepted => .present node.brace accepted
  | .nil => .nil
  | .cons node accepted rest => .cons node.brace accepted rest.brace
  | .hole rest => .hole rest.brace

end

def Child.brace {holds : Capability} (child : Child holds) : Child holds :=
  ⟨child.kind, child.node.brace, child.accepted⟩

/-- An `if` is printed the same whether its consequent has been put in a block or not. -/
theorem ifPieces_block (test consequent alternate : Printed) (h : consequent.openIf = true) :
    ifPieces test (plain [] (blockPieces [consequent])) (some alternate)
      = ifPieces test consequent (some alternate) := by
  funext level
  have hblock : (plain [] (blockPieces [consequent])).statement level = enclosed .curly
      (.line (level + 1) :: (consequent.statement (level + 1) ++ [.line level])) := by
    simp [Printed.statement, plain, blockPieces, Printed.lines]
  have hclosed : (plain [] (blockPieces [consequent])).openIf = false := rfl
  simp only [ifPieces, hclosed, h, hblock, if_true, Bool.false_eq_true, if_false]

section printed

variable (withComments : Bool)

theorem ifPieces_closed (test alternate : Printed) (s : Stmt) :
    ifPieces test (s.closed.node.printed withComments) (some alternate)
      = ifPieces test (s.node.printed withComments) (some alternate) := by
  cases hopen : s.node.endsOpen with
  | true =>
    have hblock : (Stmt.block .blank [s]).node.printed withComments
        = plain [] (blockPieces [s.node.printed withComments]) := by
      cases withComments <;> rfl
    rw [s.closed_of_open hopen, hblock]
    exact ifPieces_block test _ alternate (by rw [Node.openIf_printed, hopen])
  | false => rw [s.closed_of_closed hopen]

theorem layout_braceConsequent {kind : NodeKind} {slots : List Slot} (comments : List Comment)
    (form : Form kind slots) (fields : Fields slots) :
    layout comments form ((form.braceConsequent fields).printed withComments)
      = layout comments form (fields.printed withComments) := by
  cases form with
  | ifStatement =>
    obtain _ | ⟨test, fields⟩ := fields
    obtain _ | ⟨consequent, fields⟩ := fields
    obtain _ | ⟨alternate, fields⟩ := fields
    cases fields
    obtain ⟨s, rfl⟩ := Field.exists_one consequent
    cases alternate with
    | absent => rfl
    | present alternate accepted =>
      exact congrArg (fun pieces => { plain comments pieces with
        openIf := (alternate.printed withComments).openIf }) (ifPieces_closed withComments
          (test.printed withComments) (alternate.printed withComments) s)
  | _ => rfl

mutual

/-- **Braces where they are printed.** A tree with its consequents in blocks is printed
like the tree itself. -/
theorem Node.printed_brace {kind : NodeKind} : ∀ node : Node kind,
    node.brace.printed withComments = node.printed withComments
  | .mk data form fields => by
    change layout _ form ((form.braceConsequent fields.brace).printed withComments) = _
    rw [layout_braceConsequent, Fields.printed_brace fields]
    rfl

theorem Fields.printed_brace {slots : List Slot} : ∀ fields : Fields slots,
    fields.brace.printed withComments = fields.printed withComments
  | .nil => rfl
  | .cons field rest => by
    exact Prod.ext (Field.printed_brace field) (Fields.printed_brace rest)

theorem Field.printed_brace {arity : Arity} {holds : Capability} : ∀ field : Field arity holds,
    field.brace.printed withComments = field.printed withComments
  | .one node _ => Node.printed_brace node
  | .absent => rfl
  | .present node _ => congrArg some (Node.printed_brace node)
  | .nil => rfl
  | .cons node _ rest =>
    congrArg₂ (Value.cons _) (Node.printed_brace node) (Field.printed_brace rest)
  | .hole rest => congrArg (none :: ·) (Field.printed_brace rest)

end

end printed

/-- Braces do not change how a statement ends, so it makes no difference that a consequent
is looked at after its own parts have got theirs. -/
theorem Node.endsOpen_brace {kind : NodeKind} (node : Node kind) :
    node.brace.endsOpen = node.endsOpen := by
  rw [← Node.openIf_printed true, Node.printed_brace, Node.openIf_printed]

/-! ### Expressions -/

theorem Form.braceConsequent_of_expression {kind : NodeKind} {slots : List Slot}
    (form : Form kind slots) (hkind : kind.isExpression = true ∨ kind = .property)
    (fields : Fields slots) : form.braceConsequent fields = fields := by
  cases form with
  | ifStatement => exact absurd hkind (by decide)
  | _ => rfl

mutual

/-- An expression without functions has no statements in it. -/
theorem Node.brace_of_expression {kind : NodeKind} : ∀ node : Node kind,
    kind.isExpression = true ∨ kind = .property →
      (∀ any ∈ node.nodes, any.kind ≠ .functionExpression) → node.brace = node
  | .mk data form fields => fun hkind h => by
    have hslots := form.holds_of_expression hkind (h _ (Node.self_mem_nodes _))
    rw [Node.brace, form.braceConsequent_of_expression hkind,
      Fields.brace_of_expression fields hslots
        fun any hany x hx => h x (Node.mem_nodes_of_child hany hx)]

theorem Fields.brace_of_expression {slots : List Slot} : ∀ fields : Fields slots,
    (∀ slot ∈ slots, slot.holds = .expression ∨ slot.holds = .property) →
      (∀ any ∈ fields.children, ∀ x ∈ any.node.nodes, x.kind ≠ .functionExpression) →
        fields.brace = fields
  | .nil => fun _ _ => rfl
  | .cons field rest => fun hslots h => by
    rw [Fields.children] at h
    rw [Fields.brace, Field.brace_of_expression field (hslots _ List.mem_cons_self)
      fun any hany => h any (List.mem_append_left _ hany),
      Fields.brace_of_expression rest (fun slot hslot => hslots slot (List.mem_cons_of_mem _ hslot))
      fun any hany => h any (List.mem_append_right _ hany)]

theorem Field.brace_of_expression {arity : Arity} {holds : Capability} :
    ∀ field : Field arity holds, holds = .expression ∨ holds = .property →
      (∀ any ∈ field.children, ∀ x ∈ any.node.nodes, x.kind ≠ .functionExpression) →
        field.brace = field
  | .one node accepted => fun hholds h => by
    rw [Field.brace, Node.brace_of_expression node (isExpression_of_accepts hholds accepted)
      (h _ (List.mem_singleton_self _))]
  | .absent => fun _ _ => rfl
  | .present node accepted => fun hholds h => by
    rw [Field.brace, Node.brace_of_expression node (isExpression_of_accepts hholds accepted)
      (h _ (List.mem_singleton_self _))]
  | .nil => fun _ _ => rfl
  | .cons node accepted rest => fun hholds h => by
    rw [Field.children] at h
    rw [Field.brace, Node.brace_of_expression node (isExpression_of_accepts hholds accepted)
      (h _ List.mem_cons_self), Field.brace_of_expression rest hholds
      fun any hany => h any (List.mem_cons_of_mem _ hany)]
  | .hole rest => fun hholds h => by
    rw [Field.brace, Field.brace_of_expression rest hholds h]

end

end EsFront
