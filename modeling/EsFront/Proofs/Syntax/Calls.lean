/-
The calls of a walk.

A visitor can be made to write down its calls (`Visitor.logged`): the node that
every hook was given and, for a node that is left, what was given in its place.
When nothing is replaced, the calls are those that the tree prescribes
(`Node.calls`), and the state is what they make of it, one after the other
(`Visitor.after`). They are properly nested (`Bracketed`), and the walked nodes are
entered in pre-order. Since the import gives out numbers in pre-order too, the
nodes of an imported program are entered in the order of their numbers. Main
statements:

* `Node.walk_silent` — the calls of a visitor that replaces nothing;
* `Node.bracketed` — how they are nested;
* `importProgram_traversed` — both for imported programs.
-/
import EsFront.Proofs.Estree.WellFormed
import EsFront.Proofs.Syntax.Walked
import EsFront.Syntax.Walk

namespace EsFront

/-! ### Calls -/

/-- A call of a hook. -/
inductive HookCall where
  /-- A node is entered. -/
  | enter (given : AnyNode)
  /-- A node is left, and may be replaced by the answer. -/
  | exit (hook : Hook) (given : AnyNode) (answer : Option (Child hook.returns))

namespace HookCall

def name : HookCall → String
  | enter given => "enter_" ++ given.kind.hookName
  | exit hook _ _ => hook.name

/-- The node that is entered. -/
def entered? : HookCall → Option AnyNode
  | enter given => some given
  | exit .. => none

/-- The node that is left by the hook of its kind. -/
def left? : HookCall → Option AnyNode
  | exit (.exit _) given _ => some given
  | exit (.exitPlaced _) _ _ => none
  | enter _ => none

end HookCall

/-- The hooks on leaving a node of the given kind in its place, first to last. -/
def exitHooks (holds : Capability) (kind : NodeKind) : List Hook :=
  .exit kind :: (placedHook? holds kind).toList

theorem placedHook?_cases (holds : Capability) (kind : NodeKind) :
    placedHook? holds kind = none ∨ placedHook? holds kind = some (.exitPlaced kind) := by
  unfold placedHook?
  split
  · exact .inr rfl
  · exact .inr rfl
  · exact .inr rfl
  · exact .inr rfl
  · exact .inl rfl

namespace Visitor

variable {σ : Type} (visitor : Visitor σ)

/-- The visitor that does the same and writes down its calls. -/
def logged : Visitor (σ × List HookCall) where
  enter any state := (visitor.enter any state.1, state.2 ++ [.enter any])
  exit hook any state :=
    let result := visitor.exit hook any state.1
    (result.1, (result.2, state.2 ++ [.exit hook any result.1]))

/-- What a call makes of the state. -/
def perform (state : σ) : HookCall → σ
  | .enter given => visitor.enter given state
  | .exit hook given _ => (visitor.exit hook given state).2

/-- What some calls make of the state, one after the other. -/
def after (state : σ) (calls : List HookCall) : σ := calls.foldl visitor.perform state

theorem after_append (state : σ) (calls more : List HookCall) :
    visitor.after state (calls ++ more) = visitor.after (visitor.after state calls) more :=
  List.foldl_append

/-- The visitor never gives another node. -/
def ReplacesNothing : Prop := ∀ hook any state, (visitor.exit hook any state).1 = none

section leave

variable {holds : Capability} {child : Child holds} {hook : Hook}
  {accepts : ∀ kind, hook.returns.accepts kind = true → holds.accepts kind = true}

theorem runHook_eq (state : σ) :
    visitor.runHook hook accepts child state
      = (match (visitor.exit hook child.toAny state).1 with
          | some other => ⟨other.kind, other.node, accepts _ other.accepted⟩
          | none => child,
        (visitor.exit hook child.toAny state).2) := by
  unfold runHook
  rcases visitor.exit hook child.toAny state with ⟨_ | other, next⟩ <;> rfl

theorem runHook_logged (state : σ) (log : List HookCall) :
    visitor.logged.runHook hook accepts child (state, log)
      = ((visitor.runHook hook accepts child state).1,
          ((visitor.runHook hook accepts child state).2,
            log ++ [.exit hook child.toAny (visitor.exit hook child.toAny state).1])) := by
  rw [runHook_eq, runHook_eq]
  rfl

/-- A place accepts what the hook of the kind of its node may give. -/
theorem accepts_of_exit (child : Child holds) (kind : NodeKind)
    (h : (Hook.exit child.kind).returns.accepts kind = true) : holds.accepts kind = true :=
  accepts_of_replacement child.accepted h

theorem leave_of_none (h : placedHook? holds child.kind = none) (state : σ) :
    visitor.leave child state
      = visitor.runHook (.exit child.kind) (accepts_of_exit child) child state := by
  unfold leave
  dsimp only
  split
  · rename_i hook hplaced
    cases hplaced.symm.trans h
  · rfl

theorem leave_of_some (h : placedHook? holds child.kind = some hook) (state : σ) :
    visitor.leave child state
      = visitor.runHook hook (fun _ => accepts_of_placed h)
          (visitor.runHook (.exit child.kind) (accepts_of_exit child) child state).1
          (visitor.runHook (.exit child.kind) (accepts_of_exit child) child state).2 := by
  unfold leave
  dsimp only
  split
  · rename_i other hplaced
    cases hplaced.symm.trans h
    rfl
  · rename_i hplaced
    cases hplaced.symm.trans h

end leave

end Visitor

/-! ### The calls that a tree prescribes -/

mutual

/-- The calls of a walk through a node in its place that replaces nothing. -/
def Node.calls {kind : NodeKind} (holds : Capability) : Node kind → List HookCall
  | .mk data form fields =>
    .enter ⟨kind, .mk data form fields⟩ :: (fields.calls ++
      (exitHooks holds kind).map fun hook => .exit hook ⟨kind, .mk data form fields⟩ none)

def Fields.calls {slots : List Slot} : Fields slots → List HookCall
  | .nil => []
  | @Fields.cons slot _ field rest =>
    (if slot.role.isWalked then field.calls else []) ++ rest.calls

def Field.calls {arity : Arity} {holds : Capability} : Field arity holds → List HookCall
  | .one node _ => node.calls holds
  | .absent => []
  | .present node _ => node.calls holds
  | .nil => []
  | .cons node _ rest => node.calls holds ++ rest.calls
  | .hole rest => rest.calls

end

section walk

variable {σ : Type} {visitor : Visitor σ}

theorem Visitor.ReplacesNothing.leave (h : visitor.ReplacesNothing) {holds : Capability}
    (child : Child holds) (state : σ) (log : List HookCall) :
    let exits := (exitHooks holds child.kind).map fun hook => HookCall.exit hook child.toAny none
    visitor.logged.leave child (state, log) = (child, (visitor.after state exits, log ++ exits)) := by
  rcases hplaced : placedHook? holds child.kind with _ | hook
  · rw [Visitor.leave_of_none _ hplaced, Visitor.runHook_logged, Visitor.runHook_eq, h, exitHooks,
      hplaced]
    rfl
  · rw [Visitor.leave_of_some _ hplaced, Visitor.runHook_logged, Visitor.runHook_eq, h]
    dsimp only
    rw [Visitor.runHook_logged, Visitor.runHook_eq, h, exitHooks, hplaced, List.append_assoc]
    rfl

/-- The first node of a list is walked in its place, and then the others. -/
theorem Field.walk_cons {τ : Type} (visitor : Visitor τ) {holes : Bool} {holds : Capability}
    {kind : NodeKind} (node : Node kind) (accepted : holds.accepts kind = true)
    (rest : Field (.list holes) holds) (state : τ) :
    (Field.cons node accepted rest).walk visitor state
      = let first := Child.walk visitor ⟨kind, node, accepted⟩ state
        let others := rest.walk visitor first.2
        (.cons first.1.node first.1.accepted others.1, others.2) := by
  rw [Field.walk]
  rfl

mutual

/-- A visitor that replaces nothing leaves the tree as it is, makes the calls that
the tree prescribes, and comes to the state that they lead to. -/
theorem Node.walk_silent (h : visitor.ReplacesNothing) {kind : NodeKind} {holds : Capability} :
    ∀ (node : Node kind) (accepted : holds.accepts kind = true) (state : σ) (log : List HookCall),
      Child.walk visitor.logged ⟨kind, node, accepted⟩ (state, log)
        = (⟨kind, node, accepted⟩,
            (visitor.after state (node.calls holds), log ++ node.calls holds))
  | .mk data form fields, accepted, state, log => by
    have hinside := Fields.walk_silent h fields
      (visitor.enter ⟨kind, .mk data form fields⟩ state) (log ++ [.enter ⟨kind, .mk data form fields⟩])
    have hleave := h.leave ⟨kind, .mk data form fields, accepted⟩
      (visitor.after (visitor.enter ⟨kind, .mk data form fields⟩ state) fields.calls)
      (log ++ [.enter ⟨kind, .mk data form fields⟩] ++ fields.calls)
    rw [Child.walk, Node.walkInside]
    rw [show visitor.logged.enter ⟨kind, .mk data form fields⟩ (state, log)
      = (visitor.enter ⟨kind, .mk data form fields⟩ state,
          log ++ [.enter ⟨kind, .mk data form fields⟩]) from rfl, hinside]
    dsimp only at hleave ⊢
    rw [hleave, Node.calls, List.append_assoc, List.append_assoc, ← visitor.after_append]
    rfl

theorem Fields.walk_silent (h : visitor.ReplacesNothing) {slots : List Slot} :
    ∀ (fields : Fields slots) (state : σ) (log : List HookCall),
      fields.walk visitor.logged (state, log)
        = (fields, (visitor.after state fields.calls, log ++ fields.calls))
  | .nil, state, log => by
    rw [Fields.walk, Fields.calls, List.append_nil]
    rfl
  | @Fields.cons slot _ field rest, state, log => by
    rw [Fields.walk, Fields.calls]
    split
    · have hfield := Field.walk_silent h field state log
      have hrest := Fields.walk_silent h rest (visitor.after state field.calls) (log ++ field.calls)
      rw [hfield]
      dsimp only
      rw [hrest, List.append_assoc, visitor.after_append]
    · have hrest := Fields.walk_silent h rest state log
      rw [hrest, List.nil_append]

theorem Field.walk_silent (h : visitor.ReplacesNothing) {arity : Arity} {holds : Capability} :
    ∀ (field : Field arity holds) (state : σ) (log : List HookCall),
      field.walk visitor.logged (state, log)
        = (field, (visitor.after state field.calls, log ++ field.calls))
  | .one node accepted, state, log => by
    have hnode := Node.walk_silent h node accepted state log
    rw [Field.calls]
    exact congrArg (fun r : Child holds × _ => (Field.one r.1.node r.1.accepted, r.2)) hnode
  | .absent, state, log => by
    rw [Field.walk, Field.calls, List.append_nil]
    rfl
  | .present node accepted, state, log => by
    have hnode := Node.walk_silent h node accepted state log
    rw [Field.calls]
    exact congrArg (fun r : Child holds × _ => (Field.present r.1.node r.1.accepted, r.2)) hnode
  | .nil, state, log => by
    rw [Field.walk, Field.calls, List.append_nil]
    rfl
  | .cons node accepted rest, state, log => by
    have hnode := Node.walk_silent h node accepted state log
    have hrest := Field.walk_silent h rest (visitor.after state (node.calls holds))
      (log ++ node.calls holds)
    rw [Field.calls, ← List.append_assoc, visitor.after_append, Field.walk_cons, hnode]
    dsimp only
    rw [hrest]
  | .hole rest, state, log => by
    have hrest := Field.walk_silent h rest state log
    rw [Field.calls, Field.walk, hrest]

end

end walk

/-! ### Nesting -/

/-- The calls are properly nested and enter the given nodes: each is entered, then
come the calls of nodes below it, and then it is left by the hook of its kind,
unchanged and once; only the second hook of its place may follow. -/
inductive Bracketed : List HookCall → List AnyNode → Prop where
  | nil : Bracketed [] []
  | node {any : AnyNode} {inside after rest : List HookCall} {below others : List AnyNode}
      (children : Bracketed inside below) (within : ∀ other ∈ below, other ∈ any.node.nodes)
      (again : after = [] ∨ after = [.exit (.exitPlaced any.kind) any none])
      (siblings : Bracketed rest others) :
      Bracketed (.enter any :: (inside ++ .exit (.exit any.kind) any none :: (after ++ rest)))
        (any :: (below ++ others))

namespace Bracketed

theorem append {calls calls' : List HookCall} {entered entered' : List AnyNode}
    (h : Bracketed calls entered) (h' : Bracketed calls' entered') :
    Bracketed (calls ++ calls') (entered ++ entered') := by
  induction h with
  | nil => exact h'
  | node children within again _ _ ih =>
    simp only [List.cons_append, List.append_assoc]
    exact .node children within again ih

/-- What is entered are the given nodes, in order. -/
theorem entered_eq {calls : List HookCall} {entered : List AnyNode} (h : Bracketed calls entered) :
    calls.filterMap HookCall.entered? = entered := by
  induction h with
  | nil => rfl
  | @node any inside after rest below others _ _ again _ hinside hrest =>
    have hafter : after.filterMap HookCall.entered? = [] := by
      rcases again with rfl | rfl <;> rfl
    simp only [List.filterMap_cons, List.filterMap_append, HookCall.entered?, hinside, hrest,
      hafter, List.nil_append]

/-- Every node that is entered is left once by the hook of its kind. -/
theorem left_perm {calls : List HookCall} {entered : List AnyNode} (h : Bracketed calls entered) :
    (calls.filterMap HookCall.left?).Perm entered := by
  induction h with
  | nil => exact List.Perm.refl _
  | @node any inside after rest below others _ _ again _ hinside hrest =>
    have hafter : after.filterMap HookCall.left? = [] := by
      rcases again with rfl | rfl <;> rfl
    simp only [List.filterMap_cons, List.filterMap_append, HookCall.left?, hafter, List.nil_append]
    exact List.perm_middle.trans ((hinside.append hrest).cons any)

end Bracketed

/-- Walked nodes are nodes of the tree. -/
theorem AnyNode.mem_nodes_of_walked {any other : AnyNode} (h : other ∈ any.node.walked) :
    other ∈ any.node.nodes :=
  any.nodes_perm.mem_iff.mpr (List.mem_append_left _ h)

mutual

/-- The calls that a tree prescribes are properly nested and enter its walked
nodes. -/
theorem Node.bracketed {kind : NodeKind} (holds : Capability) : ∀ node : Node kind,
    Bracketed (node.calls holds) node.walked
  | .mk data form fields => by
    have hwithin : ∀ other ∈ fields.walked, other ∈ (Node.mk data form fields).nodes := by
      intro other hother
      refine @AnyNode.mem_nodes_of_walked ⟨kind, .mk data form fields⟩ other ?_
      rw [Node.walked]
      exact List.mem_cons_of_mem _ hother
    have hnode := @Bracketed.node ⟨kind, .mk data form fields⟩ fields.calls
      ((placedHook? holds kind).toList.map fun hook => .exit hook ⟨kind, .mk data form fields⟩ none)
      [] fields.walked [] (Fields.bracketed fields) hwithin ?_ .nil
    · rw [List.append_nil, List.append_nil] at hnode
      rw [Node.calls, Node.walked, exitHooks]
      exact hnode
    · rcases placedHook?_cases holds kind with hplaced | hplaced
      · rw [hplaced]
        exact .inl rfl
      · rw [hplaced]
        exact .inr rfl

theorem Fields.bracketed {slots : List Slot} : ∀ fields : Fields slots,
    Bracketed fields.calls fields.walked
  | .nil => by
    rw [Fields.calls, Fields.walked]
    exact .nil
  | @Fields.cons slot _ field rest => by
    rw [Fields.calls, Fields.walked]
    refine .append ?_ (Fields.bracketed rest)
    split
    · exact Field.bracketed field
    · exact .nil

theorem Field.bracketed {arity : Arity} {holds : Capability} : ∀ field : Field arity holds,
    Bracketed field.calls field.walked
  | .one node _ => by
    rw [Field.calls, Field.walked]
    exact Node.bracketed holds node
  | .absent => by
    rw [Field.calls, Field.walked]
    exact .nil
  | .present node _ => by
    rw [Field.calls, Field.walked]
    exact Node.bracketed holds node
  | .nil => by
    rw [Field.calls, Field.walked]
    exact .nil
  | .cons node _ rest => by
    rw [Field.calls, Field.walked]
    exact (Node.bracketed holds node).append (Field.bracketed rest)
  | .hole rest => by
    rw [Field.calls, Field.walked]
    exact Field.bracketed rest

end

/-! ### Programs -/

/-- A visitor that replaces nothing leaves a program as it is, and makes the calls
that the program prescribes. -/
theorem Program.walk_silent {σ : Type} {visitor : Visitor σ} (h : visitor.ReplacesNothing)
    (p : Program) (state : σ) :
    ∃ next, p.walk visitor.logged (state, []) = (p, (next, p.calls .program)) := by
  have hwalk := @Node.walk_silent _ _ h _ .program p rfl state []
  refine ⟨visitor.after state (p.calls .program), ?_⟩
  rw [Program.walk]
  dsimp only
  rw [hwalk]
  rfl

/-- The calls go through the program in the order of its numbers. -/
structure Program.Traversed (p : Program) (calls : List HookCall) (entered : List AnyNode) :
    Prop where
  /-- They are properly nested, -/
  bracketed : Bracketed calls entered
  /-- each of the nodes is entered once, -/
  enters : calls.filterMap HookCall.entered? = entered
  /-- and left once by the hook of its kind. -/
  exits : (calls.filterMap HookCall.left?).Perm entered
  /-- The numbers go up, -/
  increasing : (entered.map (·.node.id)).Pairwise (· < ·)
  /-- and are those of all nodes of the program, except for nodes inside labels and
  inside properties of members and keys of properties that are not computed. -/
  ids : entered.map (·.node.id)
    = (p.nodes.map (·.node.id)).filter (· ∉ p.names.map (·.node.id))

/-- The numbers of the nodes of an imported program go up in pre-order. -/
theorem importProgram_increasing {raw : Json} {file : Option String} {p : Program}
    (h : importProgram raw file = .ok p) : (p.nodes.map (·.node.id)).Pairwise (· < ·) := by
  obtain ⟨found, index, t, body, -, -, hreached, -, rfl⟩ := importProgram_ok h
  obtain ⟨others, hnodes, hlabels⟩ :=
    Import.nodes_finish ⟨0, raw.location? file, raw.range?, [], []⟩ t body
  have hids := hreached.ids_eq_range'
  rw [← hlabels, List.map_map, List.length_map] at hids
  have hothers : others.map (·.node.id) = List.range' 1 others.length := hids
  rw [hnodes, List.map_cons, hothers, List.pairwise_cons]
  refine ⟨fun id hid => ?_, List.pairwise_lt_range'⟩
  exact (List.mem_range'_1.mp hid).1

/-- A visitor that replaces nothing goes through an imported program in the order
of its numbers, and leaves it as it is. -/
theorem importProgram_traversed {raw : Json} {file : Option String} {p : Program}
    (h : importProgram raw file = .ok p) {σ : Type} {visitor : Visitor σ}
    (hsilent : visitor.ReplacesNothing) (state : σ) :
    ∃ next calls entered, p.walk visitor.logged (state, []) = (p, (next, calls)) ∧
      p.Traversed calls entered := by
  obtain ⟨next, hwalk⟩ := Program.walk_silent hsilent p state
  have hbracketed := Node.bracketed .program p
  have hincreasing := importProgram_increasing h
  have hids : p.walked.map (·.node.id)
      = (p.nodes.map (·.node.id)).filter (· ∉ p.names.map (·.node.id)) :=
    @AnyNode.walked_ids ⟨_, p⟩ (hincreasing.imp Nat.ne_of_lt)
  refine ⟨next, _, _, hwalk, hbracketed, hbracketed.entered_eq, hbracketed.left_perm, ?_, hids⟩
  rw [hids]
  exact hincreasing.sublist List.filter_sublist

/-- `a: { x.y; z[w]; }` -/
def labeledMembers : Json :=
  let node (kind : NodeKind) (members : List (String × Json)) : Json :=
    .object (("type", .string kind.tag) :: members)
  let identifier (name : String) : Json := node .identifier [("name", .string name)]
  let member (object property : String) (computed : Bool) : Json :=
    node .expressionStatement [("expression", node .memberExpression
      [("object", identifier object), ("property", identifier property),
        ("computed", .bool computed)])]
  node .program [("body", .array [node .labeledStatement [("label", identifier "a"),
    ("body", node .blockStatement
      [("body", .array [member "x" "y" false, member "z" "w" true])])]])]

/-- Counts the nodes that are entered. -/
def countingVisitor : Visitor Nat where
  enter _ count := count + 1
  exit _ _ count := (none, count)

theorem labeledMembers_traversed :
    ∃ p, importProgram labeledMembers none = .ok p ∧
      p.nodes.map (·.node.id) = List.range 12 ∧ p.names.map (·.node.id) = [2, 7] ∧
      countingVisitor.ReplacesNothing ∧
      ∃ next calls entered, p.walk countingVisitor.logged (0, []) = (p, (next, calls)) ∧
        p.Traversed calls entered := by
  have hfacts : (importProgram labeledMembers none).toOption.map
      (fun p => (p.nodes.map (·.node.id), p.names.map (·.node.id)))
      = some (List.range 12, [2, 7]) := by decide +kernel
  obtain ⟨p, hp, hfacts⟩ := Option.map_eq_some_iff.mp hfacts
  rw [Prod.mk.injEq] at hfacts
  have himport := importProgram_of_toOption hp
  have hsilent : countingVisitor.ReplacesNothing := fun _ _ _ => rfl
  exact ⟨p, himport, hfacts.1, hfacts.2, hsilent, importProgram_traversed himport hsilent 0⟩

end EsFront
