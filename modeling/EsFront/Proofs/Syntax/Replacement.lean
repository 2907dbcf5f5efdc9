/-
Walks that replace nodes.

Whatever a visitor gives when it leaves nodes, it makes the calls of a visitor
that gives nothing: the nodes that are entered are those of the tree as it was,
so nothing inside a replacement is entered, and the hooks on leaving a node go by
its kind as it was. What a place holds afterwards is the last answer of the hooks
that ran for it, or else the node that stood there with its own places so
rewritten (`Node.Becomes`). Main statements:

* `Visitor.leave_logged` — the hooks on leaving one node;
* `Node.walk_becomes` — what a walk makes of a tree, for every visitor;
* `Program.walk_eq_after` — the state after a walk that replaces nothing;
* `Program.walk_undisturbed` — two walks through one program, one of which
  replaces nothing.
-/
import EsFront.Proofs.Syntax.Calls

namespace EsFront

/-! ### Answers -/

namespace HookCall

/-- The hook that ran when a node was left. -/
def hook? : HookCall → Option Hook
  | enter _ => none
  | exit hook _ _ => some hook

/-- The node that was given in place of another. -/
def answer? : HookCall → Option AnyNode
  | enter _ => none
  | exit _ _ answer => answer.map Child.toAny

end HookCall

/-- The last node that one of the calls gave. -/
def lastAnswer? (calls : List HookCall) : Option AnyNode :=
  (calls.filterMap HookCall.answer?).getLast?

theorem lastAnswer?_append (calls calls' : List HookCall) :
    lastAnswer? (calls ++ calls') = (lastAnswer? calls').or (lastAnswer? calls) := by
  rw [lastAnswer?, List.filterMap_append, List.getLast?_append, lastAnswer?, lastAnswer?]

theorem lastAnswer?_singleton (call : HookCall) : lastAnswer? [call] = call.answer? := by
  rw [lastAnswer?, List.filterMap_cons]
  cases call.answer? <;> rfl

namespace Visitor

variable {σ : Type} (visitor : Visitor σ) {holds : Capability}

/-- After one hook a place holds its answer, or else what it held. -/
theorem runHook_toAny {hook : Hook}
    (accepts : ∀ kind, hook.returns.accepts kind = true → holds.accepts kind = true)
    (child : Child holds) (state : σ) :
    (visitor.runHook hook accepts child state).1.toAny
      = ((HookCall.exit hook child.toAny (visitor.exit hook child.toAny state).1).answer?).getD
          child.toAny := by
  rw [runHook_eq, HookCall.answer?]
  cases (visitor.exit hook child.toAny state).1 <;> rfl

/-- The hooks on leaving a node are those of its kind in its place, and the place
then holds their last answer. -/
theorem leave_logged (child : Child holds) (state : σ) (log : List HookCall) :
    ∃ exits result next, visitor.leave child state = (result, next) ∧
      visitor.logged.leave child (state, log) = (result, (next, log ++ exits)) ∧
      exits.map HookCall.hook? = (exitHooks holds child.kind).map some ∧
      result.toAny = (lastAnswer? exits).getD child.toAny := by
  have hanswer := visitor.runHook_toAny (accepts_of_exit child) child state
  rcases hfirst : visitor.runHook (.exit child.kind) (accepts_of_exit child) child state
    with ⟨first, middle⟩
  rw [hfirst] at hanswer
  rcases hplaced : placedHook? holds child.kind with _ | hook
  · refine ⟨[.exit (.exit child.kind) child.toAny
      (visitor.exit (.exit child.kind) child.toAny state).1], first, middle, ?_, ?_, ?_, ?_⟩
    · rw [leave_of_none _ hplaced, hfirst]
    · rw [leave_of_none _ hplaced, runHook_logged, hfirst]
    · rw [exitHooks, hplaced]
      rfl
    · rw [hanswer, lastAnswer?_singleton]
  · -- the second hook runs on what the first one leaves
    have hanswer' := visitor.runHook_toAny (fun _ => accepts_of_placed hplaced) first middle
    rcases hsecond : visitor.runHook hook (fun _ => accepts_of_placed hplaced) first middle
      with ⟨second, next⟩
    rw [hsecond] at hanswer'
    refine ⟨[.exit (.exit child.kind) child.toAny
      (visitor.exit (.exit child.kind) child.toAny state).1,
      .exit hook first.toAny (visitor.exit hook first.toAny middle).1], second, next,
      ?_, ?_, ?_, ?_⟩
    · rw [leave_of_some _ hplaced, hfirst, hsecond]
    · have hlogged := @runHook_logged _ visitor _ child _ (accepts_of_exit child) state log
      rw [hfirst] at hlogged
      rw [leave_of_some _ hplaced, hlogged, runHook_logged, hsecond, List.append_assoc]
      rfl
    · rw [exitHooks, hplaced]
      rfl
    · rw [hanswer', hanswer, ← List.singleton_append, lastAnswer?_append,
        lastAnswer?_singleton, lastAnswer?_singleton, Option.getD_or]

end Visitor

/-! ### What a walk makes of a tree -/

mutual

/-- The calls go through a node in its place and leave the result there: the last
answer of the hooks that ran on leaving the node, or else the node with its fields
as they have become. -/
inductive Node.Becomes :
    {kind : NodeKind} → Capability → Node kind → List HookCall → AnyNode → Prop where
  | mk {kind : NodeKind} {slots : List Slot} {holds : Capability} {data : NodeData}
      {form : Form kind slots} {fields rewritten : Fields slots} {inside exits : List HookCall}
      (children : Fields.Become fields inside rewritten)
      (hooks : exits.map HookCall.hook? = (exitHooks holds kind).map some) :
      Node.Becomes holds (.mk data form fields)
        (.enter ⟨kind, .mk data form fields⟩ :: (inside ++ exits))
        ((lastAnswer? exits).getD ⟨kind, .mk data form rewritten⟩)

/-- The calls go through the walked fields one after the other; the other fields
stay as they are. -/
inductive Fields.Become :
    {slots : List Slot} → Fields slots → List HookCall → Fields slots → Prop where
  | nil : Fields.Become .nil [] .nil
  | walked {slot : Slot} {slots : List Slot} {field field' : Field slot.arity slot.holds}
      {rest rest' : Fields slots} {first others : List HookCall}
      (isWalked : slot.role.isWalked = true) (head : Field.Becomes field first field')
      (tail : Fields.Become rest others rest') :
      Fields.Become (.cons field rest) (first ++ others) (.cons field' rest')
  | kept {slot : Slot} {slots : List Slot} {field : Field slot.arity slot.holds}
      {rest rest' : Fields slots} {others : List HookCall}
      (isKept : slot.role.isWalked = false) (tail : Fields.Become rest others rest') :
      Fields.Become (.cons field rest) others (.cons field rest')

/-- The calls go through the nodes of a field one after the other. -/
inductive Field.Becomes : {arity : Arity} → {holds : Capability} →
    Field arity holds → List HookCall → Field arity holds → Prop where
  | one {holds : Capability} {kind : NodeKind} {node : Node kind}
      {accepted : holds.accepts kind = true} {result : Child holds} {calls : List HookCall}
      (becomes : node.Becomes holds calls result.toAny) :
      Field.Becomes (.one node accepted) calls (.one result.node result.accepted)
  | absent {holds : Capability} : Field.Becomes (.absent : Field .optional holds) [] .absent
  | present {holds : Capability} {kind : NodeKind} {node : Node kind}
      {accepted : holds.accepts kind = true} {result : Child holds} {calls : List HookCall}
      (becomes : node.Becomes holds calls result.toAny) :
      Field.Becomes (.present node accepted) calls (.present result.node result.accepted)
  | nil {holes : Bool} {holds : Capability} :
      Field.Becomes (.nil : Field (.list holes) holds) [] .nil
  | cons {holes : Bool} {holds : Capability} {kind : NodeKind} {node : Node kind}
      {accepted : holds.accepts kind = true} {result : Child holds}
      {rest rest' : Field (.list holes) holds} {first others : List HookCall}
      (head : node.Becomes holds first result.toAny) (tail : Field.Becomes rest others rest') :
      Field.Becomes (.cons node accepted rest) (first ++ others)
        (.cons result.node result.accepted rest')
  | hole {holds : Capability} {rest rest' : Field (.list true) holds} {calls : List HookCall}
      (tail : Field.Becomes rest calls rest') :
      Field.Becomes (.hole rest) calls (.hole rest')

end

section walk

variable {σ : Type} (visitor : Visitor σ)

mutual

/-- Writing down the calls changes nothing else, and the calls say what the node
becomes. -/
theorem Node.walk_becomes {kind : NodeKind} {holds : Capability} :
    ∀ (node : Node kind) (accepted : holds.accepts kind = true) (state : σ) (log : List HookCall),
      ∃ calls result next,
        Child.walk visitor ⟨kind, node, accepted⟩ state = (result, next) ∧
        Child.walk visitor.logged ⟨kind, node, accepted⟩ (state, log)
          = (result, (next, log ++ calls)) ∧
        node.Becomes holds calls result.toAny
  | .mk data form fields, accepted, state, log => by
    obtain ⟨inside, rewritten, middle, hplain, hlogged, hinside⟩ := Fields.walk_become fields
      (visitor.enter ⟨kind, .mk data form fields⟩ state) (log ++ [.enter ⟨kind, .mk data form fields⟩])
    obtain ⟨exits, result, next, hleave, hleave', hhooks, hresult⟩ := visitor.leave_logged
      (⟨kind, .mk data form rewritten, accepted⟩ : Child holds) middle
      (log ++ [.enter ⟨kind, .mk data form fields⟩] ++ inside)
    refine ⟨.enter ⟨kind, .mk data form fields⟩ :: (inside ++ exits), result, next, ?_, ?_, ?_⟩
    · rw [Child.walk, Node.walkInside, hplain]
      exact hleave
    · rw [Child.walk, Node.walkInside]
      rw [show visitor.logged.enter ⟨kind, .mk data form fields⟩ (state, log)
        = (visitor.enter ⟨kind, .mk data form fields⟩ state,
            log ++ [.enter ⟨kind, .mk data form fields⟩]) from rfl, hlogged]
      dsimp only
      rw [hleave', List.append_assoc, List.append_assoc]
      rfl
    · rw [hresult]
      exact .mk hinside hhooks

theorem Fields.walk_become {slots : List Slot} :
    ∀ (fields : Fields slots) (state : σ) (log : List HookCall),
      ∃ calls rewritten next,
        fields.walk visitor state = (rewritten, next) ∧
        fields.walk visitor.logged (state, log) = (rewritten, (next, log ++ calls)) ∧
        fields.Become calls rewritten
  | .nil, state, log => by
    refine ⟨[], .nil, state, ?_, ?_, .nil⟩
    · rw [Fields.walk]
    · rw [Fields.walk, List.append_nil]
  | @Fields.cons slot _ field rest, state, log => by
    rw [Fields.walk, Fields.walk]
    by_cases hwalked : slot.role.isWalked = true
    · obtain ⟨first, field', middle, hplain, hlogged, hfield⟩ := Field.walk_becomes field state log
      obtain ⟨others, rest', next, hplain', hlogged', hrest⟩ :=
        Fields.walk_become rest middle (log ++ first)
      refine ⟨first ++ others, .cons field' rest', next, ?_, ?_, .walked hwalked hfield hrest⟩
      · rw [if_pos hwalked, hplain]
        dsimp only
        rw [hplain']
      · rw [if_pos hwalked, hlogged]
        dsimp only
        rw [hlogged', List.append_assoc]
    · obtain ⟨others, rest', next, hplain, hlogged, hrest⟩ := Fields.walk_become rest state log
      refine ⟨others, .cons field rest', next, ?_, ?_, .kept (eq_false_of_ne_true hwalked) hrest⟩
      · rw [if_neg hwalked, hplain]
      · rw [if_neg hwalked, hlogged]

theorem Field.walk_becomes {arity : Arity} {holds : Capability} :
    ∀ (field : Field arity holds) (state : σ) (log : List HookCall),
      ∃ calls rewritten next,
        field.walk visitor state = (rewritten, next) ∧
        field.walk visitor.logged (state, log) = (rewritten, (next, log ++ calls)) ∧
        field.Becomes calls rewritten
  | .one node accepted, state, log => by
    obtain ⟨calls, result, next, hplain, hlogged, hnode⟩ :=
      Node.walk_becomes node accepted state log
    exact ⟨calls, .one result.node result.accepted, next,
      congrArg (fun r : Child holds × _ => (Field.one r.1.node r.1.accepted, r.2)) hplain,
      congrArg (fun r : Child holds × _ => (Field.one r.1.node r.1.accepted, r.2)) hlogged,
      .one hnode⟩
  | .absent, state, log => by
    refine ⟨[], .absent, state, ?_, ?_, .absent⟩
    · rw [Field.walk]
    · rw [Field.walk, List.append_nil]
  | .present node accepted, state, log => by
    obtain ⟨calls, result, next, hplain, hlogged, hnode⟩ :=
      Node.walk_becomes node accepted state log
    exact ⟨calls, .present result.node result.accepted, next,
      congrArg (fun r : Child holds × _ => (Field.present r.1.node r.1.accepted, r.2)) hplain,
      congrArg (fun r : Child holds × _ => (Field.present r.1.node r.1.accepted, r.2)) hlogged,
      .present hnode⟩
  | .nil, state, log => by
    refine ⟨[], .nil, state, ?_, ?_, .nil⟩
    · rw [Field.walk]
    · rw [Field.walk, List.append_nil]
  | .cons node accepted rest, state, log => by
    obtain ⟨first, result, middle, hplain, hlogged, hnode⟩ :=
      Node.walk_becomes node accepted state log
    obtain ⟨others, rest', next, hplain', hlogged', hrest⟩ :=
      Field.walk_becomes rest middle (log ++ first)
    refine ⟨first ++ others, .cons result.node result.accepted rest', next, ?_, ?_,
      .cons hnode hrest⟩
    · rw [Field.walk_cons, hplain]
      dsimp only
      rw [hplain']
    · rw [Field.walk_cons, hlogged]
      dsimp only
      rw [hlogged', List.append_assoc]
  | .hole rest, state, log => by
    obtain ⟨calls, rest', next, hplain, hlogged, hrest⟩ := Field.walk_becomes rest state log
    refine ⟨calls, .hole rest', next, ?_, ?_, .hole hrest⟩
    · rw [Field.walk, hplain]
    · rw [Field.walk, hlogged]

end

end walk

/-! ### The calls that are made -/

/-- What a call shows whatever is replaced: its name and the node that is entered. -/
def HookCall.outline (call : HookCall) : String × Option AnyNode := (call.name, call.entered?)

theorem outline_of_hooks : ∀ {exits : List HookCall} {hooks : List Hook},
    exits.map HookCall.hook? = hooks.map some →
      exits.map HookCall.outline = hooks.map fun hook => (hook.name, none)
  | [], [], _ => rfl
  | [], _ :: _, h => nomatch h
  | _ :: _, [], h => nomatch h
  | .enter _ :: _, _ :: _, h => nomatch h
  | .exit .. :: _, _ :: _, h => by
    simp only [List.map_cons, HookCall.hook?, List.cons.injEq, Option.some.injEq] at h
    obtain ⟨rfl, h⟩ := h
    rw [List.map_cons, List.map_cons, outline_of_hooks h]
    rfl

theorem outline_exits (hooks : List Hook) (any : AnyNode) :
    (hooks.map fun hook => HookCall.exit hook any none).map HookCall.outline
      = hooks.map fun hook => (hook.name, none) := by
  rw [List.map_map]
  rfl

mutual

/-- Whatever becomes of a node, the calls show what those show that the tree
prescribes. -/
theorem Node.Becomes.outline {kind : NodeKind} {holds : Capability} {node : Node kind}
    {calls : List HookCall} {result : AnyNode} : node.Becomes holds calls result →
      calls.map HookCall.outline = (node.calls holds).map HookCall.outline
  | .mk children hooks => by
    rw [Node.calls, List.map_cons, List.map_cons, List.map_append, List.map_append,
      Fields.Become.outline children, outline_of_hooks hooks, outline_exits]

theorem Fields.Become.outline {slots : List Slot} {fields rewritten : Fields slots}
    {calls : List HookCall} : fields.Become calls rewritten →
      calls.map HookCall.outline = fields.calls.map HookCall.outline
  | .nil => by rw [Fields.calls]
  | .walked isWalked head tail => by
    rw [Fields.calls, if_pos isWalked, List.map_append, List.map_append,
      Field.Becomes.outline head, Fields.Become.outline tail]
  | .kept isKept tail => by
    rw [Fields.calls, isKept, Fields.Become.outline tail]
    rfl

theorem Field.Becomes.outline {arity : Arity} {holds : Capability}
    {field rewritten : Field arity holds} {calls : List HookCall} :
    field.Becomes calls rewritten →
      calls.map HookCall.outline = field.calls.map HookCall.outline
  | .one becomes => by rw [Field.calls, Node.Becomes.outline becomes]
  | .absent => by rw [Field.calls]
  | .present becomes => by rw [Field.calls, Node.Becomes.outline becomes]
  | .nil => by rw [Field.calls]
  | .cons head tail => by
    rw [Field.calls, List.map_append, List.map_append, Node.Becomes.outline head,
      Field.Becomes.outline tail]
  | .hole tail => by rw [Field.calls, Field.Becomes.outline tail]

end

/-- The names of the calls are those that the tree prescribes. -/
theorem Node.Becomes.names {kind : NodeKind} {holds : Capability} {node : Node kind}
    {calls : List HookCall} {result : AnyNode} (h : node.Becomes holds calls result) :
    calls.map HookCall.name = (node.calls holds).map HookCall.name := by
  have houtline := congrArg (List.map Prod.fst) h.outline
  rwa [List.map_map, List.map_map] at houtline

/-- The nodes that are entered are the walked nodes of the tree as it was. -/
theorem Node.Becomes.entered {kind : NodeKind} {holds : Capability} {node : Node kind}
    {calls : List HookCall} {result : AnyNode} (h : node.Becomes holds calls result) :
    calls.filterMap HookCall.entered? = node.walked := by
  have houtline := congrArg (List.filterMap Prod.snd) h.outline
  rw [List.filterMap_map, List.filterMap_map] at houtline
  exact houtline.trans (Node.bracketed holds node).entered_eq

/-! ### Programs -/

theorem Child.toAny_toProgram : ∀ child : Child .program,
    child.toAny = ⟨.program, child.toProgram⟩
  | ⟨.program, _, _⟩ => rfl

/-- A visitor that replaces nothing comes to the state that the calls lead to that the
program prescribes. -/
theorem Program.walk_eq_after {σ : Type} {visitor : Visitor σ} (h : visitor.ReplacesNothing)
    (p : Program) (state : σ) :
    p.walk visitor state = (p, visitor.after state (p.calls .program)) := by
  obtain ⟨calls, result, next, hplain, hlogged, -⟩ :=
    @Node.walk_becomes _ visitor _ .program p rfl state []
  have hsilent := hlogged.symm.trans (@Node.walk_silent _ _ h _ .program p rfl state [])
  rw [Prod.mk.injEq, Prod.mk.injEq] at hsilent
  obtain ⟨rfl, rfl, -⟩ := hsilent
  rw [Program.walk]
  dsimp only
  rw [hplain]
  rfl

/-- Replacing nodes does not disturb a walk: the hooks that are called have the names
that they have for a visitor that replaces nothing, the nodes that are entered are
those of the program as it was, none of them inside a replacement, and every place
holds what the hooks that ran for it gave last, or else what it held. -/
theorem Program.walk_undisturbed {σ τ : Type} (visitor : Visitor σ) {silent : Visitor τ}
    (hsilent : silent.ReplacesNothing) (p : Program) (state : σ) (start : τ) :
    ∃ calls result next,
      p.walk visitor state = (result, next) ∧
      p.walk visitor.logged (state, []) = (result, (next, calls)) ∧
      calls.map HookCall.name = (p.walk silent.logged (start, [])).2.2.map HookCall.name ∧
      calls.filterMap HookCall.entered? = p.walked ∧
      p.Becomes .program calls ⟨.program, result⟩ := by
  obtain ⟨calls, result, next, hplain, hlogged, hbecomes⟩ :=
    @Node.walk_becomes _ visitor _ .program p rfl state []
  obtain ⟨_, hwalk⟩ := Program.walk_silent hsilent p start
  refine ⟨calls, result.toProgram, next, ?_, ?_, ?_, hbecomes.entered, ?_⟩
  · rw [Program.walk]
    dsimp only
    rw [hplain]
  · rw [Program.walk]
    dsimp only
    rw [hlogged]
    rfl
  · rw [hwalk]
    exact hbecomes.names
  · rw [← Child.toAny_toProgram]
    exact hbecomes

/-- Names identifiers by the number of calls so far; every other one of them, where
it stands as an expression, then gives way to `this`. -/
def renamingVisitor : Visitor Nat where
  enter _ count := count + 1
  exit hook _ count :=
    (match hook with
      | .exit .identifier =>
        let name := "x" ++ toString count
        some ⟨.identifier, .mk default (.identifier name false .unresolved) .nil, rfl⟩
      | .exitPlaced .identifier =>
        if count % 2 = 0 then some ⟨.thisExpression, .mk default .thisExpression .nil, rfl⟩ else none
      | _ => none, count + 1)

/-- In `a: { x.y; z[w]; }` the hooks for `z` answer twice, and the second answer
counts. -/
theorem labeledMembers_undisturbed :
    ∃ p, importProgram labeledMembers none = .ok p ∧
      ((p.walk renamingVisitor 0).1.nodes.filterMap AnyNode.identifier?).map (·.name)
        = ["a", "x6", "y", "x16"] ∧
      (p.walk renamingVisitor 0).1.nodes.map (·.kind)
        = [.program, .labeledStatement, .identifier, .blockStatement,
          .expressionStatement, .memberExpression, .identifier, .identifier,
          .expressionStatement, .memberExpression, .thisExpression, .identifier] ∧
      countingVisitor.ReplacesNothing ∧
      ∃ calls result next,
        p.walk renamingVisitor 0 = (result, next) ∧
        p.walk renamingVisitor.logged (0, []) = (result, (next, calls)) ∧
        calls.map HookCall.name
          = (p.walk countingVisitor.logged (0, [])).2.2.map HookCall.name ∧
        calls.filterMap HookCall.entered? = p.walked ∧
        p.Becomes .program calls ⟨.program, result⟩ := by
  have hfacts : (importProgram labeledMembers none).toOption.map
      (fun p => (((p.walk renamingVisitor 0).1.nodes.filterMap AnyNode.identifier?).map (·.name),
        (p.walk renamingVisitor 0).1.nodes.map (·.kind)))
      = some (["a", "x6", "y", "x16"],
        [.program, .labeledStatement, .identifier, .blockStatement,
          .expressionStatement, .memberExpression, .identifier, .identifier,
          .expressionStatement, .memberExpression, .thisExpression, .identifier]) := by
    decide +kernel
  obtain ⟨p, hp, hfacts⟩ := Option.map_eq_some_iff.mp hfacts
  rw [Prod.mk.injEq] at hfacts
  have hsilent : countingVisitor.ReplacesNothing := fun _ _ _ => rfl
  exact ⟨p, importProgram_of_toOption hp, hfacts.1, hfacts.2, hsilent,
    Program.walk_undisturbed renamingVisitor hsilent p 0 0⟩

end EsFront
