/-
Three records of the same scopes.

What is known about scopes during a walk is kept in three places: the live chain, in
which names are looked up, the tree of all scopes, and the list of declarations. At
every moment they agree (`Live.Coherent`), whatever events have happened and in
whatever order. What goes into this beyond the coupling of chain and tree is that
every declaration is listed exactly once and scopes are opened inside older ones
(`Live.Aligned`). Main statements:

* `Live.Aligned.step`, `Live.run_aligned` — for one event and for a whole walk;
* `ScopeWalk.perform_live` — a hook of the visitor does nothing but let events happen;
* `Program.walkScopes_coherent` — along the walk of every program.
-/
import EsFront.Proofs.Scope.Moments
import EsFront.Proofs.Syntax.Replacement
import EsFront.Scope.Hooks

namespace EsFront

/-! ### The nearest function -/

namespace Chain

variable {chain : Chain String} {name : String} {decl : DeclId}

/-- A name goes past the blocks to the function around them. -/
theorem insertFunction_append {inner : Chain String} (hinner : ∀ frame ∈ inner, frame.kind = .block)
    {frame : Frame String} (hkind : frame.kind = .function) (outer : Chain String) :
    insertFunction (inner ++ frame :: outer) name decl
      = inner ++ frame.insert name decl :: outer := by
  induction inner with
  | nil => exact if_pos hkind
  | cons first rest ih =>
    rw [List.forall_mem_cons] at hinner
    have hblock : ¬ first.kind = .function := by
      rw [hinner.1]
      decide
    rw [List.cons_append, insertFunction, if_neg hblock, ih hinner.2, List.cons_append]

theorem insertFunction_eq_self (h : chain.function? = none) :
    chain.insertFunction name decl = chain := by
  induction chain with
  | nil => rfl
  | cons first rest ih =>
    have hblocks := List.find?_eq_none.mp h
    have hblock : ¬ first.kind = .function := fun hkind =>
      hblocks first List.mem_cons_self (decide_eq_true hkind)
    have hrest : function? rest = none := List.find?_eq_none.mpr fun frame hframe =>
      hblocks frame (List.mem_cons_of_mem _ hframe)
    rw [insertFunction, if_neg hblock, ih hrest]

end Chain

/-! ### All listed declarations -/

namespace ScopeTree

variable {tree : ScopeTree}

/-- All declarations that are listed, scope by scope. -/
def allListed (tree : ScopeTree) : List DeclId := tree.scopes.flatMap (·.declarations)

theorem allListed_add (kind : ScopeKind) (parent : Option ScopeId) :
    (tree.add kind parent).allListed = tree.allListed := by
  rw [allListed, add, List.flatMap_append]
  exact List.append_nil _

theorem allListed_addDeclaration {scope : ScopeId} (hscope : scope < tree.scopes.length)
    (decl : DeclId) :
    (tree.addDeclaration scope decl).allListed.Perm (tree.allListed ++ [decl]) := by
  have hsplit : tree.scopes
      = tree.scopes.take scope ++ tree.scopes[scope] :: tree.scopes.drop (scope + 1) := by
    rw [List.getElem_cons_drop, List.take_append_drop]
  rw [allListed, addDeclaration, List.modify_eq_take_cons_drop hscope, allListed]
  conv_rhs => rw [hsplit]
  simp only [List.flatMap_append, List.flatMap_cons, List.append_assoc]
  exact (List.perm_append_comm.append_left _).append_left _

/-- When scopes lie in older ones, the way out of a scope leads from each scope to the
one around it, and comes to an end. -/
theorem linked_ancestors (h : ∀ scope parent, tree.parent? scope = some parent → parent < scope)
    (scope : ScopeId) : tree.Linked (tree.ancestors scope) := by
  induction scope using Nat.strongRecOn with
  | _ scope ih =>
    rw [ancestors]
    cases hparent : tree.parent? scope with
    | none => exact ⟨hparent, trivial⟩
    | some parent =>
      have hlt := h scope parent hparent
      dsimp only
      rw [if_pos hlt]
      refine ⟨?_, ih parent hlt⟩
      rw [hparent, ancestors]
      rfl

end ScopeTree

namespace Live

variable {live : Live String}

/-! ### What every event keeps -/

/-- The coupling of chain and tree, and the order of scopes and declarations. -/
structure Aligned (live : Live String) : Prop where
  coupled : live.Coupled
  framed : live.Framed
  placed : live.Placed
  outward : ∀ scope parent, live.tree.parent? scope = some parent → parent < scope
  once : live.tree.allListed.Perm (List.range live.declarations.length)

theorem aligned_start : (start : Live String).Aligned where
  coupled := coupled_start
  framed := kept_start.framed
  placed := kept_start.placed
  outward := fun _ _ h => nomatch h
  once := List.Perm.nil

theorem Aligned.record (h : live.Aligned) (name : String) (site : Site) (outcome : Outcome) :
    (live.record name site outcome).Aligned where
  coupled := h.coupled.record name site outcome
  framed := h.framed.record name site outcome
  placed := h.placed.record name site outcome
  outward := by
    rw [record_tree]
    exact h.outward
  once := by
    rw [record_tree, record_declarations]
    exact h.once

theorem Aligned.leave (h : live.Aligned) : live.leave.Aligned where
  coupled := h.coupled.leave
  framed := h.framed.leave
  placed := h.placed
  outward := h.outward
  once := h.once

theorem Aligned.enter (h : live.Aligned) (kind : ScopeKind) : (live.enter kind).Aligned where
  coupled := h.coupled.enter kind
  framed := h.framed.enter h.coupled kind
  placed := h.placed.enter kind
  outward := by
    intro scope parent hparent
    change (live.tree.add kind live.chain.current?).parent? scope = some parent at hparent
    rw [ScopeTree.parent?, ScopeTree.get?_add] at hparent
    split at hparent
    · -- the scope that is opened lies in one that is open
      rename_i hnew
      rw [hnew]
      refine h.coupled.opened parent ?_
      obtain ⟨frame, hhead, rfl⟩ := Option.map_eq_some_iff.mp hparent
      exact List.mem_map_of_mem (List.mem_of_head? hhead)
    · exact h.outward scope parent hparent
  once := by
    change (live.tree.add kind live.chain.current?).allListed.Perm _
    rw [ScopeTree.allListed_add]
    exact h.once

theorem Aligned.declare (h : live.Aligned) {decl : Declaration}
    (hid : decl.id = live.declarations.length) (hscope : decl.scope ∈ live.chain.ids) :
    (live.declare decl).Aligned where
  coupled := h.coupled.declare hid hscope
  framed := h.framed.declare decl
  placed := h.placed.declare h.coupled hid hscope
  outward := by
    intro scope parent hparent
    refine h.outward scope parent ?_
    rw [← live.tree.parent?_addDeclaration decl.scope decl.id]
    exact hparent
  once := by
    change (live.tree.addDeclaration decl.scope decl.id).allListed.Perm
      (List.range (live.declarations ++ [decl]).length)
    rw [List.length_append, List.length_singleton, List.range_succ, hid]
    exact (ScopeTree.allListed_addDeclaration (h.coupled.opened _ hscope) _).trans
      (h.once.append_right _)

theorem Aligned.step (h : live.Aligned) (event : ScopeEvent) : (live.step event).Aligned :=
  step_keeps h.coupled.nodup h h.enter h.leave (fun _ => h.declare) (fun _ hnext => hnext.record)
    event

theorem run_aligned (h : live.Aligned) (events : List ScopeEvent) : (live.run events).Aligned :=
  h.coupled.run_keeps (fun _ _ hnext => hnext.step) h events

/-! ### Agreement -/

/-- The live chain, the tree of scopes and the list of declarations agree. -/
structure Coherent (live : Live String) : Prop where
  /-- The live scopes are the way out of the innermost one, -/
  ancestors : ∀ scope, live.chain.current? = some scope →
    live.tree.ancestors scope = live.chain.ids
  /-- with the kinds that the tree has for them, -/
  kinds : live.chain.ids.map live.tree.kind? = live.chain.kinds.map some
  /-- and inner ones have greater numbers. -/
  order : live.chain.ids.Pairwise (· > ·)
  /-- The scope around another one has a smaller number, -/
  outward : ∀ scope parent, live.tree.parent? scope = some parent → parent < scope
  /-- so the way out, from each scope to the one around it, comes to an end. -/
  ends : ∀ scope, live.tree.Linked (live.tree.ancestors scope)
  /-- A live scope binds a name to the last declaration of that name that the tree
  lists in it. -/
  names : ∀ frame ∈ live.chain, ∀ name,
    frame.local? name = (live.lastIn name frame.id).map (·.id)
  /-- What a scope lists are numbers of declarations that belong to it. -/
  listed : ∀ scope record, live.tree.get? scope = some record → ∀ id ∈ record.declarations,
    ∃ d, live.declarations[id]? = some d ∧ d.id = id ∧ d.scope = scope
  /-- Every declaration is listed once in all scopes together. -/
  once : live.tree.allListed.Perm (List.range live.declarations.length)
  /-- A name that is bound in the nearest function goes to the frame that is found
  as the nearest function, and no other frame changes. -/
  function : ∀ frame, live.chain.function? = some frame → frame.kind = .function ∧
    ∃ outer, live.chain = live.chain.blocks ++ frame :: outer ∧ ∀ name decl,
      live.chain.insertFunction name decl = live.chain.blocks ++ frame.insert name decl :: outer
  /-- Where none is found, none is reached. -/
  noFunction : live.chain.function? = none → ∀ name decl,
    live.chain.insertFunction name decl = live.chain

theorem Aligned.coherent (h : live.Aligned) : live.Coherent where
  ancestors := fun scope hscope => h.coupled.ancestors_current hscope
  kinds := by
    rw [Chain.ids, Chain.kinds, List.map_map, List.map_map]
    exact List.map_congr_left h.framed
  order := h.coupled.order
  outward := h.outward
  ends := ScopeTree.linked_ancestors h.outward
  names := fun frame hframe name => h.coupled.local?_eq hframe name
  listed := by
    intro scope record hrecord id hid
    have hlt := h.coupled.known scope record hrecord id hid
    have hget : live.declarations[id]? = some live.declarations[id] := List.getElem?_eq_getElem hlt
    refine ⟨_, hget, h.coupled.ids id _ hget, h.placed scope _ ?_⟩
    rw [Live.listed, ScopeTree.listed, hrecord]
    exact List.mem_filterMap.mpr ⟨id, hid, hget⟩
  once := h.once
  function := by
    intro frame hframe
    have hkind := Chain.kind_of_function? hframe
    -- the frame that is read is the first behind the blocks
    obtain ⟨outer, houter⟩ := Chain.eq_blocks_append hframe
    refine ⟨hkind, outer, houter, fun name decl => ?_⟩
    conv_lhs => rw [houter]
    exact Chain.insertFunction_append (fun _ => Chain.kind_of_mem_blocks) hkind outer
  noFunction := fun hnone name decl => Chain.insertFunction_eq_self hnone

end Live

/-! ### The visitor -/

namespace ScopeWalk

variable {names : List String}

theorem enterBlock_live (walk : ScopeWalk) :
    ∃ events, walk.enterBlock.live = walk.live.run events := by
  unfold enterBlock
  split
  · exact ⟨[], rfl⟩
  · exact ⟨[.enter .block], rfl⟩

theorem exitBlock_live (walk : ScopeWalk) :
    ∃ events, walk.exitBlock.live = walk.live.run events := by
  unfold exitBlock
  split
  · exact ⟨[], rfl⟩
  · exact ⟨[.leave], rfl⟩
  · exact ⟨[], rfl⟩

theorem meet_live (walk : ScopeWalk) (data : NodeData) (found : IdentifierView) :
    ∃ events, (walk.meet data found).live = walk.live.run events := by
  unfold meet
  dsimp only
  split
  · exact ⟨[], rfl⟩
  · exact ⟨[.use found.name ⟨data.id, data.loc⟩], rfl⟩

/-- A hook lets events happen, and does nothing else to scopes and declarations. -/
theorem perform_live (walk : ScopeWalk) (call : HookCall) :
    ∃ events, ((scopeVisitor names).perform walk call).live = walk.live.run events := by
  cases call with
  | enter given =>
    obtain ⟨kind, data, form, fields⟩ := given
    cases form with
    | blockStatement => exact walk.enterBlock_live
    | identifier name isBinder info => exact walk.meet_live data ⟨name, isBinder, info⟩
    | program comments index => exact ⟨_, rfl⟩
    | functionDeclaration generator | functionExpression generator => exact ⟨_, rfl⟩
    | catchClause | switchStatement | forStatement | forInStatement => exact ⟨_, rfl⟩
    | variableDeclarator kind => exact ⟨_, rfl⟩
    | _ => exact ⟨[], rfl⟩
  | exit hook given answer =>
    cases hook with
    | exitPlaced kind => exact ⟨[], rfl⟩
    | exit kind =>
      cases kind with
      | blockStatement => exact walk.exitBlock_live
      | program | functionDeclaration | functionExpression => exact ⟨[.leave, .leave], rfl⟩
      | catchClause | switchStatement | forStatement | forInStatement => exact ⟨[.leave], rfl⟩
      | _ => exact ⟨[], rfl⟩

end ScopeWalk

/-- The state of the visitor after so many hooks. -/
def Program.scopeState (options : ResolveOptions) (p : Program) (n : Nat) : ScopeWalk :=
  (scopeVisitor options.names).after .start ((p.calls .program).take n)

theorem Program.scopeState_succ (options : ResolveOptions) (p : Program) (n : Nat) :
    ∃ events, (p.scopeState options (n + 1)).live = (p.scopeState options n).live.run events := by
  rw [scopeState, List.take_add_one, Visitor.after_append]
  cases (p.calls .program)[n]? with
  | none => exact ⟨[], rfl⟩
  | some call => exact ScopeWalk.perform_live _ call

theorem Program.scopeState_eq_run (options : ResolveOptions) (p : Program) (n : Nat) :
    ∃ events, (p.scopeState options n).live = Live.start.run events := by
  induction n with
  | zero => exact ⟨[], rfl⟩
  | succ n ih =>
    obtain ⟨before, hbefore⟩ := ih
    obtain ⟨events, hevents⟩ := p.scopeState_succ options n
    refine ⟨before ++ events, ?_⟩
    rw [hevents, hbefore, Live.run_append]

/-- Whatever program is walked, after every hook the live chain, the tree of scopes and
the list of declarations agree. One hook is a row of events, and whatever events happen
lead to states in which the three agree, so they also do in the midst of a hook. -/
theorem Program.walkScopes_coherent (options : ResolveOptions) (p : Program) :
    p.walkScopes options = (p, p.scopeState options (p.calls .program).length) ∧
    p.scopeState options 0 = .start ∧
    (∀ n, (p.scopeState options n).live.Coherent ∧ ∃ events,
      (p.scopeState options (n + 1)).live = (p.scopeState options n).live.run events) ∧
    ∀ events, (Live.start.run events).Coherent := by
  have hcoherent : ∀ events, (Live.start.run events).Coherent := fun events =>
    (Live.run_aligned Live.aligned_start events).coherent
  refine ⟨?_, rfl, fun n => ⟨?_, p.scopeState_succ options n⟩, hcoherent⟩
  · have hsilent : (scopeVisitor options.names).ReplacesNothing := fun _ _ _ => rfl
    rw [scopeState, List.take_length]
    exact Program.walk_eq_after hsilent p ScopeWalk.start
  · obtain ⟨events, hevents⟩ := p.scopeState_eq_run options n
    rw [hevents]
    exact hcoherent events

/-- In `var x; { let x; }` both live scopes that bind the name have their own number
for it. -/
example : (Live.start.run [.enter .function, .enter .block, .bind (.declarator .var) "x" ⟨3, none⟩,
      .enter .block, .bind (.declarator .lexical) "x" ⟨7, none⟩]).chain.map
        (fun frame => (frame.id, frame.kind, frame.local? "x"))
    = [(2, .block, some 1), (1, .block, none), (0, .function, some 0)] := by decide +kernel

end EsFront
