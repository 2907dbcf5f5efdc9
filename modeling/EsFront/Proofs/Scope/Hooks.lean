/-
The visitor that resolves names follows the nesting of the syntax.

The visitor keeps a flag for the next block and a stack of what the open blocks
have done. Both are right because no other block comes between a function or
catch clause and its body: in front of the body there are only binders
(`Pends`). So the visitor does what the events of the program say, in the same
order but for binders, which it declares before it meets them. Main statements:

* `Fields.visits`, `Node.visits` — what the visitor has done when it has gone
  through a tree (`ScopeWalk.After`);
* `importProgram_nesting` — after an imported program all scopes are closed, the
  stack is empty and the flag is not set, and the scope tree is the outline of
  the program.
-/
import EsFront.Proofs.Scope.Conflict
import EsFront.Proofs.Scope.Outline
import EsFront.Scope.Hooks

namespace EsFront

/-! ### Binders and other fields -/

/-- The events of the fields that do not bind. -/
def Fields.innerEvents {slots : List Slot} : Fields slots → List ScopeEvent
  | .nil => []
  | @Fields.cons slot _ field rest =>
    (if slot.role.isWalked && !slot.role.isBinder then field.scopeEvents slot.role else []) ++
      rest.innerEvents

/-- Fields with these slots can be walked when the flag is as given. Binders come
first and leave it as it is; a body takes it back; nothing else may come while it
is set. -/
def Pends : Bool → List Slot → Prop
  | pending, [] => pending = false
  | pending, slot :: rest =>
    if slot.role.isBinder then slot.holds = .identifier ∧ Pends pending rest
    else
      (slot.role = .body → slot.arity = .one ∧ slot.holds = .block) ∧
        pending = decide (slot.role = .body) ∧ (∀ other ∈ rest, other.role.isBinder = false) ∧
        Pends false rest

theorem Pends.cons {pending : Bool} {slot : Slot} {rest : List Slot}
    (h : Pends pending (slot :: rest)) :
    (slot.role.isBinder = true → slot.holds = .identifier) ∧
      (slot.role = .body → slot.arity = .one ∧ slot.holds = .block) ∧
      (slot.role.isBinder = false → pending = decide (slot.role = .body)) ∧
      Pends (if slot.role.isBinder then pending else false) rest := by
  rw [Pends] at h
  cases hbinder : slot.role.isBinder with
  | true =>
    rw [hbinder, if_pos rfl] at h
    refine ⟨fun _ => h.1, fun hrole => ?_, fun hnot => ?_, h.2⟩
    · rw [hrole] at hbinder
      cases hbinder
    · cases hnot
  | false =>
    rw [hbinder, if_neg Bool.false_ne_true] at h
    exact ⟨fun hnot => absurd hnot Bool.false_ne_true, h.1, fun _ => h.2.1, h.2.2.2⟩

theorem Form.pends {kind : NodeKind} {slots : List Slot} (form : Form kind slots) :
    Pends kind.ownsBody slots := by
  cases form <;> simp [Pends, Role.isBinder, NodeKind.ownsBody]

theorem Fields.binders_eq_nil {slots : List Slot}
    (h : ∀ slot ∈ slots, slot.role.isBinder = false) :
    ∀ fields : Fields slots, fields.binders = []
  | .nil => rfl
  | @Fields.cons slot _ field rest => by
    rw [List.forall_mem_cons] at h
    rw [Fields.binders, Fields.binders_eq_nil h.2 rest, List.append_nil]
    split
    · rename_i binding hrole
      rw [hrole] at h
      cases h.1
    · rfl

/-- Binders come before all else. -/
theorem Fields.scopeEvents_eq_append {pending : Bool} {slots : List Slot} (h : Pends pending slots) :
    ∀ fields : Fields slots, fields.scopeEvents = fields.binders ++ fields.innerEvents
  | .nil => rfl
  | @Fields.cons slot _ field rest => by
    rw [Pends] at h
    rw [Fields.scopeEvents, Fields.binders, Fields.innerEvents]
    split at h
    · rename_i hbinder
      rw [Fields.scopeEvents_eq_append h.2 rest, hbinder]
      cases hrole : slot.role with
      | binder binding => simp [Role.isWalked]
      | _ =>
        rw [hrole] at hbinder
        cases hbinder
    · rename_i hbinder
      rw [Bool.not_eq_true] at hbinder
      rw [Fields.scopeEvents_eq_append h.2.2.2 rest, Fields.binders_eq_nil h.2.2.1 rest, hbinder]
      cases hrole : slot.role with
      | binder binding =>
        rw [hrole] at hbinder
        cases hbinder
      | _ => simp

namespace ScopeWalk

/-- The scopes of a state and the places of the identifiers met. -/
def shape (walk : ScopeWalk) : Shape := walk.live.shapeWith walk.located

/-- The later state comes after the events, of which those in `inner` were still
to happen, and the flag is then as given. -/
structure After (walk : ScopeWalk) (inner events : List ScopeEvent) (pending : Bool)
    (next : ScopeWalk) : Prop where
  live : next.live = walk.live.run inner
  shape : next.shape = walk.shape.run events
  blocks : next.blocks = walk.blocks
  pending : next.pending = pending

namespace After

variable {walk next last : ScopeWalk} {inner events inner' events' : List ScopeEvent}
  {pending pending' : Bool}

theorem refl (walk : ScopeWalk) : walk.After [] [] walk.pending walk := ⟨rfl, rfl, rfl, rfl⟩

theorem trans (h : walk.After inner events pending next)
    (h' : next.After inner' events' pending' last) :
    walk.After (inner ++ inner') (events ++ events') pending' last where
  live := by rw [h'.live, h.live, Live.run_append]
  shape := by rw [h'.shape, h.shape, Shape.run_append]
  blocks := h'.blocks.trans h.blocks
  pending := h'.pending

theorem coupled (h : walk.After inner events pending next) (hwalk : walk.live.Coupled) :
    next.live.Coupled := by
  rw [h.live]
  exact Live.run_coupled hwalk inner

end After

end ScopeWalk

/-! ### Events that meet no identifier -/

/-- What an identifier is made of. -/
theorem Node.exists_identifier {kind : NodeKind} (hkind : kind = .identifier) (node : Node kind) :
    ∃ data name isBinder info,
      node = hkind ▸ Node.mk data (.identifier name isBinder info) .nil := by
  subst hkind
  obtain ⟨data, form, fields⟩ := node
  cases form with
  | identifier name isBinder info =>
    cases fields
    exact ⟨data, name, isBinder, info, rfl⟩

/-- An identifier in the place of a binder binds its name. -/
theorem Node.mem_binders {kind : NodeKind} (hkind : kind = .identifier) {binding : Binding}
    (node : Node kind) {event : ScopeEvent} (h : event ∈ node.scopeEvents (.binder binding)) :
    ∃ binding name site, event = .bind binding name site := by
  obtain ⟨data, name, isBinder, info, rfl⟩ := node.exists_identifier hkind
  subst hkind
  exact ⟨binding, name, ⟨data.id, data.loc⟩, List.mem_singleton.mp h⟩

theorem Field.mem_binders {arity : Arity} {holds : Capability} (hholds : holds = .identifier)
    {binding : Binding} {event : ScopeEvent} : ∀ field : Field arity holds,
      event ∈ field.scopeEvents (.binder binding) → ∃ binding name site, event = .bind binding name site
  | .one node accepted, h => node.mem_binders (kind_of_identifier hholds accepted) h
  | .absent, h => absurd h List.not_mem_nil
  | .present node accepted, h => node.mem_binders (kind_of_identifier hholds accepted) h
  | .nil, h => absurd h List.not_mem_nil
  | .cons node accepted rest, h => by
    rw [Field.scopeEvents, List.mem_append] at h
    rcases h with h | h
    · exact node.mem_binders (kind_of_identifier hholds accepted) h
    · exact Field.mem_binders hholds rest h
  | .hole rest, h => Field.mem_binders hholds rest h

/-- Declaring the names of fields is all that their binders do. -/
theorem Fields.mem_binders {pending : Bool} {slots : List Slot} (h : Pends pending slots)
    {event : ScopeEvent} : ∀ fields : Fields slots,
      event ∈ fields.binders → ∃ binding name site, event = .bind binding name site
  | .nil, hevent => absurd hevent List.not_mem_nil
  | @Fields.cons slot _ field rest, hevent => by
    rw [Pends] at h
    rw [Fields.binders, List.mem_append] at hevent
    split at h
    · rcases hevent with hevent | hevent
      · split at hevent
        · exact field.mem_binders h.1 hevent
        · exact absurd hevent List.not_mem_nil
      · exact Fields.mem_binders h.2 rest hevent
    · rename_i hbinder
      rcases hevent with hevent | hevent
      · split at hevent
        · rename_i binding hrole
          rw [hrole] at hbinder
          exact absurd rfl hbinder
        · exact absurd hevent List.not_mem_nil
      · exact Fields.mem_binders h.2.2.2 rest hevent

namespace Live

variable {live : Live String} {events : List ScopeEvent}

/-- Opening and closing scopes changes no identifier. -/
theorem Coupled.shapeWith_scopes (h : live.Coupled) (hevents : ∀ event ∈ events, event.site? = none)
    (located : List (NodeId × ScopeId)) :
    (live.run events).shapeWith located = (live.shapeWith located).run events := by
  induction events generalizing live with
  | nil => rfl
  | cons event events ih =>
    rw [List.forall_mem_cons] at hevents
    have hstep := h.shapeWith_step event located
    have hlocated : ((live.shapeWith located).step event).located = located := by
      cases event with
      | bind binding name site => cases hevents.1
      | use name site => cases hevents.1
      | _ => rfl
    rw [hlocated] at hstep
    have hrest := ih (h.step event) hevents.2
    rw [hstep] at hrest
    exact hrest

/-- Declaring names changes no scope. -/
theorem Coupled.shapeWith_binders (h : live.Coupled)
    (hevents : ∀ event ∈ events, ∃ binding name site, event = .bind binding name site)
    (located : List (NodeId × ScopeId)) :
    (live.run events).shapeWith located = live.shapeWith located := by
  induction events generalizing live with
  | nil => rfl
  | cons event events ih =>
    rw [List.forall_mem_cons] at hevents
    obtain ⟨binding, name, site, rfl⟩ := hevents.1
    have hstep := h.shapeWith_step (.bind binding name site) located
    have hrest := ih (h.step (.bind binding name site)) hevents.2
    refine hrest.trans ?_
    rw [shapeWith, shapeWith, Shape.mk.injEq]
    exact ⟨congrArg Shape.around hstep, congrArg Shape.records hstep, rfl⟩

end Live

/-! ### Entering and leaving nodes -/

section visitor

variable {names : List String} {kind : NodeKind} {slots : List Slot} {role : Role}
  {walk : ScopeWalk}

theorem ScopeWalk.located_meet (walk : ScopeWalk) (data : NodeData) (found : IdentifierView)
    (event : ScopeEvent) (hsite : event.site? = some ⟨data.id, data.loc⟩) :
    (walk.meet data found).located = (walk.shape.step event).located := by
  have hlocated : (walk.meet data found).located
      = walk.located ++ (walk.live.chain.current?.map (data.id, ·)).toList := by
    unfold ScopeWalk.meet
    dsimp only
    split <;> rfl
  rw [hlocated, Chain.current?_eq]
  cases event with
  | bind binding name site =>
    cases hsite
    rfl
  | use name site =>
    cases hsite
    rfl
  | _ => cases hsite

/-- What the visitor does when it enters a node. -/
structure ScopeWalk.Enters (walk : ScopeWalk) (role : Role) (data : NodeData)
    (form : Form kind slots) (fields : Fields slots) (next : ScopeWalk) : Prop where
  live : next.live = walk.live.run
    ((form.scopes role).map .enter ++ (form.mention role data ++ fields.binders))
  shape : next.shape = walk.shape.run ((form.scopes role).map .enter ++ form.mention role data)
  blocks : next.blocks
    = if kind = .blockStatement then decide (role ≠ .body) :: walk.blocks else walk.blocks
  pending : next.pending = kind.ownsBody

/-- Scopes are opened and names declared, and no identifier is met. -/
theorem ScopeWalk.Enters.of_run (hcoupled : walk.live.Coupled) (form : Form kind slots)
    (fields : Fields slots) (data : NodeData) (hkind : kind ≠ .blockStatement)
    (hmention : form.mention role data = []) {next : ScopeWalk}
    (hlive : next.live = walk.live.run ((form.scopes role).map .enter ++ fields.binders))
    (hlocated : next.located = walk.located) (hblocks : next.blocks = walk.blocks)
    (hpending : next.pending = kind.ownsBody) : walk.Enters role data form fields next where
  live := by rw [hlive, hmention, List.nil_append]
  shape := by
    rw [hmention, List.append_nil, ScopeWalk.shape, hlive, hlocated, Live.run_append,
      (Live.run_coupled hcoupled _).shapeWith_binders (fun _ => fields.mem_binders form.pends),
      hcoupled.shapeWith_scopes fun _ => site?_of_mem_enters]
    rfl
  blocks := by rw [hblocks, if_neg hkind]
  pending := hpending

/-- Nodes are left once as what they are, and not replaced. -/
theorem scopeVisitor_leave {holds : Capability} (child : Child holds) (walk : ScopeWalk) :
    (scopeVisitor names).leave child walk = (child, walk.exitNode child.kind) := by
  unfold Visitor.leave
  dsimp only
  split
  · rename_i hook hplaced
    obtain ⟨kind, rfl⟩ : ∃ kind, hook = .exitPlaced kind := by
      unfold placedHook? at hplaced
      split at hplaced <;> cases hplaced <;> exact ⟨_, rfl⟩
    rfl
  · rfl

/-- A node that is not a binder is entered. -/
theorem enterNode_enters (hcoupled : walk.live.Coupled) {form : Form kind slots}
    (himported : form.Imported role) (hbinder : role.isBinder = false)
    (hbody : role = .body → kind = .blockStatement)
    (hpending : walk.pending = decide (role = .body)) (fields : Fields slots) (data : NodeData) :
    walk.Enters role data form fields (walk.enterNode names ⟨kind, .mk data form fields⟩) := by
  have hclear (hkind : kind ≠ .blockStatement) : walk.pending = false := by
    rw [hpending]
    exact decide_eq_false fun hrole => hkind (hbody hrole)
  cases form with
  | program comments index => exact himported.elim
  | blockStatement =>
    have hnone := fields.binders_eq_nil (by simp [Role.isBinder])
    change walk.Enters role data .blockStatement fields walk.enterBlock
    unfold ScopeWalk.enterBlock
    -- the flag is set exactly when the block is a body
    by_cases hrole : role = .body
    · rw [hpending, if_pos (decide_eq_true hrole)]
      subst hrole
      refine ⟨?_, rfl, rfl, rfl⟩
      rw [hnone]
      rfl
    · rw [hpending, if_neg (by simp [hrole])]
      have hscopes : Form.blockStatement.scopes role = [.block] := if_neg hrole
      refine ⟨?_, ?_, ?_, hpending.trans (decide_eq_false hrole)⟩
      · rw [hscopes, hnone]
        rfl
      · rw [hscopes]
        exact hcoupled.shapeWith_scopes (by simp [ScopeEvent.site?]) _
      · simp [hrole]
  | identifier name isBinder info =>
    obtain rfl : isBinder = false := himported.1.trans hbinder
    cases fields
    have hmention : (Form.identifier name false info).mention role data
        = [.use name ⟨data.id, data.loc⟩] := by
      cases role with
      | binder binding => cases hbinder
      | _ => rfl
    refine ⟨?_, ?_, rfl, hclear (by decide)⟩
    · rw [hmention]
      rfl
    · rw [hmention]
      change (walk.meet data ⟨name, false, info⟩).shape = _
      rw [ScopeWalk.shape, walk.located_meet data _ (.use name ⟨data.id, data.loc⟩) rfl]
      exact hcoupled.shapeWith_step (.use name ⟨data.id, data.loc⟩) walk.located
  | functionDeclaration generator =>
    exact .of_run hcoupled _ fields data (by decide) rfl rfl rfl rfl rfl
  | functionExpression generator =>
    exact .of_run hcoupled _ fields data (by decide) rfl rfl rfl rfl rfl
  | catchClause => exact .of_run hcoupled _ fields data (by decide) rfl rfl rfl rfl rfl
  | variableDeclarator declKind =>
    exact .of_run hcoupled _ fields data (by decide) rfl rfl rfl rfl (hclear (by decide))
  | _ =>
    -- nothing is bound: the visitor opens a scope at most
    refine .of_run hcoupled _ fields data (by decide) rfl ?_ rfl rfl (hclear (by decide))
    rw [fields.binders_eq_nil (by simp [Role.isBinder])]
    rfl

/-- A node is left; a block gives back what it put on the stack. -/
theorem exitNode_spec (form : Form kind slots) (role : Role) {next : ScopeWalk} {blocks : List Bool}
    (hblocks : next.blocks
      = if kind = .blockStatement then decide (role ≠ .body) :: blocks else blocks) :
    next.exitNode kind
      = ⟨next.live.run ((form.scopes role).map fun _ => .leave), next.located, blocks,
        next.pending⟩ := by
  obtain ⟨live, located, stack, pending⟩ := next
  cases form with
  | blockStatement =>
    obtain rfl : stack = decide (role ≠ .body) :: blocks := hblocks
    by_cases hrole : role = .body
    · subst hrole
      rfl
    · have hscopes : Form.blockStatement.scopes role = [.block] := if_neg hrole
      rw [hscopes, decide_eq_true hrole]
      rfl
  | _ =>
    obtain rfl : stack = blocks := hblocks
    rfl

end visitor

/-! ### Trees -/

namespace ScopeWalk

variable {walk next last : ScopeWalk} {role : Role} {events more : List ScopeEvent}

/-- The flag is as nodes with this role need it; binders do not care. -/
def Ready (walk : ScopeWalk) (role : Role) : Prop :=
  role.isBinder = false → walk.pending = decide (role = .body)

/-- The later state comes after nodes with this role. Binders were declared
before, and leave the flag as it is. -/
def Done (walk : ScopeWalk) (role : Role) (events : List ScopeEvent) (next : ScopeWalk) : Prop :=
  walk.After (if role.isBinder then [] else events) events
    (if role.isBinder then walk.pending else false) next

theorem Done.refl (h : walk.Ready role) (hbody : role ≠ .body) : walk.Done role [] walk := by
  unfold Done
  cases hbinder : role.isBinder with
  | true => exact .refl walk
  | false =>
    have hpending := h hbinder
    rw [decide_eq_false hbody] at hpending
    exact ⟨rfl, rfl, rfl, hpending⟩

theorem Done.trans (h : walk.Done role events next) (h' : next.Done role more last) :
    walk.Done role (events ++ more) last := by
  unfold Done at h h' ⊢
  cases hbinder : role.isBinder with
  | true =>
    rw [hbinder] at h h'
    have hboth := After.trans h h'
    rw [if_pos rfl, show next.pending = walk.pending from h.pending] at hboth
    exact hboth
  | false =>
    rw [hbinder] at h h'
    exact After.trans h h'

/-- After a node the next one in a list can be walked. -/
theorem Done.ready (h : walk.Done role events next) (hbody : role ≠ .body) : next.Ready role := by
  intro hbinder
  have hpending := h.pending
  rw [hbinder] at hpending
  exact hpending.trans (decide_eq_false hbody).symm

end ScopeWalk

section visitor

variable {names : List String}

theorem kind_of_block {holds : Capability} {kind : NodeKind} (hholds : holds = .block)
    (accepted : holds.accepts kind = true) : kind = .blockStatement := by
  subst hholds
  exact of_decide_eq_true accepted

/-- A binder is met. It has been declared by the node around it. -/
theorem Node.visits_binder {file : Option String} {kind : NodeKind} {role : Role}
    (hbinder : role.isBinder = true) (hkind : kind = .identifier) (node : Node kind)
    (h : node.Imported file role) (walk : ScopeWalk) :
    ∃ next, node.walkInside (scopeVisitor names) walk = (node, next) ∧
      walk.Done role (node.scopeEvents role) (next.exitNode kind) := by
  obtain ⟨data, name, isBinder, info, rfl⟩ := node.exists_identifier hkind
  subst hkind
  rw [Node.Imported] at h
  obtain rfl : isBinder = true := h.1.1.trans hbinder
  refine ⟨walk.meet data ⟨name, true, info⟩, rfl, ?_⟩
  rw [ScopeWalk.Done, hbinder]
  refine ⟨rfl, ?_, rfl, rfl⟩
  cases role with
  | binder binding =>
    change (walk.meet data ⟨name, true, info⟩).shape = _
    rw [ScopeWalk.shape, walk.located_meet data _ (.bind binding name ⟨data.id, data.loc⟩) rfl]
    rfl
  | _ => cases hbinder

/-- A node between its entering and its leaving. -/
theorem ScopeWalk.Enters.done {kind : NodeKind} {slots : List Slot} {role : Role}
    {data : NodeData} {form : Form kind slots} {fields : Fields slots} {walk next last : ScopeWalk}
    (hbinder : role.isBinder = false) (hcoupled : walk.live.Coupled)
    (h : walk.Enters role data form fields next)
    (hfields : next.After fields.innerEvents fields.scopeEvents false last) :
    walk.Done role (Node.scopeEvents role (.mk data form fields)) (last.exitNode kind) := by
  -- what the fields bind was declared on entering, so the rest of them completes the events
  have hlast : last.live.Coupled := by
    rw [hfields.live, h.live]
    exact Live.run_coupled (Live.run_coupled hcoupled _) _
  rw [ScopeWalk.Done, hbinder, exitNode_spec form role (hfields.blocks.trans h.blocks),
    Node.scopeEvents, inScopes]
  refine ⟨?_, ?_, rfl, hfields.pending⟩
  · change last.live.run _ = _
    rw [if_neg Bool.false_ne_true, hfields.live, h.live,
      fields.scopeEvents_eq_append form.pends]
    simp only [Live.run_append]
  · refine (hlast.shapeWith_scopes (fun _ => site?_of_mem_leaves) last.located).trans ?_
    rw [show last.live.shapeWith last.located = _ from hfields.shape, h.shape]
    simp only [Shape.run_append]

mutual

/-- The visitor goes through a node and leaves it. -/
theorem Node.visits {file : Option String} {kind : NodeKind} {role : Role}
    (hkind : role.isBinder = true → kind = .identifier)
    (hbody : role = .body → kind = .blockStatement) :
    ∀ node : Node kind, node.Imported file role → ∀ walk : ScopeWalk, walk.live.Coupled →
      walk.Ready role → ∃ next, node.walkInside (scopeVisitor names) walk = (node, next) ∧
        walk.Done role (node.scopeEvents role) (next.exitNode kind)
  | .mk data form fields, h, walk, hcoupled, hready => by
    cases hbinder : role.isBinder with
    | true => exact Node.visits_binder hbinder (hkind hbinder) _ h walk
    | false =>
      rw [Node.Imported] at h
      have henters : walk.Enters role data form fields
          (walk.enterNode names ⟨kind, .mk data form fields⟩) :=
        enterNode_enters hcoupled h.1 hbinder hbody (hready hbinder) fields data
      have hpends := form.pends
      rw [← henters.pending] at hpends
      have hnext : (walk.enterNode names ⟨kind, .mk data form fields⟩).live.Coupled := by
        rw [henters.live]
        exact Live.run_coupled hcoupled _
      -- functions and catch clauses have set the flag, and their fields take it back
      obtain ⟨last, hwalk, hafter⟩ := Fields.visits fields h.2.2 _ hnext hpends
      refine ⟨last, ?_, henters.done hbinder hcoupled hafter⟩
      rw [Node.walkInside, show (scopeVisitor names).enter = ScopeWalk.enterNode names from rfl,
        hwalk]

theorem Fields.visits {file : Option String} {slots : List Slot} :
    ∀ fields : Fields slots, fields.Imported file → ∀ walk : ScopeWalk, walk.live.Coupled →
      Pends walk.pending slots → ∃ next, fields.walk (scopeVisitor names) walk = (fields, next) ∧
        walk.After fields.innerEvents fields.scopeEvents false next
  | .nil, _, walk, _, hpends => ⟨walk, rfl, rfl, rfl, rfl, hpends⟩
  | @Fields.cons slot _ field rest, h, walk, hcoupled, hpends => by
    rw [Fields.Imported] at h
    obtain ⟨hholds, hbody, hready, hpends⟩ := hpends.cons
    rw [Fields.walk, Fields.innerEvents, Fields.scopeEvents]
    by_cases hwalked : slot.role.isWalked = true
    · obtain ⟨next, hfield, hdone⟩ := Field.visits hholds hbody field h.1 walk hcoupled hready
      obtain ⟨last, hrest, hafter⟩ := Fields.visits rest h.2 next (hdone.coupled hcoupled)
        (by rw [hdone.pending]; exact hpends)
      refine ⟨last, ?_, ?_⟩
      · rw [if_pos hwalked, hfield]
        dsimp only
        rw [hrest]
      · have hboth := ScopeWalk.After.trans hdone hafter
        rw [hwalked]
        cases hbinder : slot.role.isBinder with
        | true => rw [hbinder] at hboth; exact hboth
        | false => rw [hbinder] at hboth; exact hboth
    · -- labels and names of members are passed over
      have hplain : slot.role.isBinder = false ∧ slot.role ≠ .body := by
        cases hrole : slot.role with
        | name => exact ⟨rfl, by decide⟩
        | key computed => exact ⟨rfl, by simp⟩
        | _ => rw [hrole] at hwalked; exact absurd rfl hwalked
      have hclear : walk.pending = false := (hready hplain.1).trans (decide_eq_false hplain.2)
      rw [hplain.1, if_neg Bool.false_ne_true, ← hclear] at hpends
      obtain ⟨last, hrest, hafter⟩ := Fields.visits rest h.2 walk hcoupled hpends
      refine ⟨last, ?_, ?_⟩
      · rw [if_neg hwalked, hrest]
      · rw [Bool.eq_false_iff.mpr hwalked]
        exact hafter

theorem Field.visits {file : Option String} {arity : Arity} {holds : Capability} {role : Role}
    (hholds : role.isBinder = true → holds = .identifier)
    (hbody : role = .body → arity = .one ∧ holds = .block) :
    ∀ field : Field arity holds, field.Imported file role → ∀ walk : ScopeWalk,
      walk.live.Coupled → walk.Ready role →
        ∃ next, field.walk (scopeVisitor names) walk = (field, next) ∧
          walk.Done role (field.scopeEvents role) next
  | .one node accepted, h, walk, hcoupled, hready => by
    rw [Field.Imported] at h
    obtain ⟨next, hwalk, hdone⟩ := Node.visits
      (fun hbinder => kind_of_identifier (hholds hbinder) accepted)
      (fun hrole => kind_of_block (hbody hrole).2 accepted) node h walk hcoupled hready
    rw [Field.scopeEvents]
    refine ⟨_, ?_, hdone⟩
    rw [Field.walk, hwalk]
    dsimp only
    rw [scopeVisitor_leave]
  | .absent, _, walk, _, hready => by
    rw [Field.walk, Field.scopeEvents]
    exact ⟨walk, rfl, .refl hready fun hrole => nomatch (hbody hrole).1⟩
  | .present node accepted, h, walk, hcoupled, hready => by
    rw [Field.Imported] at h
    obtain ⟨next, hwalk, hdone⟩ := Node.visits
      (fun hbinder => kind_of_identifier (hholds hbinder) accepted)
      (fun hrole => kind_of_block (hbody hrole).2 accepted) node h walk hcoupled hready
    rw [Field.scopeEvents]
    refine ⟨_, ?_, hdone⟩
    rw [Field.walk, hwalk]
    dsimp only
    rw [scopeVisitor_leave]
  | .nil, _, walk, _, hready => by
    rw [Field.walk, Field.scopeEvents]
    exact ⟨walk, rfl, .refl hready fun hrole => nomatch (hbody hrole).1⟩
  | .cons node accepted rest, h, walk, hcoupled, hready => by
    rw [Field.Imported] at h
    obtain ⟨next, hwalk, hdone⟩ := Node.visits
      (fun hbinder => kind_of_identifier (hholds hbinder) accepted)
      (fun hrole => kind_of_block (hbody hrole).2 accepted) node h.1 walk hcoupled hready
    obtain ⟨last, hrest, hlast⟩ := Field.visits hholds hbody rest h.2 _
      (hdone.coupled hcoupled) (hdone.ready fun hrole => nomatch (hbody hrole).1)
    rw [Field.scopeEvents]
    refine ⟨last, ?_, hdone.trans hlast⟩
    rw [Field.walk, hwalk]
    dsimp only
    rw [scopeVisitor_leave]
    dsimp only
    rw [hrest]
  | .hole rest, h, walk, hcoupled, hready => by
    rw [Field.Imported] at h
    obtain ⟨last, hrest, hlast⟩ := Field.visits hholds hbody rest h walk hcoupled hready
    rw [Field.scopeEvents]
    refine ⟨last, ?_, hlast⟩
    rw [Field.walk, hrest]

end

end visitor

/-! ### Programs -/

/-- The visitor goes through an imported program as its events say. -/
theorem importProgram_visits {raw : Json} {file : Option String} {p : Program}
    (h : importProgram raw file = .ok p) (options : ResolveOptions) :
    ∃ walk, p.walkScopes options = (p, walk) ∧
      ScopeWalk.start.After (p.scopeEvents options.names) (p.scopeEvents options.names) false
        walk := by
  obtain ⟨data, comments, index, fields, rfl, himported, -, -⟩ := importProgram_statements h
  have hopening : (ScopeWalk.start.run (openingEvents options.names)).shape
      = ScopeWalk.start.shape.run (openingEvents options.names) :=
    Live.coupled_start.shapeWith_scopes (fun event hevent => (openingEvents_cases hevent).1) []
  have hcoupled := Live.run_coupled Live.coupled_start (openingEvents options.names)
  have hpends : Pends false [.many "body" .statement] := by simp [Pends, Role.isBinder]
  obtain ⟨next, hwalk, hafter⟩ := @Fields.visits options.names file _ fields himported
    (ScopeWalk.start.run (openingEvents options.names)) hcoupled hpends
  have hnext := hafter.coupled hcoupled
  refine ⟨next.exitNode .program, ?_, ?_⟩
  · rw [Program.walkScopes, Program.walk, Child.walk, Node.walkInside]
    rw [show (scopeVisitor options.names).enter _ ScopeWalk.start
      = ScopeWalk.start.run (openingEvents options.names) from rfl, hwalk]
    dsimp only
    rw [scopeVisitor_leave]
    rfl
  · have hinner : fields.innerEvents = fields.scopeEvents := by
      rw [fields.scopeEvents_eq_append hpends, fields.binders_eq_nil (by simp [Role.isBinder]),
        List.nil_append]
    rw [scopeEvents_eq]
    refine ⟨?_, ?_, hafter.blocks, hafter.pending⟩
    · change next.live.run [.leave, .leave] = _
      rw [hafter.live, hinner, Live.run_append, Live.run_append]
      rfl
    · refine (hnext.shapeWith_scopes (by simp [ScopeEvent.site?]) next.located).trans ?_
      rw [show next.live.shapeWith next.located = _ from hafter.shape, hopening, Shape.run_append,
        Shape.run_append]

/-- The scopes of a program are nested as its syntax is, and the visitor that
resolves its names has come to an end in the given state. -/
structure Program.ScopesNest (p : Program) (options : ResolveOptions) (walk : ScopeWalk) : Prop where
  /-- No scope is open. -/
  chain : walk.live.chain = []
  blocks : walk.blocks = []
  pending : walk.pending = false
  resolution : walk.live.resolution = p.resolution options
  scopes : (p.resolution options).scopes.nesting = p.outline.records none 0
  located : walk.located = p.outline.located none 0
  identifiers : (p.resolution options).identifierScopes = p.outline.located none 0

/-- Resolving the names of an imported program leaves it as it is, and leaves the
scopes of its syntax. -/
theorem importProgram_nesting {raw : Json} {file : Option String} {p : Program}
    (h : importProgram raw file = .ok p) (options : ResolveOptions) :
    ∃ walk, p.walkScopes options = (p, walk) ∧ p.ScopesNest options walk := by
  obtain ⟨walk, hwalk, hafter⟩ := importProgram_visits h options
  have hlive : walk.live = Live.start.run (p.scopeEvents options.names) := hafter.live
  have houtline := importProgram_outline h options
  -- the visitor has seen the same identifiers as the events
  have hshape : walk.shape = ⟨[], p.outline.records none 0, p.outline.located none 0⟩ := by
    rw [hafter.shape, Program.draws]
    rfl
  refine ⟨walk, hwalk, ?_, hafter.blocks, hafter.pending, ?_, ?_, ?_, ?_⟩
  · exact List.map_eq_nil_iff.mp (congrArg Shape.around hshape)
  · rw [hlive]
    rfl
  · exact congrArg Shape.records houtline
  · exact congrArg Shape.located hshape
  · exact congrArg Shape.located houtline

theorem caughtVariable_nesting :
    ∃ p, importProgram (programWith [caughtVariable]) none = .ok p ∧
      p.outline.records none 0
        = [(.function, none), (.block, some 0), (.block, some 1), (.block, some 1)] ∧
      ∃ walk, p.walkScopes {} = (p, walk) ∧ p.ScopesNest {} walk := by
  have hfacts : ((importProgram (programWith [caughtVariable]) none).toOption.map fun p =>
      decide (p.outline.records none 0
        = [(.function, none), (.block, some 0), (.block, some 1), (.block, some 1)]))
      = some true := by decide +kernel
  obtain ⟨p, hp, hfacts⟩ := Option.map_eq_some_iff.mp hfacts
  have himport := importProgram_of_toOption hp
  exact ⟨p, himport, of_decide_eq_true hfacts, importProgram_nesting himport {}⟩

end EsFront
