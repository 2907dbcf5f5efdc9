/-
The events of an imported program.

The walk meets the identifiers of a tree in pre-order, and the import gives out
numbers in pre-order, so the events come in the order of the numbers of their
identifiers. Scopes are nested, and nothing is declared in advance once the
walk is inside the program. Main statements:

* `Node.sites_sublist`, `Reached.ids` — the order of the events;
* `Node.use_mem`, `Node.walked_of_site` — every identifier that is walked has
  its event, and the other way round;
* `Node.nested`, `Live.run_depth` — the walk never runs out of scopes.
-/
import EsFront.Proofs.Scope.Growth
import EsFront.Proofs.Syntax.Walked

namespace EsFront

/-- Where a node stands. -/
def AnyNode.site (any : AnyNode) : Site := ⟨any.node.data.id, any.node.data.loc⟩

def Label.site (label : Label) : Site := ⟨label.data.id, label.data.loc⟩

/-! ### Events come in order -/

theorem mem_inScopes {scopes : List ScopeKind} {events : List ScopeEvent} {event : ScopeEvent} :
    event ∈ inScopes scopes events ↔
      event ∈ events ∨ (event ∈ scopes.map .enter ∨ event ∈ scopes.map fun _ => ScopeEvent.leave) := by
  rw [inScopes, List.mem_append, List.mem_append]
  constructor
  · rintro ((h | h) | h)
    · exact .inr (.inl h)
    · exact .inl h
    · exact .inr (.inr h)
  · rintro (h | h | h)
    · exact .inl (.inr h)
    · exact .inl (.inl h)
    · exact .inr h

/-- Opening scopes is no identifier's doing. -/
theorem site?_of_mem_enters {scopes : List ScopeKind} {event : ScopeEvent}
    (h : event ∈ scopes.map .enter) : event.site? = none := by
  obtain ⟨kind, -, rfl⟩ := List.mem_map.mp h
  rfl

/-- Closing scopes is no identifier's doing. -/
theorem site?_of_mem_leaves {scopes : List ScopeKind} {event : ScopeEvent}
    (h : event ∈ scopes.map fun _ => ScopeEvent.leave) : event.site? = none := by
  obtain ⟨kind, -, rfl⟩ := List.mem_map.mp h
  rfl

theorem sites_inScopes (scopes : List ScopeKind) (events : List ScopeEvent) :
    (inScopes scopes events).filterMap ScopeEvent.site? = events.filterMap ScopeEvent.site? := by
  rw [inScopes, List.filterMap_append, List.filterMap_append,
    List.filterMap_eq_nil_iff.mpr fun _ => site?_of_mem_enters,
    List.filterMap_eq_nil_iff.mpr fun _ => site?_of_mem_leaves, List.nil_append, List.append_nil]

theorem Form.sites_mention {kind : NodeKind} {slots : List Slot} (role : Role) (data : NodeData)
    (form : Form kind slots) :
    ((form.mention role data).filterMap ScopeEvent.site?).Sublist [⟨data.id, data.loc⟩] := by
  unfold Form.mention
  split
  · exact List.nil_sublist _
  · split
    · exact List.Sublist.refl _
    · exact List.Sublist.refl _

mutual

theorem Node.sites_sublist {kind : NodeKind} (role : Role) : ∀ node : Node kind,
    ((node.scopeEvents role).filterMap ScopeEvent.site?).Sublist (node.labels.map Label.site)
  | .mk data form fields => by
    rw [Node.scopeEvents, Node.labels, sites_inScopes, List.filterMap_append, List.map_cons]
    exact (form.sites_mention role data).append (Fields.sites_sublist fields)

theorem Fields.sites_sublist {slots : List Slot} : ∀ fields : Fields slots,
    (fields.scopeEvents.filterMap ScopeEvent.site?).Sublist (fields.labels.map Label.site)
  | .nil => by
    rw [Fields.scopeEvents]
    exact List.nil_sublist _
  | @Fields.cons slot _ field rest => by
    rw [Fields.scopeEvents, Fields.labels, List.filterMap_append, List.map_append]
    refine List.Sublist.append ?_ (Fields.sites_sublist rest)
    split
    · exact Field.sites_sublist slot.role field
    · exact List.nil_sublist _

theorem Field.sites_sublist {arity : Arity} {holds : Capability} (role : Role) :
    ∀ field : Field arity holds,
      ((field.scopeEvents role).filterMap ScopeEvent.site?).Sublist (field.labels.map Label.site)
  | .one node _ => by
    rw [Field.scopeEvents, Field.labels]
    exact Node.sites_sublist role node
  | .absent => by
    rw [Field.scopeEvents]
    exact List.nil_sublist _
  | .present node _ => by
    rw [Field.scopeEvents, Field.labels]
    exact Node.sites_sublist role node
  | .nil => by
    rw [Field.scopeEvents]
    exact List.nil_sublist _
  | .cons node _ rest => by
    rw [Field.scopeEvents, Field.labels, List.filterMap_append, List.map_append]
    exact (Node.sites_sublist role node).append (Field.sites_sublist role rest)
  | .hole rest => by
    rw [Field.scopeEvents, Field.labels]
    exact Field.sites_sublist role rest

end

/-- Nodes that are reached later have greater numbers. -/
theorem Reached.ids {s s' : ImportState} {labels : List Label} (h : Reached s labels s') :
    (labels.map Label.site).Pairwise (·.node < ·.node) ∧
      ∀ label ∈ labels, s.nextId ≤ label.data.id := by
  induction h with
  | nil => exact ⟨List.Pairwise.nil, fun _ hl => absurd hl List.not_mem_nil⟩
  | @cons s t s' label rest hfirst _ ih =>
    have hid : label.data.id = s.nextId := (congrArg (·.1.id) hfirst).symm
    have hnext : t.nextId = s.nextId + 1 := (congrArg (·.2.nextId) hfirst).symm
    constructor
    · rw [List.map_cons, List.pairwise_cons]
      refine ⟨fun site hsite => ?_, ih.1⟩
      obtain ⟨other, hother, rfl⟩ := List.mem_map.mp hsite
      have hle := ih.2 other hother
      rw [hnext] at hle
      change label.data.id < other.data.id
      rw [hid]
      exact hle
    · rw [List.forall_mem_cons, hid]
      refine ⟨Nat.le_refl _, fun other hother => ?_⟩
      have hle := ih.2 other hother
      rw [hnext] at hle
      exact Nat.le_of_succ_le hle

/-! ### Events and walked identifiers -/

/-- The event opens or closes a scope, or belongs to one of the given
identifiers. -/
def ScopeEvent.Within (walked : List AnyNode) : ScopeEvent → Prop
  | enter _ | leave => True
  | predeclare _ => False
  | bind _ name site => ∃ u ∈ walked, u.site = site ∧ u.identifier?.map (·.name) = some name
  | use name site => ∃ u ∈ walked, u.site = site ∧ u.identifier?.map (·.name) = some name

theorem ScopeEvent.Within.mono {walked more : List AnyNode} (hsub : ∀ u ∈ walked, u ∈ more) :
    ∀ {event : ScopeEvent}, event.Within walked → event.Within more := by
  intro event h
  cases event with
  | enter kind => trivial
  | leave => trivial
  | predeclare name => exact h
  | bind binding name site =>
    obtain ⟨u, hu, hrest⟩ := h
    exact ⟨u, hsub u hu, hrest⟩
  | use name site =>
    obtain ⟨u, hu, hrest⟩ := h
    exact ⟨u, hsub u hu, hrest⟩

theorem Form.mention_within {kind : NodeKind} {slots : List Slot} (role : Role) (data : NodeData)
    (form : Form kind slots) (fields : Fields slots) :
    ∀ event ∈ form.mention role data, event.Within [⟨kind, .mk data form fields⟩] := by
  intro event hevent
  unfold Form.mention at hevent
  split at hevent
  · exact absurd hevent List.not_mem_nil
  · rename_i found hfound
    have hname : (⟨kind, .mk data form fields⟩ : AnyNode).identifier?.map (·.name)
        = some found.name := by
      rw [AnyNode.identifier?, hfound]
      rfl
    split at hevent
    · rw [List.mem_singleton] at hevent
      subst hevent
      exact ⟨_, List.mem_singleton_self _, rfl, hname⟩
    · rw [List.mem_singleton] at hevent
      subst hevent
      exact ⟨_, List.mem_singleton_self _, rfl, hname⟩

mutual

/-- Every event of a tree opens or closes a scope, or belongs to one of its
walked identifiers. -/
theorem Node.events_within {kind : NodeKind} (role : Role) : ∀ node : Node kind,
    ∀ event ∈ node.scopeEvents role, event.Within node.walked
  | .mk data form fields, event, hevent => by
    rw [Node.scopeEvents, mem_inScopes, List.mem_append] at hevent
    rw [Node.walked]
    rcases hevent with (hown | hrest) | henter | hleave
    · refine (form.mention_within role data fields event hown).mono ?_
      intro u hu
      rw [List.mem_singleton] at hu
      rw [hu]
      exact List.mem_cons_self
    · exact (Fields.events_within fields event hrest).mono fun u => List.mem_cons_of_mem _
    · obtain ⟨_, -, rfl⟩ := List.mem_map.mp henter
      trivial
    · obtain ⟨_, -, rfl⟩ := List.mem_map.mp hleave
      trivial

theorem Fields.events_within {slots : List Slot} : ∀ fields : Fields slots,
    ∀ event ∈ fields.scopeEvents, event.Within fields.walked
  | .nil, event, hevent => by
    rw [Fields.scopeEvents] at hevent
    exact absurd hevent List.not_mem_nil
  | @Fields.cons slot _ field rest, event, hevent => by
    rw [Fields.scopeEvents, List.mem_append] at hevent
    rw [Fields.walked]
    rcases hevent with hfirst | hrest
    · split at hfirst
      · rename_i hwalked
        rw [if_pos hwalked]
        exact (Field.events_within slot.role field event hfirst).mono
          fun u => List.mem_append_left _
      · exact absurd hfirst List.not_mem_nil
    · exact (Fields.events_within rest event hrest).mono fun u => List.mem_append_right _

theorem Field.events_within {arity : Arity} {holds : Capability} (role : Role) :
    ∀ field : Field arity holds, ∀ event ∈ field.scopeEvents role, event.Within field.walked
  | .one node _, event, hevent => by
    rw [Field.scopeEvents] at hevent
    rw [Field.walked]
    exact Node.events_within role node event hevent
  | .absent, event, hevent => by
    rw [Field.scopeEvents] at hevent
    exact absurd hevent List.not_mem_nil
  | .present node _, event, hevent => by
    rw [Field.scopeEvents] at hevent
    rw [Field.walked]
    exact Node.events_within role node event hevent
  | .nil, event, hevent => by
    rw [Field.scopeEvents] at hevent
    exact absurd hevent List.not_mem_nil
  | .cons node _ rest, event, hevent => by
    rw [Field.scopeEvents, List.mem_append] at hevent
    rw [Field.walked]
    rcases hevent with hfirst | hrest
    · exact (Node.events_within role node event hfirst).mono fun u => List.mem_append_left _
    · exact (Field.events_within role rest event hrest).mono fun u => List.mem_append_right _
  | .hole rest, event, hevent => by
    rw [Field.scopeEvents] at hevent
    rw [Field.walked]
    exact Field.events_within role rest event hevent

end

theorem Form.use_mem {kind : NodeKind} {slots : List Slot} {role : Role} {data : NodeData}
    {form : Form kind slots} {found : IdentifierView} (hform : form.Imported role)
    (hfound : form.identifier? = some found) (huse : found.isBinder = false) :
    .use found.name ⟨data.id, data.loc⟩ ∈ form.mention role data := by
  have hrole : role.isBinder = false := by
    cases form with
    | identifier name isBinder info =>
      cases hfound
      exact hform.1.symm.trans huse
    | _ => cases hfound
  unfold Form.mention
  rw [hfound]
  cases role with
  | binder binding => cases hrole
  | _ => exact List.mem_singleton_self _

mutual

/-- A walked identifier of an imported tree that is no binder is a use. -/
theorem Node.use_mem {file : Option String} {kind : NodeKind} {role : Role} {u : AnyNode}
    {found : IdentifierView} (hfound : u.identifier? = some found) (huse : found.isBinder = false) :
    ∀ node : Node kind, node.Imported file role → u ∈ node.walked →
      .use found.name u.site ∈ node.scopeEvents role
  | .mk data form fields, himported, hu => by
    rw [Node.Imported] at himported
    rw [Node.walked] at hu
    rw [Node.scopeEvents, mem_inScopes, List.mem_append]
    refine .inl ?_
    rcases List.mem_cons.mp hu with rfl | hrest
    · exact .inl (Form.use_mem himported.1 hfound huse)
    · exact .inr (Fields.use_mem hfound huse fields himported.2.2 hrest)

theorem Fields.use_mem {file : Option String} {slots : List Slot} {u : AnyNode}
    {found : IdentifierView} (hfound : u.identifier? = some found) (huse : found.isBinder = false) :
    ∀ fields : Fields slots, fields.Imported file → u ∈ fields.walked →
      .use found.name u.site ∈ fields.scopeEvents
  | .nil, _, hu => by
    rw [Fields.walked] at hu
    exact absurd hu List.not_mem_nil
  | @Fields.cons slot _ field rest, himported, hu => by
    rw [Fields.Imported] at himported
    rw [Fields.walked, List.mem_append] at hu
    rw [Fields.scopeEvents, List.mem_append]
    rcases hu with hfirst | hrest
    · split at hfirst
      · rename_i hwalked
        rw [if_pos hwalked]
        exact .inl (Field.use_mem hfound huse field himported.1 hfirst)
      · exact absurd hfirst List.not_mem_nil
    · exact .inr (Fields.use_mem hfound huse rest himported.2 hrest)

theorem Field.use_mem {file : Option String} {arity : Arity} {holds : Capability} {role : Role}
    {u : AnyNode} {found : IdentifierView} (hfound : u.identifier? = some found)
    (huse : found.isBinder = false) :
    ∀ field : Field arity holds, field.Imported file role → u ∈ field.walked →
      .use found.name u.site ∈ field.scopeEvents role
  | .one node _, himported, hu => by
    rw [Field.Imported] at himported
    rw [Field.walked] at hu
    rw [Field.scopeEvents]
    exact Node.use_mem hfound huse node himported hu
  | .absent, _, hu => by
    rw [Field.walked] at hu
    exact absurd hu List.not_mem_nil
  | .present node _, himported, hu => by
    rw [Field.Imported] at himported
    rw [Field.walked] at hu
    rw [Field.scopeEvents]
    exact Node.use_mem hfound huse node himported hu
  | .nil, _, hu => by
    rw [Field.walked] at hu
    exact absurd hu List.not_mem_nil
  | .cons node _ rest, himported, hu => by
    rw [Field.Imported] at himported
    rw [Field.walked, List.mem_append] at hu
    rw [Field.scopeEvents, List.mem_append]
    rcases hu with hfirst | hrest
    · exact .inl (Node.use_mem hfound huse node himported.1 hfirst)
    · exact .inr (Field.use_mem hfound huse rest himported.2 hrest)
  | .hole rest, himported, hu => by
    rw [Field.Imported] at himported
    rw [Field.walked] at hu
    rw [Field.scopeEvents]
    exact Field.use_mem hfound huse rest himported hu

end

/-! ### Scopes are nested -/

/-- How many scopes are open after an event, unless one is closed that was not
opened. -/
def ScopeEvent.depth? (outer : Nat) : ScopeEvent → Option Nat
  | enter _ => some (outer + 1)
  | leave => if 0 < outer then some (outer - 1) else none
  | predeclare _ | bind _ _ _ | use _ _ => some outer

/-- The events close the scopes that they open, and no others. -/
def Nested (events : List ScopeEvent) : Prop :=
  ∀ n, events.foldlM ScopeEvent.depth? n = some n

theorem nested_nil : Nested [] := fun _ => rfl

theorem Nested.append {events more : List ScopeEvent} (h : Nested events) (h' : Nested more) :
    Nested (events ++ more) := by
  intro n
  rw [List.foldlM_append, h n]
  exact h' n

theorem Nested.inScopes {events : List ScopeEvent} (h : Nested events) :
    ∀ scopes : List ScopeKind, Nested (inScopes scopes events) := by
  intro scopes n
  have henter : ∀ (kinds : List ScopeKind) (n : Nat),
      (kinds.map ScopeEvent.enter).foldlM ScopeEvent.depth? n = some (n + kinds.length) := by
    intro kinds
    induction kinds with
    | nil => exact fun _ => rfl
    | cons kind kinds ih =>
      intro n
      rw [List.map_cons, List.foldlM_cons]
      refine (ih (n + 1)).trans ?_
      rw [List.length_cons, Nat.add_right_comm, Nat.add_assoc]
  have hleave : ∀ (kinds : List ScopeKind) (n : Nat),
      (kinds.map fun _ => ScopeEvent.leave).foldlM ScopeEvent.depth? (n + kinds.length)
        = some n := by
    intro kinds
    induction kinds with
    | nil => exact fun _ => rfl
    | cons kind kinds ih =>
      intro n
      rw [List.map_cons, List.foldlM_cons, List.length_cons, ScopeEvent.depth?,
        if_pos (Nat.lt_of_lt_of_le (Nat.succ_pos _) (Nat.le_add_left _ _))]
      exact ih n
  rw [EsFront.inScopes, List.foldlM_append, List.foldlM_append, henter]
  change (List.foldlM ScopeEvent.depth? (n + scopes.length) events).bind _ = _
  rw [h (n + scopes.length)]
  exact hleave scopes n

theorem Form.nested_mention {kind : NodeKind} {slots : List Slot} (role : Role) (data : NodeData)
    (form : Form kind slots) : Nested (form.mention role data) := by
  unfold Form.mention
  split
  · exact nested_nil
  · split
    · exact fun _ => rfl
    · exact fun _ => rfl

mutual

theorem Node.nested {kind : NodeKind} (role : Role) :
    ∀ node : Node kind, Nested (node.scopeEvents role)
  | .mk data form fields => by
    rw [Node.scopeEvents]
    exact ((form.nested_mention role data).append (Fields.nested fields)).inScopes _

theorem Fields.nested {slots : List Slot} : ∀ fields : Fields slots, Nested fields.scopeEvents
  | .nil => by
    rw [Fields.scopeEvents]
    exact nested_nil
  | @Fields.cons slot _ field rest => by
    rw [Fields.scopeEvents]
    refine Nested.append ?_ (Fields.nested rest)
    split
    · exact Field.nested slot.role field
    · exact nested_nil

theorem Field.nested {arity : Arity} {holds : Capability} (role : Role) :
    ∀ field : Field arity holds, Nested (field.scopeEvents role)
  | .one node _ => by
    rw [Field.scopeEvents]
    exact Node.nested role node
  | .absent => by
    rw [Field.scopeEvents]
    exact nested_nil
  | .present node _ => by
    rw [Field.scopeEvents]
    exact Node.nested role node
  | .nil => by
    rw [Field.scopeEvents]
    exact nested_nil
  | .cons node _ rest => by
    rw [Field.scopeEvents]
    exact (Node.nested role node).append (Field.nested role rest)
  | .hole rest => by
    rw [Field.scopeEvents]
    exact Field.nested role rest

end

namespace Live

variable {live : Live String}

theorem length_declare (decl : Declaration) :
    (live.declare decl).chain.length = live.chain.length := by
  change (live.chain.map _).length = _
  rw [List.length_map]

/-- The chain is as long as the events say. -/
theorem step_depth (h : live.Coupled) {base n k : Nat} {event : ScopeEvent}
    (hlength : live.chain.length = base + n) (hdepth : event.depth? n = some k) :
    (live.step event).chain.length = base + k := by
  have hstep := step_spec h.nodup event
  generalize live.step event = next at hstep ⊢
  cases hstep with
  | enter kind =>
    cases hdepth
    change live.chain.length + 1 = _
    rw [hlength, Nat.add_assoc]
  | leave =>
    rw [ScopeEvent.depth?] at hdepth
    split at hdepth
    · cases hdepth
      change live.chain.tail.length = _
      rw [List.length_tail, hlength]
      omega
    · cases hdepth
  | predeclared hid _ hscope =>
    cases hdepth
    rw [length_declare, hlength]
  | known =>
    cases hdepth
    exact hlength
  | declared hid _ hscope =>
    cases hdepth
    rw [record_chain, length_declare, hlength]
  | merged clash first =>
    cases hdepth
    rw [record_chain, hlength]
  | lost =>
    cases hdepth
    exact hlength
  | use =>
    cases hdepth
    obtain ⟨outcome, huse⟩ := use_eq_record live _ _ _
    rw [huse, record_chain, hlength]

theorem run_depth (h : live.Coupled) {base n k : Nat} {events : List ScopeEvent}
    (hlength : live.chain.length = base + n)
    (hdepth : events.foldlM ScopeEvent.depth? n = some k) :
    (live.run events).chain.length = base + k := by
  induction events generalizing live n with
  | nil =>
    cases hdepth
    exact hlength
  | cons event events ih =>
    rw [List.foldlM_cons] at hdepth
    obtain ⟨m, hfirst, hrest⟩ := Option.bind_eq_some_iff.mp hdepth
    exact ih (h.step event) (step_depth h hlength hfirst) hrest

end Live

end EsFront
