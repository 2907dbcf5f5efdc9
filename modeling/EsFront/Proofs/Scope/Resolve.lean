/-
What a name refers to.

Resolution looks names up in live scopes that are opened, filled and closed
while the program is walked. What comes out can be told from what remains: an
identifier refers to the last visible declaration in the first scope, on the
way out, that has one (`Resolution.nearest?`), where a declaration is visible
when it belongs to the host or its binder has a smaller number. Main statement:
`importProgram_annotated`, for a program that is annotated only; what resolution
makes of it is the same (`EsFront.Proofs.Scope.Marks`).
-/
import EsFront.Scope.Resolution
import EsFront.Proofs.Scope.Events

namespace EsFront

/-- Whether an identifier with the given name and number can see the
declaration: it has this name, and belongs to the host or has its binder
before. -/
def Declaration.visibleTo (d : Declaration) (name : String) (use : NodeId) : Bool :=
  d.name = name && (d.isHost || d.site.any (·.node < use))

namespace Resolution

/-- The declarations listed in a scope that an identifier can see. -/
def visible (r : Resolution) (name : String) (use : NodeId) (scope : ScopeId) :
    List Declaration :=
  (r.scopes.listed r.declarations scope).filter (·.visibleTo name use)

/-- The last visible declaration in the first scope, on the way out, that has
one. -/
def nearest? (r : Resolution) (name : String) (use : NodeId) (scope : ScopeId) :
    Option Declaration :=
  (r.scopes.ancestors scope).findSome? fun s => (r.visible name use s).getLast?

end Resolution

/-! ### Marked trees -/

section mark

variable (change : NodeId → IdentifierView → IdentifierView)

/-- Changes what a node and its descendants say. -/
def AnyNode.mark (any : AnyNode) : AnyNode := ⟨any.kind, any.node.mark change⟩

theorem AnyNode.data_mark (any : AnyNode) : (any.mark change).node.data = any.node.data := by
  obtain ⟨kind, node⟩ := any
  cases node
  rw [mark, Node.mark]
  rfl

theorem Form.identifier?_mark {kind : NodeKind} {slots : List Slot}
    (change : IdentifierView → IdentifierView) (form : Form kind slots) :
    (form.mark change).identifier? = form.identifier?.map change := by
  cases form <;> rfl

theorem AnyNode.identifier?_mark (any : AnyNode) :
    (any.mark change).identifier? = any.identifier?.map (change any.node.data.id) := by
  obtain ⟨kind, node⟩ := any
  cases node with
  | mk data form fields =>
    rw [mark, Node.mark]
    exact form.identifier?_mark (change data.id)

mutual

theorem Node.walked_mark {kind : NodeKind} : ∀ node : Node kind,
    (node.mark change).walked = node.walked.map (AnyNode.mark change)
  | .mk data form fields => by
    rw [Node.mark, Node.walked, Node.walked, List.map_cons, Fields.walked_mark fields,
      AnyNode.mark, Node.mark]

theorem Fields.walked_mark {slots : List Slot} : ∀ fields : Fields slots,
    (fields.mark change).walked = fields.walked.map (AnyNode.mark change)
  | .nil => by
    rw [Fields.mark, Fields.walked, List.map_nil]
  | @Fields.cons slot _ field rest => by
    rw [Fields.mark, Fields.walked, Fields.walked, List.map_append, Fields.walked_mark rest]
    congr 1
    split
    · exact Field.walked_mark field
    · rfl

theorem Field.walked_mark {arity : Arity} {holds : Capability} :
    ∀ field : Field arity holds,
      (field.mark change).walked = field.walked.map (AnyNode.mark change)
  | .one node _ => by
    rw [Field.mark, Field.walked, Field.walked, Node.walked_mark node]
  | .absent => by
    rw [Field.mark, Field.walked, List.map_nil]
  | .present node _ => by
    rw [Field.mark, Field.walked, Field.walked, Node.walked_mark node]
  | .nil => by
    rw [Field.mark, Field.walked, List.map_nil]
  | .cons node _ rest => by
    rw [Field.mark, Field.walked, Field.walked, List.map_append, Node.walked_mark node,
      Field.walked_mark rest]
  | .hole rest => by
    rw [Field.mark, Field.walked, Field.walked, Field.walked_mark rest]

end

end mark

section annotate

variable (info : NodeId → ResolutionInfo)

/-- Marks a node and its descendants. -/
def AnyNode.annotate (any : AnyNode) : AnyNode := ⟨any.kind, any.node.annotate info⟩

theorem AnyNode.data_annotate (any : AnyNode) :
    (any.annotate info).node.data = any.node.data := any.data_mark _

/-- Marking changes nothing but the resolution of identifiers. -/
theorem AnyNode.identifier?_annotate (any : AnyNode) :
    (any.annotate info).identifier?
      = any.identifier?.map fun found => { found with info := info any.node.data.id } :=
  any.identifier?_mark _

theorem Node.walked_annotate {kind : NodeKind} (node : Node kind) :
    (node.annotate info).walked = node.walked.map (AnyNode.annotate info) := node.walked_mark _

end annotate

/-! ### Records -/

section mentions

variable {mentions : List Mention} {m : Mention}

/-- When records have different numbers, each is found under its own. -/
theorem find?_mention (hnodes : mentions.Pairwise fun a b => a.site.node ≠ b.site.node)
    (hm : m ∈ mentions) : mentions.find? (·.site.node = m.site.node) = some m := by
  induction mentions with
  | nil => exact absurd hm List.not_mem_nil
  | cons first rest ih =>
    rw [List.find?_cons]
    rcases List.mem_cons.mp hm with rfl | hrest
    · rw [decide_eq_true rfl]
    · have hne := List.rel_of_pairwise_cons hnodes hrest
      rw [decide_eq_false hne]
      exact ih hnodes.tail hrest

/-- What is read off the records is found under the number of its record. -/
theorem lookup_mention {β : Type} (read : Mention → Option β)
    (hnodes : mentions.Pairwise fun a b => a.site.node ≠ b.site.node) (hm : m ∈ mentions) :
    (mentions.filterMap fun m => (read m).map fun v => (m.site.node, v)).lookup m.site.node
      = read m := by
  induction mentions with
  | nil => exact absurd hm List.not_mem_nil
  | cons first rest ih =>
    rw [List.filterMap_cons]
    rcases List.mem_cons.mp hm with rfl | hrest
    · cases hread : read m with
      | some v =>
        rw [Option.map_some, List.lookup_cons, beq_self_eq_true]
      | none =>
        rw [Option.map_none, List.lookup_eq_none_iff]
        intro entry hentry
        obtain ⟨other, hother, hvalue⟩ := List.mem_filterMap.mp hentry
        obtain ⟨v, -, rfl⟩ := Option.map_eq_some_iff.mp hvalue
        exact bne_iff_ne.mpr (List.rel_of_pairwise_cons hnodes hother)
    · have hne : (m.site.node == first.site.node) = false :=
        beq_eq_false_iff_ne.mpr (List.rel_of_pairwise_cons hnodes hrest).symm
      cases read first with
      | none => exact ih hnodes.tail hrest
      | some v =>
        rw [Option.map_some, List.lookup_cons, hne]
        exact ih hnodes.tail hrest

end mentions

namespace Live

/-! ### A use and what comes after it -/

/-- What was visible to a use at its time is what is visible to it in the end,
when all that was declared before has smaller numbers and all that was declared
later has not. -/
theorem visible_eq {live last : Live String} {before after : List ScopeEvent} {use : NodeId}
    (hbefore : start.Grows before live) (hafter : live.Grows after last)
    (hsmaller : ∀ event ∈ before, ∀ site, event.declares? = some (some site) → site.node < use)
    (hgreater : ∀ event ∈ after, ∀ site?, event.declares? = some site? →
      ∃ site, site? = some site ∧ ¬ site.node < use)
    (name : String) (scope : ScopeId) :
    (last.listed scope).filter (·.visibleTo name use)
      = (live.listed scope).filter (·.name = name) := by
  obtain ⟨old, hold, holdSource⟩ := hbefore.listed scope
  obtain ⟨new, hnew, hnewSource⟩ := hafter.listed scope
  have hlive : live.listed scope = old := hold
  -- what is declared after the use is not visible to it
  have hlater : new.filter (·.visibleTo name use) = [] := by
    rw [List.filter_eq_nil_iff]
    intro d hd hvisible
    obtain ⟨event, hevent, hsite⟩ := hnewSource d hd
    obtain ⟨site, hsome, hnot⟩ := hgreater event hevent d.site hsite
    rw [Declaration.visibleTo, Declaration.isHost, hsome] at hvisible
    simp [hnot] at hvisible
  -- and all that was declared before it is
  have hearlier : old.filter (·.visibleTo name use) = old.filter (·.name = name) := by
    refine List.filter_congr ?_
    intro d hd
    obtain ⟨event, hevent, hsite⟩ := holdSource d hd
    rw [Declaration.visibleTo, Declaration.isHost]
    cases hd' : d.site with
    | none => simp
    | some site =>
      rw [hd'] at hsite
      have hlt := hsmaller event hevent site hsite
      simp [hlt]
  rw [hnew, List.filter_append, hlater, List.append_nil, hlive, hearlier]

/-- What a use finds at its time is what it finds in the end. -/
theorem nearest?_eq {live last : Live String} {before after : List ScopeEvent} {use : NodeId}
    (hbefore : start.Grows before live) (hafter : live.Grows after last)
    (hsmaller : ∀ event ∈ before, ∀ site, event.declares? = some (some site) → site.node < use)
    (hgreater : ∀ event ∈ after, ∀ site?, event.declares? = some site? →
      ∃ site, site? = some site ∧ ¬ site.node < use)
    (name : String) {scope : ScopeId} (hscope : scope < live.tree.nextId) :
    last.resolution.nearest? name use scope
      = (live.tree.ancestors scope).findSome? (live.lastIn name) := by
  have hancestors : last.tree.ancestors scope = live.tree.ancestors scope :=
    ScopeTree.ancestors_congr fun s hs => hafter.parents s (Nat.lt_of_le_of_lt hs hscope)
  have hvisible : (fun s => (last.resolution.visible name use s).getLast?) = live.lastIn name := by
    funext s
    rw [lastIn, ← visible_eq hbefore hafter hsmaller hgreater]
    rfl
  rw [Resolution.nearest?, hvisible]
  exact congrArg (List.findSome? _) hancestors

/-- A use in a live scope is recorded with what is found on the way out. -/
theorem use_eq {live : Live String} (h : live.Coupled) {scope : ScopeId}
    (hscope : live.chain.current? = some scope) (name : String) (site : Site) :
    live.step (.use name site) = live.record name site
      (match (live.tree.ancestors scope).findSome? (live.lastIn name) with
      | some d => .resolved d
      | none => .undefined) := by
  change live.use (live.chain.lookup name) name site = _
  rw [use, h.lookup_eq hscope]
  cases (live.tree.ancestors scope).findSome? (live.lastIn name) <;> rfl

theorem use_mentions {live : Live String} (h : live.Coupled) {scope : ScopeId}
    (hscope : live.chain.current? = some scope) (name : String) (site : Site) :
    (live.step (.use name site)).mentions = live.mentions ++ [⟨name, site, scope,
      match (live.tree.ancestors scope).findSome? (live.lastIn name) with
      | some d => .resolved d
      | none => .undefined⟩] := by
  rw [use_eq h hscope, record, hscope]

end Live

/-! ### Whole walks -/

/-- What is done before the statements of a program are walked. -/
def openingEvents (names : List String) : List ScopeEvent :=
  .enter .function :: names.map .predeclare ++ [.enter .block]

theorem scopeEvents_eq (names : List String) (data : NodeData) {slots : List Slot}
    (form : Form .program slots) (fields : Fields slots) :
    Program.scopeEvents names (.mk data form fields)
      = openingEvents names ++ (fields.scopeEvents ++ [.leave, .leave]) := by
  rw [Program.scopeEvents, openingEvents, inScopes]
  simp only [List.map_cons, List.map_nil, List.append_assoc, List.cons_append, List.nil_append]

theorem openingEvents_cases {names : List String} {event : ScopeEvent}
    (h : event ∈ openingEvents names) :
    event.site? = none ∧ ∀ site, event.declares? ≠ some (some site) := by
  rw [openingEvents, List.cons_append, List.mem_cons, List.mem_append] at h
  rcases h with rfl | h | h
  · exact ⟨rfl, fun _ hsite => nomatch hsite⟩
  · obtain ⟨name, -, rfl⟩ := List.mem_map.mp h
    exact ⟨rfl, fun _ hsite => nomatch hsite⟩
  · rw [List.mem_singleton] at h
    subst h
    exact ⟨rfl, fun _ hsite => nomatch hsite⟩

theorem sites_openingEvents (names : List String) :
    (openingEvents names).filterMap ScopeEvent.site? = [] := by
  rw [List.filterMap_eq_nil_iff]
  exact fun event h => (openingEvents_cases h).1

theorem depth_predeclared (names : List String) (n : Nat) :
    (names.map ScopeEvent.predeclare).foldlM ScopeEvent.depth? n = some n := by
  induction names with
  | nil => rfl
  | cons name names ih =>
    rw [List.map_cons, List.foldlM_cons]
    exact ih

theorem depth_openingEvents (names : List String) :
    (openingEvents names).foldlM ScopeEvent.depth? 0 = some 2 := by
  rw [openingEvents, List.cons_append, List.foldlM_cons]
  change (List.foldlM ScopeEvent.depth? 1 (names.map ScopeEvent.predeclare ++ [.enter .block])) = _
  rw [List.foldlM_append, depth_predeclared]
  rfl

section walk

variable {names : List String} {inner : List ScopeEvent} {walked : List AnyNode}

/-- The state after the walk of a program with the given inner events. -/
def walkedState (names : List String) (inner : List ScopeEvent) : Live String :=
  Live.start.run (openingEvents names ++ (inner ++ [.leave, .leave]))

/-- Records come in the order of the identifiers. -/
theorem mentions_pairwise (names : List String)
    (horder : (inner.filterMap ScopeEvent.site?).Pairwise (·.node < ·.node)) :
    (walkedState names inner).mentions.Pairwise fun a b => a.site.node ≠ b.site.node := by
  obtain ⟨new, hnew, hsites⟩ := (Live.run_grows Live.coupled_start
    (openingEvents names ++ (inner ++ [.leave, .leave]))).mentions
  have hleaves : ([.leave, .leave] : List ScopeEvent).filterMap ScopeEvent.site? = [] := rfl
  rw [List.filterMap_append, sites_openingEvents, List.filterMap_append, hleaves, List.nil_append,
    List.append_nil] at hsites
  have hpairs := List.pairwise_map.mp (horder.sublist hsites)
  have hmentions : (walkedState names inner).mentions = new := hnew
  rw [hmentions]
  exact hpairs.imp Nat.ne_of_lt

/-- Inside a program there is always a scope. -/
theorem exists_scope (names : List String) {pre post : List ScopeEvent}
    (hnested : Nested (pre ++ post)) :
    ∃ scope, (Live.start.run (openingEvents names ++ pre)).chain.current? = some scope := by
  have hdepth := hnested 0
  rw [List.foldlM_append] at hdepth
  obtain ⟨k, hk, -⟩ := Option.bind_eq_some_iff.mp hdepth
  have hopened : (Live.start.run (openingEvents names)).chain.length = 0 + 2 :=
    Live.run_depth Live.coupled_start (Nat.zero_add 0).symm (depth_openingEvents names)
  have hlength : (Live.start.run (openingEvents names ++ pre)).chain.length = 2 + k := by
    rw [Live.run_append]
    rw [Nat.zero_add] at hopened
    exact Live.run_depth (Live.run_coupled Live.coupled_start _) hopened hk
  cases hchain : (Live.start.run (openingEvents names ++ pre)).chain with
  | nil =>
    rw [hchain, List.length_nil] at hlength
    omega
  | cons frame rest => exact ⟨frame.id, rfl⟩

/-- Every use leaves a record of the nearest visible declaration. -/
theorem use_recorded (hnested : Nested inner) (hwithin : ∀ event ∈ inner, event.Within walked)
    (horder : (inner.filterMap ScopeEvent.site?).Pairwise (·.node < ·.node)) {name : String}
    {site : Site} (huse : .use name site ∈ inner) :
    ∃ scope, ⟨name, site, scope,
      match (walkedState names inner).resolution.nearest? name site.node scope with
      | some d => .resolved d
      | none => .undefined⟩ ∈ (walkedState names inner).mentions := by
  obtain ⟨pre, post, rfl⟩ := List.append_of_mem huse
  rw [List.filterMap_append, List.filterMap_cons] at horder
  change (_ ++ site :: _).Pairwise _ at horder
  rw [List.pairwise_append, List.pairwise_cons] at horder
  obtain ⟨scope, hscope⟩ := exists_scope names hnested
  have hlast : walkedState names (pre ++ .use name site :: post)
      = (Live.start.run (openingEvents names ++ pre)).run
        (.use name site :: (post ++ [.leave, .leave])) := by
    rw [walkedState, ← Live.run_append]
    simp only [List.append_assoc, List.cons_append]
  have hbefore := Live.run_grows Live.coupled_start (openingEvents names ++ pre)
  have hcoupled := Live.run_coupled Live.coupled_start (openingEvents names ++ pre)
  -- from here on the state at the use is some state with these properties
  generalize Live.start.run (openingEvents names ++ pre) = live at *
  have hafter := Live.run_grows hcoupled (.use name site :: (post ++ [.leave, .leave]))
  have hsmaller : ∀ event ∈ openingEvents names ++ pre, ∀ other,
      event.declares? = some (some other) → other.node < site.node := by
    intro event hevent other hother
    rcases List.mem_append.mp hevent with hopening | hpre
    · exact absurd hother ((openingEvents_cases hopening).2 other)
    · refine horder.2.2 other (List.mem_filterMap.mpr ⟨event, hpre, ?_⟩) site List.mem_cons_self
      cases event <;> cases hother
      rfl
  have hgreater : ∀ event ∈ (ScopeEvent.use name site :: (post ++ [.leave, .leave])), ∀ site?,
      event.declares? = some site? → ∃ other, site? = some other ∧ ¬ other.node < site.node := by
    intro event hevent site? hsite
    rcases List.mem_cons.mp hevent with rfl | hevent
    · cases hsite
    rcases List.mem_append.mp hevent with hpost | hleave
    · have hinside := hwithin event (List.mem_append_right _ (List.mem_cons_of_mem _ hpost))
      cases event with
      | bind binding name' other =>
        cases hsite
        refine ⟨other, rfl, Nat.not_lt_of_gt ?_⟩
        exact horder.2.1.1 other (List.mem_filterMap.mpr ⟨_, hpost, rfl⟩)
      | predeclare name' => exact hinside.elim
      | enter kind => cases hsite
      | leave => cases hsite
      | use name' other => cases hsite
    · simp only [List.mem_cons, List.not_mem_nil, or_false, or_self] at hleave
      subst hleave
      cases hsite
  have hopen : scope < live.tree.nextId := by
    refine hcoupled.opened scope ?_
    obtain ⟨frame, hhead, rfl⟩ := Option.map_eq_some_iff.mp hscope
    exact List.mem_map_of_mem (List.mem_of_head? hhead)
  refine ⟨scope, ?_⟩
  rw [hlast, Live.nearest?_eq hbefore hafter hsmaller hgreater name hopen]
  obtain ⟨new, hnew, -⟩ := (Live.run_grows (hcoupled.step (.use name site))
    (post ++ [.leave, .leave])).mentions
  have hmentions : (live.run (.use name site :: (post ++ [.leave, .leave]))).mentions
      = (live.step (.use name site)).mentions ++ new := hnew
  rw [hmentions, Live.use_mentions hcoupled hscope]
  exact List.mem_append_left _ (List.mem_append_right _ (List.mem_singleton_self _))

/-- The record of a declaration, and the identifier that made it. -/
theorem binder_recorded (hwithin : ∀ event ∈ inner, event.Within walked) {d : Declaration}
    {site : Site} (hd : d ∈ (walkedState names inner).declarations) (hsite : d.site = some site) :
    ∃ m ∈ (walkedState names inner).mentions, m.site = site ∧ m.outcome = .declared d ∧
      ∃ b ∈ walked, b.site = site ∧ b.identifier?.isSome := by
  have hrecorded : (walkedState names inner).Recorded :=
    Live.run_recorded (fun _ h => absurd h List.not_mem_nil) Live.coupled_start _
  obtain ⟨m, hm, rfl, houtcome⟩ := hrecorded d hd site hsite
  refine ⟨m, hm, rfl, houtcome, ?_⟩
  -- its site is that of an event, and so of an identifier
  obtain ⟨new, hnew, hsites⟩ := (Live.run_grows Live.coupled_start
    (openingEvents names ++ (inner ++ [.leave, .leave]))).mentions
  have hmem : m.site ∈ new.map Mention.site := by
    have hmentions : (walkedState names inner).mentions = new := hnew
    rw [← hmentions]
    exact List.mem_map_of_mem hm
  obtain ⟨event, hevent, hsite'⟩ := List.mem_filterMap.mp (hsites.subset hmem)
  have hinner : event ∈ inner := by
    rcases List.mem_append.mp hevent with hopening | hevent
    · rw [(openingEvents_cases hopening).1] at hsite'
      cases hsite'
    rcases List.mem_append.mp hevent with hinner | hleave
    · exact hinner
    · simp only [List.mem_cons, List.not_mem_nil, or_false, or_self] at hleave
      rw [hleave] at hsite'
      cases hsite'
  have hinside := hwithin event hinner
  cases event <;> cases hsite'
  · obtain ⟨b, hb, hbsite, hname⟩ := hinside
    refine ⟨b, hb, hbsite, ?_⟩
    cases hfound : b.identifier? with
    | none =>
      rw [hfound] at hname
      cases hname
    | some found => rfl
  · obtain ⟨b, hb, hbsite, hname⟩ := hinside
    refine ⟨b, hb, hbsite, ?_⟩
    cases hfound : b.identifier? with
    | none =>
      rw [hfound] at hname
      cases hname
    | some found => rfl

theorem infoOf_eq (horder : (inner.filterMap ScopeEvent.site?).Pairwise (·.node < ·.node))
    {m : Mention} (hm : m ∈ (walkedState names inner).mentions) :
    (walkedState names inner).resolution.infoOf m.site.node = m.info := by
  have hfind : (walkedState names inner).resolution.mentions.find? (·.site.node = m.site.node)
      = some m := find?_mention (mentions_pairwise names horder) hm
  rw [Resolution.infoOf, Resolution.mention?, hfind]

end walk

/-- The walk of a program meets its identifiers between two scopes that are
opened first and closed last. -/
structure Program.WalkedAs (p : Program) (inner : List ScopeEvent) : Prop where
  resolution : ∀ options, p.resolution options = (walkedState options.names inner).resolution
  nested : Nested inner
  within : ∀ event ∈ inner, event.Within p.walked
  order : (inner.filterMap ScopeEvent.site?).Pairwise (·.node < ·.node)
  uses : ∀ u ∈ p.walked, ∀ found, u.identifier? = some found → found.isBinder = false →
    .use found.name u.site ∈ inner

theorem Program.walkedAs {file : Option String} {data : NodeData} {slots : List Slot}
    {form : Form .program slots} {fields : Fields slots} {s s' : ImportState}
    (himported : fields.Imported file) (hreached : Reached s fields.labels s') :
    Program.WalkedAs (.mk data form fields) fields.scopeEvents where
  resolution := by
    intro options
    rw [Program.resolution, scopeEvents_eq]
    rfl
  nested := fields.nested
  within := by
    intro event hevent
    rw [Node.walked]
    exact (fields.events_within event hevent).mono fun u => List.mem_cons_of_mem _
  order := hreached.ids.1.sublist fields.sites_sublist
  uses := by
    intro u hu found hfound huse
    rw [Node.walked] at hu
    rcases List.mem_cons.mp hu with rfl | hrest
    · -- the program itself is no identifier
      cases form
      cases hfound
    · exact fields.use_mem hfound huse himported hrest

/-- The statements of an imported program, as the only field of its node. -/
theorem importProgram_fields {raw : Json} {file : Option String} {p : Program}
    (h : importProgram raw file = .ok p) :
    ∃ data comments index, ∃ fields : Fields [.many "body" .statement], ∃ s s',
      p = .mk data (.program comments index) fields ∧ fields.Imported file ∧
        Reached s fields.labels s' := by
  obtain ⟨found, index, t', body, -, -, hreached, himported, rfl⟩ := importProgram_ok h
  have hlabels : (.cons body .nil : Fields [.many "body" .statement]).labels = body.labels := by
    rw [Fields.labels, Fields.labels, List.append_nil]
  have himported' : (.cons body .nil : Fields [.many "body" .statement]).Imported file := by
    rw [Fields.Imported, Fields.Imported]
    exact ⟨himported.1, trivial⟩
  rw [← hlabels] at hreached
  exact ⟨_, _, _, _, _, _, rfl, himported', hreached⟩

theorem importProgram_walkedAs {raw : Json} {file : Option String} {p : Program}
    (h : importProgram raw file = .ok p) : ∃ inner, p.WalkedAs inner := by
  obtain ⟨data, comments, index, fields, s, s', rfl, himported, hreached⟩ :=
    importProgram_fields h
  exact ⟨_, Program.walkedAs himported hreached⟩

/-- What is found nearest is one of the declarations. -/
theorem Resolution.mem_of_nearest? {r : Resolution} {name : String} {use : NodeId}
    {scope : ScopeId} {d : Declaration} (h : r.nearest? name use scope = some d) :
    d ∈ r.declarations := by
  obtain ⟨s, -, hlast⟩ := List.exists_of_findSome?_eq_some h
  have hmem := (List.mem_filter.mp (List.mem_of_getLast? hlast)).1
  obtain ⟨i, -, hi⟩ := List.mem_filterMap.mp hmem
  exact List.mem_of_getElem? hi

/-- In an imported program, every walked identifier that is no binder refers to
the nearest visible declaration, and is annotated like the binder of that
declaration; when there is none, it is reported as undefined. -/
theorem importProgram_annotated {raw : Json} {file : Option String} {p : Program}
    (h : importProgram raw file = .ok p) (options : ResolveOptions) {i : Nat} {u : AnyNode}
    (hu : p.walked[i]? = some u) {found : IdentifierView} (hfound : u.identifier? = some found)
    (huse : found.isBinder = false) :
    ∃ scope v, (p.resolution options).identifierScopes.lookup u.node.id = some scope ∧
      (p.annotated (p.resolution options)).walked[i]? = some v ∧ v.node.data = u.node.data ∧
      match (p.resolution options).nearest? found.name u.node.id scope with
      | some d =>
        (p.resolution options).references.lookup u.node.id = some d.id ∧
          v.identifier? = some ⟨found.name, false, d.info⟩ ∧
          ∀ site, d.site = some site → ∃ b ∈ (p.annotated (p.resolution options)).walked,
            b.node.id = site.node ∧ b.identifier?.map (·.info) = some d.info
      | none =>
        (p.resolution options).references.lookup u.node.id = none ∧
          v.identifier? = some ⟨found.name, false, .unresolved⟩ ∧
          Diagnostic.located u.node.data.loc .undefinedIdentifier [found.name]
            ∈ (p.resolution options).diagnostics := by
  obtain ⟨inner, hwalked⟩ := importProgram_walkedAs h
  have hevent := hwalked.uses u (List.mem_of_getElem? hu) found hfound huse
  obtain ⟨scope, hm⟩ := use_recorded hwalked.nested hwalked.within hwalked.order hevent
  -- the walk leaves one record of the use
  have hpairs := mentions_pairwise options.names hwalked.order
  have hinfo := infoOf_eq hwalked.order hm
  rw [hwalked.resolution options]
  generalize hr : (walkedState options.names inner).resolution = r at *
  have hmentions : r.mentions = (walkedState options.names inner).mentions := by
    rw [← hr]
    rfl
  rw [← hmentions] at hm hpairs
  -- scope, reference and mark of the use are all read off this one record
  have hscopes : r.identifierScopes.lookup u.node.id = some scope := by
    rw [Resolution.identifierScopes, ← List.filterMap_eq_map]
    exact lookup_mention (fun m => some m.scope) hpairs hm
  have hreferences := lookup_mention (fun m => m.target?.map (·.id)) hpairs hm
  simp only [Option.map_map] at hreferences
  have hv : (p.annotated r).walked[i]? = some (u.annotate r.infoOf) := by
    rw [Program.annotated, Node.walked_annotate, List.getElem?_map, hu]
    rfl
  have hview : (u.annotate r.infoOf).identifier?
      = some ⟨found.name, false, r.infoOf u.node.id⟩ := by
    rw [AnyNode.identifier?_annotate, hfound, ← huse]
    rfl
  refine ⟨scope, _, hscopes, hv, AnyNode.data_annotate _ _, ?_⟩
  have hnode : u.site.node = u.node.id := rfl
  rw [hview]
  cases hnearest : r.nearest? found.name u.node.id scope with
  | some d =>
    rw [hnode, hnearest] at hreferences hinfo
    refine ⟨hreferences, ?_, ?_⟩
    · rw [hinfo]
      rfl
    · -- the binder has a record of its own
      intro site hsite
      have hd : d ∈ (walkedState options.names inner).declarations := by
        have hmem := Resolution.mem_of_nearest? hnearest
        rw [← hr] at hmem
        exact hmem
      obtain ⟨m, hm', rfl, houtcome, b, hb, hbsite, hfound'⟩ :=
        binder_recorded hwalked.within hd hsite
      refine ⟨b.annotate r.infoOf, ?_, ?_, ?_⟩
      · rw [Program.annotated, Node.walked_annotate]
        exact List.mem_map_of_mem hb
      · rw [Node.id, AnyNode.data_annotate, ← hbsite]
        rfl
      · have hbinfo := infoOf_eq hwalked.order hm'
        rw [hr, ← hbsite] at hbinfo
        obtain ⟨view, hview'⟩ := Option.isSome_iff_exists.mp hfound'
        rw [AnyNode.identifier?_annotate, hview']
        change some (r.infoOf b.site.node) = _
        rw [hbinfo, Mention.info, Mention.target?, houtcome]
  | none =>
    rw [hnode, hnearest] at hreferences hinfo hm
    refine ⟨hreferences, ?_, ?_⟩
    · rw [hinfo]
      rfl
    · exact List.mem_filterMap.mpr ⟨_, hm, rfl⟩

/-- A variable that is declared and then used. -/
def usedVariable : Json :=
  let name : Json := .object [("type", .string "Identifier"), ("name", .string "x")]
  .object [("type", .string "Program"),
    ("body", .array [
      .object [("type", .string "VariableDeclaration"), ("kind", .string "var"),
        ("declarations", .array [.object [("type", .string "VariableDeclarator"), ("id", name),
          ("init", .null)]])],
      .object [("type", .string "ExpressionStatement"), ("expression", name)]])]

end EsFront
