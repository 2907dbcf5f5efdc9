/-
What resolution makes of a program.

An identifier takes over the name and the mark of the declaration that it
refers to (`Resolution.unify`); one that was not recorded would keep what it
said before. In an imported program, whatever its identifiers were marked with,
neither a name changes nor an old mark stays: every walked identifier is
recorded, and declarations are found under their own names.

* `Live.Stands.names_step`, `Live.Stands.exists_names` — the record of an
  identifier, for one event and for a whole walk;
* `Program.resolve_of_bare` — what comes out depends on the program without its
  marks only;
* `importProgram_resolves` — so an identifier refers to the nearest visible
  declaration, and is marked like its binder;
* `importProgram_resolve_congr` — so old marks do not matter.
-/
import EsFront.Proofs.Scope.Accounts
import EsFront.Proofs.Scope.Moments

namespace EsFront

/-! ### Changes to identifiers -/

theorem Form.mark_mark {kind : NodeKind} {slots : List Slot}
    (change other : IdentifierView → IdentifierView) (form : Form kind slots) :
    (form.mark change).mark other = form.mark fun found => other (change found) := by
  cases form <;> rfl

section mark

variable (change other : NodeId → IdentifierView → IdentifierView)

mutual

/-- Two changes one after the other are one. -/
theorem Node.mark_mark {kind : NodeKind} : ∀ node : Node kind,
    (node.mark change).mark other = node.mark fun id found => other id (change id found)
  | .mk data form fields => by
    rw [Node.mark, Node.mark, Node.mark, form.mark_mark, Fields.mark_mark fields]

theorem Fields.mark_mark {slots : List Slot} : ∀ fields : Fields slots,
    (fields.mark change).mark other = fields.mark fun id found => other id (change id found)
  | .nil => by
    rw [Fields.mark, Fields.mark, Fields.mark]
  | @Fields.cons slot _ field rest => by
    rw [Fields.mark, Fields.mark, Fields.mark, Fields.mark_mark rest]
    congr 1
    -- neither change reaches a field that is not walked
    split
    · exact Field.mark_mark field
    · rfl

theorem Field.mark_mark {arity : Arity} {holds : Capability} : ∀ field : Field arity holds,
    (field.mark change).mark other = field.mark fun id found => other id (change id found)
  | .one node _ => by
    rw [Field.mark, Field.mark, Field.mark, Node.mark_mark node]
  | .absent => by
    rw [Field.mark, Field.mark, Field.mark]
  | .present node _ => by
    rw [Field.mark, Field.mark, Field.mark, Node.mark_mark node]
  | .nil => by
    rw [Field.mark, Field.mark, Field.mark]
  | .cons node _ rest => by
    rw [Field.mark, Field.mark, Field.mark, Node.mark_mark node, Field.mark_mark rest]
  | .hole rest => by
    rw [Field.mark, Field.mark, Field.mark, Field.mark_mark rest]

end

/-- Both changes make the same of the nodes. -/
def AgreeOn (walked : List AnyNode) : Prop :=
  ∀ any ∈ walked, ∀ found, any.identifier? = some found →
    change any.node.id found = other any.node.id found

variable {change other}

theorem AgreeOn.left {walked more : List AnyNode} (h : AgreeOn change other (walked ++ more)) :
    AgreeOn change other walked := fun any hany => h any (List.mem_append_left more hany)

theorem AgreeOn.right {walked more : List AnyNode} (h : AgreeOn change other (walked ++ more)) :
    AgreeOn change other more := fun any hany => h any (List.mem_append_right walked hany)

theorem Form.mark_congr {kind : NodeKind} {slots : List Slot}
    {change other : IdentifierView → IdentifierView} {form : Form kind slots}
    (h : ∀ found, form.identifier? = some found → change found = other found) :
    form.mark change = form.mark other := by
  cases form with
  | identifier name isBinder info => rw [Form.mark, Form.mark, h _ rfl]
  | _ => rfl

mutual

/-- Changes that agree on the walked identifiers make the same of a tree. -/
theorem Node.mark_congr {kind : NodeKind} : ∀ node : Node kind,
    AgreeOn change other node.walked → node.mark change = node.mark other
  | .mk data form fields, h => by
    rw [Node.walked] at h
    have hform : form.mark (change data.id) = form.mark (other data.id) :=
      Form.mark_congr (h _ List.mem_cons_self)
    rw [Node.mark, Node.mark, hform,
      Fields.mark_congr fields fun any hany => h any (List.mem_cons_of_mem _ hany)]

theorem Fields.mark_congr {slots : List Slot} : ∀ fields : Fields slots,
    AgreeOn change other fields.walked → fields.mark change = fields.mark other
  | .nil, _ => by
    rw [Fields.mark, Fields.mark]
  | @Fields.cons slot _ field rest, h => by
    rw [Fields.walked] at h
    rw [Fields.mark, Fields.mark, Fields.mark_congr rest h.right]
    congr 1
    by_cases hwalked : slot.role.isWalked = true
    · rw [if_pos hwalked] at h
      rw [if_pos hwalked, if_pos hwalked, Field.mark_congr field h.left]
    · rw [if_neg hwalked, if_neg hwalked]

theorem Field.mark_congr {arity : Arity} {holds : Capability} : ∀ field : Field arity holds,
    AgreeOn change other field.walked → field.mark change = field.mark other
  | .one node _, h => by
    rw [Field.walked] at h
    rw [Field.mark, Field.mark, Node.mark_congr node h]
  | .absent, _ => by
    rw [Field.mark, Field.mark]
  | .present node _, h => by
    rw [Field.walked] at h
    rw [Field.mark, Field.mark, Node.mark_congr node h]
  | .nil, _ => by
    rw [Field.mark, Field.mark]
  | .cons node _ rest, h => by
    rw [Field.walked] at h
    rw [Field.mark, Field.mark, Node.mark_congr node h.left, Field.mark_congr rest h.right]
  | .hole rest, h => by
    rw [Field.walked] at h
    rw [Field.mark, Field.mark, Field.mark_congr rest h]

end

/-- The name of every identifier stays. -/
def KeepsNames (change : NodeId → IdentifierView → IdentifierView) : Prop :=
  ∀ id found, (change id found).name = found.name

theorem Form.mention_mark {kind : NodeKind} {slots : List Slot} (role : Role) (data : NodeData)
    {change : IdentifierView → IdentifierView} (h : ∀ found, (change found).name = found.name)
    (form : Form kind slots) : (form.mark change).mention role data = form.mention role data := by
  unfold Form.mention
  rw [form.identifier?_mark]
  cases form.identifier? with
  | none => rfl
  | some found =>
    rw [Option.map_some]
    dsimp only
    rw [h found]

theorem Form.scopes_mark {kind : NodeKind} {slots : List Slot} (role : Role)
    (change : IdentifierView → IdentifierView) (form : Form kind slots) :
    (form.mark change).scopes role = form.scopes role := by
  cases form <;> rfl

mutual

/-- What a program does to scopes does not depend on its marks. -/
theorem Node.scopeEvents_mark {kind : NodeKind} (role : Role) (h : KeepsNames change) :
    ∀ node : Node kind, (node.mark change).scopeEvents role = node.scopeEvents role
  | .mk data form fields => by
    rw [Node.mark, Node.scopeEvents, Node.scopeEvents, form.scopes_mark,
      form.mention_mark role data (h data.id), Fields.scopeEvents_mark h fields]

theorem Fields.scopeEvents_mark {slots : List Slot} (h : KeepsNames change) :
    ∀ fields : Fields slots, (fields.mark change).scopeEvents = fields.scopeEvents
  | .nil => by
    rw [Fields.mark]
  | @Fields.cons slot _ field rest => by
    rw [Fields.mark, Fields.scopeEvents, Fields.scopeEvents, Fields.scopeEvents_mark h rest]
    congr 1
    split
    · exact Field.scopeEvents_mark slot.role h field
    · rfl

theorem Field.scopeEvents_mark {arity : Arity} {holds : Capability} (role : Role)
    (h : KeepsNames change) : ∀ field : Field arity holds,
      (field.mark change).scopeEvents role = field.scopeEvents role
  | .one node _ => by
    rw [Field.mark, Field.scopeEvents, Field.scopeEvents, Node.scopeEvents_mark role h node]
  | .absent => by
    rw [Field.mark]
  | .present node _ => by
    rw [Field.mark, Field.scopeEvents, Field.scopeEvents, Node.scopeEvents_mark role h node]
  | .nil => by
    rw [Field.mark]
  | .cons node _ rest => by
    rw [Field.mark, Field.scopeEvents, Field.scopeEvents, Node.scopeEvents_mark role h node,
      Field.scopeEvents_mark role h rest]
  | .hole rest => by
    rw [Field.mark, Field.scopeEvents, Field.scopeEvents, Field.scopeEvents_mark role h rest]

end

theorem Program.resolution_mark (h : KeepsNames change) (options : ResolveOptions) (p : Program) :
    Program.resolution options (p.mark change) = p.resolution options := by
  obtain ⟨data, form, fields⟩ := p
  unfold Program.resolution
  rw [Node.mark, Program.scopeEvents, Program.scopeEvents, Fields.scopeEvents_mark h fields]

end mark

/-! ### Programs without marks -/

/-- The tree without the marks of its walked identifiers. -/
def Node.bare {kind : NodeKind} (node : Node kind) : Node kind := node.annotate fun _ => .unresolved

/-- The mark that is made last counts. -/
theorem Node.annotate_annotate {kind : NodeKind} (info other : NodeId → ResolutionInfo)
    (node : Node kind) : (node.annotate info).annotate other = node.annotate other :=
  Node.mark_mark _ _ node

theorem Node.bare_annotate {kind : NodeKind} (info : NodeId → ResolutionInfo) (node : Node kind) :
    (node.annotate info).bare = node.bare := node.annotate_annotate info _

theorem Node.annotate_of_bare {kind : NodeKind} {node other : Node kind}
    (h : node.bare = other.bare) (info : NodeId → ResolutionInfo) :
    node.annotate info = other.annotate info := by
  have hbare : ∀ node : Node kind, node.bare.annotate info = node.annotate info :=
    fun node => node.annotate_annotate _ info
  rw [← hbare node, h, hbare other]

theorem Program.resolution_of_bare {p q : Program} (h : q.bare = p.bare)
    (options : ResolveOptions) : q.resolution options = p.resolution options := by
  have hnames : KeepsNames fun _ found => { found with info := .unresolved } := fun _ _ => rfl
  have hbare : ∀ p : Program, Program.resolution options p.bare = p.resolution options :=
    fun p => p.resolution_mark hnames options
  rw [← hbare q, h, hbare p]

/-- Trees that are the same without marks have the same walked identifiers, up
to their marks. -/
theorem Node.exists_walked_of_bare {kind : NodeKind} {node other : Node kind}
    (h : node.bare = other.bare) {any : AnyNode} (hany : any ∈ node.walked)
    {found : IdentifierView} (hfound : any.identifier? = some found) :
    ∃ any' ∈ other.walked, any'.node.data = any.node.data ∧
      ∃ info, any'.identifier? = some { found with info } := by
  have hwalked : node.walked.map (AnyNode.annotate fun _ => .unresolved)
      = other.walked.map (AnyNode.annotate fun _ => .unresolved) := by
    rw [← Node.walked_annotate, ← Node.walked_annotate]
    exact congrArg Node.walked h
  obtain ⟨any', hany', hsame⟩ := List.mem_map.mp (hwalked ▸ List.mem_map_of_mem hany)
  refine ⟨any', hany', ?_, ?_⟩
  · rw [← AnyNode.data_annotate _ any', hsame, AnyNode.data_annotate]
  · have hviews := congrArg AnyNode.identifier? hsame
    rw [AnyNode.identifier?_annotate, AnyNode.identifier?_annotate, hfound, Option.map_some,
      Option.map_eq_some_iff] at hviews
    obtain ⟨found', hfound', heq⟩ := hviews
    refine ⟨found'.info, ?_⟩
    rw [hfound']
    cases found
    cases found'
    cases heq
    rfl

/-! ### Records of identifiers -/

/-- The record of an identifier: what it refers to, if anything, has its name. -/
structure Mention.Names (m : Mention) (o : Occurrence) : Prop where
  site : m.site = o.site
  name : ∀ d, m.target? = some d → d.name = o.name

namespace Live

variable {live : Live String} {place : Place}

/-- One event inside a program leaves a record of its identifier, if it has
one. -/
theorem Stands.names_step (h : live.Stands place) {event : ScopeEvent} (hfits : event.Fits place)
    {o : Occurrence} (ho : event.occurrence? = some o) :
    ∃ m ∈ (live.step event).mentions, m.Names o := by
  cases event with
  | enter kind => cases ho
  | leave => cases ho
  | predeclare name => cases ho
  | bind binding name site =>
    cases ho
    obtain ⟨block, function, rest, hview, hblock, hfunction, hkind⟩ := h.view hfits.1
    obtain ⟨verdict, hjudged, hstep⟩ := h.kept.coupled.bind_spec hview hfunction name site
    obtain ⟨current, hcurrent⟩ := Chain.exists_current hview
    -- it refers to its own declaration, or to one that it clashes with
    cases verdict with
    | declares scope =>
      obtain ⟨-, hstep⟩ := hstep
      rw [hstep, Live.record, current?_declare, hcurrent]
      refine ⟨_, List.mem_append_right _ (List.mem_singleton_self _), rfl, ?_⟩
      rintro d ⟨⟩
      rfl
    | clashes clash first =>
      obtain ⟨-, -, hname, -⟩ := h.clash_spec hfits hview hblock hfunction hkind hjudged
      rw [hstep, Live.record, hcurrent]
      refine ⟨_, List.mem_append_right _ (List.mem_singleton_self _), rfl, ?_⟩
      rintro d ⟨⟩
      exact hname
  | use name site =>
    cases ho
    obtain ⟨block, function, rest, hview, -⟩ := h.view (n := 0) hfits
    have hcurrent : live.chain.current? = some block.id := by
      rw [show live.chain = block :: rest from hview]
      rfl
    rw [use_mentions h.kept.coupled hcurrent name site]
    refine ⟨_, List.mem_append_right _ (List.mem_singleton_self _), rfl, ?_⟩
    intro d hd
    -- what is found on the way out was declared under this name
    cases hfound : (live.tree.ancestors block.id).findSome? (live.lastIn name) with
    | none =>
      rw [hfound] at hd
      cases hd
    | some found =>
      rw [hfound] at hd
      cases hd
      obtain ⟨scope, -, hlast⟩ := List.exists_of_findSome?_eq_some hfound
      exact (mem_listed_of_lastIn hlast).2

/-- Inside a program, every identifier is recorded. -/
theorem Stands.exists_names (h : live.Stands place) {events : List ScopeEvent}
    (horderly : Orderly place events) {o : Occurrence}
    (ho : o ∈ events.filterMap ScopeEvent.occurrence?) :
    ∃ m ∈ (live.run events).mentions, m.Names o := by
  induction events generalizing live place with
  | nil => exact absurd ho List.not_mem_nil
  | cons event events ih =>
    rw [filterMap_cons_toList, List.mem_append] at ho
    rcases ho with hfirst | hrest
    · obtain ⟨m, hm, hnames⟩ := h.names_step horderly.1 (Option.mem_toList.mp hfirst)
      -- later events only add records
      obtain ⟨new, hnew, -⟩ := (run_grows (h.step horderly.1).kept.coupled events).mentions
      refine ⟨m, ?_, hnames⟩
      change m ∈ ((live.step event).run events).mentions
      rw [hnew]
      exact List.mem_append_left new hm
    · exact ih (h.step horderly.1) horderly.2 hrest

end Live

/-- A record of the identifier with the given number is found, and what it
refers to has the given name. -/
def Resolution.Knows (r : Resolution) (node : NodeId) (name : String) : Prop :=
  ∃ m, r.mention? node = some m ∧ ∀ d, m.target? = some d → d.name = name

/-- An identifier that is recorded under its name only changes its mark. -/
theorem Resolution.Knows.unify_eq {r : Resolution} {node : NodeId} {found : IdentifierView}
    (h : r.Knows node found.name) : r.unify node found = { found with info := r.infoOf node } := by
  obtain ⟨m, hm, hname⟩ := h
  unfold Resolution.unify Resolution.infoOf Mention.info
  rw [hm]
  dsimp only
  cases htarget : m.target? with
  | none => rfl
  | some d =>
    dsimp only
    rw [hname d htarget]

/-- In an imported program, every walked identifier is recorded under its
name. -/
theorem importProgram_knows {raw : Json} {file : Option String} {p : Program}
    (h : importProgram raw file = .ok p) (options : ResolveOptions) {any : AnyNode}
    (hany : any ∈ p.walked) {found : IdentifierView} (hfound : any.identifier? = some found) :
    (p.resolution options).Knows any.node.id found.name := by
  obtain ⟨events, hevents⟩ := importProgram_allEvents h options
  obtain ⟨inner, -, hmet⟩ := importProgram_walk h
  have hmarked : (found.name, any.site, found.isBinder) ∈ p.occurrences.map (·.marked) := by
    rw [← hmet.marked]
    refine List.mem_filterMap.mpr ⟨any, hany, ?_⟩
    rw [AnyNode.marked?, hfound]
    rfl
  obtain ⟨o, ho, hsame⟩ := List.mem_map.mp hmarked
  -- the occurrence tells the site, and a site has one record
  have hname : o.name = found.name := congrArg Prod.fst hsame
  have hsite : o.site = any.site := congrArg (·.2.1) hsame
  rw [← hevents.occurrences] at ho
  obtain ⟨m, hm, hnames⟩ := Live.stands_start.exists_names hevents.orderly ho
  refine ⟨m, ?_, fun d hd => (hnames.name d hd).trans hname⟩
  rw [hevents.resolution]
  have hnode : m.site.node = any.node.id := by rw [hnames.site, hsite]; rfl
  rw [← hnode]
  exact find?_mention hevents.records hm

/-- What resolution makes of an imported program, whatever its identifiers were
marked with before: the marks, and nothing else, are those of the resolution. -/
theorem Program.resolve_of_bare {raw : Json} {file : Option String} {p q : Program}
    (h : importProgram raw file = .ok p) (options : ResolveOptions) (hq : q.bare = p.bare) :
    q.resolve options = (p.annotated (p.resolution options), p.resolution options) := by
  unfold Program.resolve Program.annotated
  rw [Program.resolution_of_bare hq options, ← Node.annotate_of_bare hq]
  -- an identifier of `q` is one of `p` but for its mark, and `p` was imported
  refine Prod.ext (Node.mark_congr q ?_) rfl
  intro any hany found hfound
  obtain ⟨any', hany', hdata, info, hfound'⟩ := Node.exists_walked_of_bare hq hany hfound
  have hknows := importProgram_knows h options hany' hfound'
  rw [Node.id, hdata] at hknows
  exact Resolution.Knows.unify_eq hknows

/-- In an imported program, every walked identifier that is no binder refers to
the nearest visible declaration, and is marked like the binder of that
declaration; when there is none, it is reported as undefined. -/
theorem importProgram_resolves {raw : Json} {file : Option String} {p : Program}
    (h : importProgram raw file = .ok p) (options : ResolveOptions) {i : Nat} {u : AnyNode}
    (hu : p.walked[i]? = some u) {found : IdentifierView} (hfound : u.identifier? = some found)
    (huse : found.isBinder = false) :
    ∃ scope v, (p.resolve options).2.identifierScopes.lookup u.node.id = some scope ∧
      (p.resolve options).1.walked[i]? = some v ∧ v.node.data = u.node.data ∧
      match (p.resolve options).2.nearest? found.name u.node.id scope with
      | some d =>
        (p.resolve options).2.references.lookup u.node.id = some d.id ∧
          v.identifier? = some ⟨found.name, false, d.info⟩ ∧
          ∀ site, d.site = some site → ∃ b ∈ (p.resolve options).1.walked,
            b.node.id = site.node ∧ b.identifier?.map (·.info) = some d.info
      | none =>
        (p.resolve options).2.references.lookup u.node.id = none ∧
          v.identifier? = some ⟨found.name, false, .unresolved⟩ ∧
          Diagnostic.located u.node.data.loc .undefinedIdentifier [found.name]
            ∈ (p.resolve options).2.diagnostics := by
  rw [Program.resolve_of_bare h options rfl]
  exact importProgram_annotated h options hu hfound huse

theorem usedVariable_resolves :
    ∃ p u scope v, importProgram usedVariable none = .ok p ∧ p.walked[5]? = some u ∧
      (p.resolve {}).2.identifierScopes.lookup u.node.id = some scope ∧
      (p.resolve {}).1.walked[5]? = some v ∧ v.node.data = u.node.data := by
  have hidentifier : ((importProgram usedVariable none).toOption.bind fun p =>
      p.walked[5]?.bind AnyNode.identifier?) = some ⟨"x", false, .unresolved⟩ := by decide +kernel
  obtain ⟨p, hp, hfound⟩ := Option.bind_eq_some_iff.mp hidentifier
  obtain ⟨u, hu, hview⟩ := Option.bind_eq_some_iff.mp hfound
  have himport := importProgram_of_toOption hp
  obtain ⟨scope, v, hscope, hv, hdata, -⟩ := importProgram_resolves himport {} hu hview rfl
  exact ⟨p, u, scope, v, himport, hu, hscope, hv, hdata⟩

/-- Resolution ignores what the identifiers of a program were marked with before,
and resolving its result again changes nothing. -/
theorem importProgram_resolve_congr {raw : Json} {file : Option String} {p : Program}
    (h : importProgram raw file = .ok p) (options : ResolveOptions) {q q' : Program}
    (hq : q.bare = p.bare) (hq' : q'.bare = p.bare) :
    q.resolve options = q'.resolve options ∧
      (q.resolve options).1.resolve options = q.resolve options := by
  have hresolved := Program.resolve_of_bare h options hq
  refine ⟨hresolved.trans (Program.resolve_of_bare h options hq').symm, ?_⟩
  have hbare : (q.resolve options).1.bare = p.bare := by
    rw [hresolved]
    exact p.bare_annotate _
  rw [Program.resolve_of_bare h options hbare, hresolved]

theorem usedVariable_resolve_congr :
    ∃ p q : Program, importProgram usedVariable none = .ok p ∧
      q = p.annotate (fun id => ⟨some id, none⟩) ∧ q.bare = p.bare ∧
      q.resolve {} = p.resolve {} ∧ (q.resolve {}).1.resolve {} = q.resolve {} := by
  have hok : (importProgram usedVariable none).toOption.isSome = true := by decide +kernel
  obtain ⟨p, hp⟩ := Option.isSome_iff_exists.mp hok
  have himport := importProgram_of_toOption hp
  have hbare := p.bare_annotate fun id => ⟨some id, none⟩
  exact ⟨p, _, himport, rfl, hbare, importProgram_resolve_congr himport {} hbare rfl⟩

end EsFront
