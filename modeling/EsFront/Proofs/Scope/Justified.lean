/-
Errors about repeated names are justified.

When an error is reported at a binder, an earlier binder of the same name is to
blame: both are bound in one block and one of them is constant, or one of them
is bound in a block by `let` or `const` and the other in the function around it,
from that block or from inside it (`Resolution.Justifies`). There is one
exception: a function expression binds its own name in the block of its body, so
a `let` or `const` there that takes the name again is reported as well
(`Resolution.TakesOwnName`, `renamedFunction_unjustified`). Main statement:
`importProgram_justified`.

* `Live.merged_before` — a binder that is reported was judged at its moment;
* `Proper`, `Node.proper` — catch parameters come first in their block, where
  they can repeat nothing;
* `Program.AllEvents.blame` — what each judgement says about the earlier binder.
-/
import EsFront.Proofs.Scope.Conflict

namespace EsFront

/-! ### Catch parameters and declarators -/

/-- A catch parameter comes right after its block has been opened, and
declarators are by `var`, `let` or `const`. -/
def ScopeEvent.Proper (fresh : Bool) : ScopeEvent → Prop
  | bind .catchParameter _ _ => fresh = true
  | bind (.declarator kind) _ _ => kind = .var ∨ kind = .lexical ∨ kind = .const
  | _ => True

/-- All events are proper; `fresh` tells whether a block has just been opened. -/
def Proper : Bool → List ScopeEvent → Prop
  | _, [] => True
  | fresh, event :: rest => event.Proper fresh ∧ Proper (decide (event = .enter .block)) rest

namespace Proper

variable {fresh : Bool} {events more : List ScopeEvent}

theorem mono (h : Proper false events) : Proper fresh events := by
  cases events with
  | nil => trivial
  | cons event rest =>
    refine ⟨?_, h.2⟩
    have hevent := h.1
    unfold ScopeEvent.Proper at hevent ⊢
    split
    · cases hevent
    · exact hevent
    · trivial

theorem append (h : Proper fresh events) (h' : Proper false more) :
    Proper fresh (events ++ more) := by
  induction events generalizing fresh with
  | nil => exact h'.mono
  | cons event rest ih => exact ⟨h.1, ih h.2⟩

/-- Opening and closing scopes is proper. -/
theorem of_scopes (h : ∀ event ∈ events, event.site? = none) : Proper fresh events := by
  induction events generalizing fresh with
  | nil => trivial
  | cons event rest ih =>
    rw [List.forall_mem_cons] at h
    refine ⟨?_, ih h.2⟩
    cases event with
    | bind binding name site => cases h.1
    | _ => trivial

theorem inScopes (h : Proper false events) (scopes : List ScopeKind) :
    Proper fresh (inScopes scopes events) := by
  have henter : Proper fresh (scopes.map .enter) := of_scopes fun _ => site?_of_mem_enters
  have hleave : Proper false (scopes.map fun _ => ScopeEvent.leave) :=
    of_scopes fun _ => site?_of_mem_leaves
  exact (henter.append h).append hleave

/-- The event before a catch parameter opens its block. -/
theorem enter_before (h : Proper fresh events) {i : Nat} {name : String} {site : Site}
    (hevent : events[i]? = some (.bind .catchParameter name site)) :
    (i = 0 ∧ fresh = true) ∨ ∃ j, i = j + 1 ∧ events[j]? = some (.enter .block) := by
  induction events generalizing fresh i with
  | nil => cases hevent
  | cons event rest ih =>
    cases i with
    | zero =>
      cases hevent
      exact .inl ⟨rfl, h.1⟩
    | succ i =>
      refine .inr ⟨i, rfl, ?_⟩
      rcases ih h.2 hevent with ⟨rfl, hfresh⟩ | ⟨j, rfl, hj⟩
      · rw [of_decide_eq_true hfresh]
        rfl
      · exact hj

theorem declarator (h : Proper fresh events) {kind : DeclKind} {name : String} {site : Site}
    (hevent : .bind (.declarator kind) name site ∈ events) :
    kind = .var ∨ kind = .lexical ∨ kind = .const := by
  induction events generalizing fresh with
  | nil => cases hevent
  | cons event rest ih =>
    rcases List.mem_cons.mp hevent with rfl | hrest
    · exact h.1
    · exact ih h.2 hrest

end Proper

/-- Nodes with this role are no catch parameters, and declarators that can be
written if they are declarators. -/
def Role.Proper : Role → Prop
  | .binder .catchParameter => False
  | .binder (.declarator kind) | .declares kind => kind = .var ∨ kind = .lexical ∨ kind = .const
  | _ => True

section proper

variable {kind : NodeKind} {slots : List Slot} {role : Role}

theorem Role.Proper.declKind (h : role.Proper) :
    role.declKind = .var ∨ role.declKind = .lexical ∨ role.declKind = .const := by
  cases role with
  | declares kind => exact h
  | _ => exact .inl rfl

theorem Form.mention_proper (form : Form kind slots) (h : role.Proper) (data : NodeData) :
    EsFront.Proper false (form.mention role data) := by
  unfold Form.mention
  split
  · trivial
  · split
    · rename_i binding
      refine ⟨?_, trivial⟩
      cases binding with
      | declarator kind => exact h
      | catchParameter => exact h.elim
      | _ => trivial
    · exact ⟨trivial, trivial⟩

/-- The field binds one identifier as a catch parameter. -/
def Slot.IsCatchParameter (slot : Slot) : Prop :=
  slot.arity = .one ∧ slot.holds = .identifier ∧ slot.role = .binder .catchParameter

/-- Fields with these slots have proper events: a catch parameter can only come
first, in a new block. -/
def SlotsProper (fresh : Bool) : List Slot → Prop
  | [] => True
  | slot :: rest => (slot.role.Proper ∨ fresh = true ∧ slot.IsCatchParameter) ∧
      ∀ other ∈ rest, other.role.Proper

theorem slotsProper_of_forall (h : ∀ slot ∈ slots, slot.role.Proper) (fresh : Bool) :
    SlotsProper fresh slots := by
  cases slots with
  | nil => trivial
  | cons slot rest =>
    rw [List.forall_mem_cons] at h
    exact ⟨.inl h.1, h.2⟩

/-- Only catch clauses bind a catch parameter. -/
theorem Form.slotsProper (form : Form kind slots) (h : role.Proper)
    (himported : form.Imported role) : SlotsProper (decide (kind = .catchClause)) slots := by
  cases form with
  | catchClause => exact ⟨.inr ⟨rfl, rfl, rfl, rfl⟩, by simp [Role.Proper]⟩
  | variableDeclaration declKind =>
    exact slotsProper_of_forall (by simpa [Role.Proper, Form.Imported] using himported) _
  | variableDeclarator declKind =>
    have hdecl := h.declKind
    rw [← show declKind = role.declKind from himported] at hdecl
    exact slotsProper_of_forall (by simpa [Role.Proper] using hdecl) _
  | _ => exact slotsProper_of_forall (by simp [Role.Proper]) _

/-- The parameter of a catch clause comes right after the block of the clause. -/
theorem Form.events_proper (form : Form kind slots) (h : role.Proper) (data : NodeData)
    {events : List ScopeEvent} (hevents : EsFront.Proper (decide (kind = .catchClause)) events) :
    EsFront.Proper false (inScopes (form.scopes role) (form.mention role data ++ events)) := by
  by_cases hkind : kind = .catchClause
  · subst hkind
    cases form with
    | catchClause => exact ⟨trivial, hevents.append ⟨trivial, trivial⟩⟩
  · rw [decide_eq_false hkind] at hevents
    exact ((form.mention_proper h data).append hevents).inScopes _

theorem Field.proper_parameter {slot : Slot} (h : slot.IsCatchParameter)
    (field : Field slot.arity slot.holds) : EsFront.Proper true (field.scopeEvents slot.role) := by
  obtain ⟨name, arity, holds, role⟩ := slot
  obtain ⟨rfl, rfl, rfl⟩ := h
  cases field with
  | one node accepted =>
    cases kind_of_identifier rfl accepted
    obtain ⟨data, form, fields⟩ := node
    cases form with
    | identifier name isBinder info =>
      cases fields
      exact ⟨rfl, trivial⟩

end proper

mutual

/-- The events of an imported tree are proper. -/
theorem Node.proper {file : Option String} {kind : NodeKind} {role : Role} (hrole : role.Proper) :
    ∀ node : Node kind, node.Imported file role → Proper false (node.scopeEvents role)
  | .mk data form fields, h => by
    rw [Node.Imported] at h
    rw [Node.scopeEvents]
    exact form.events_proper hrole data (Fields.proper (form.slotsProper hrole h.1) fields h.2.2)

theorem Fields.proper {file : Option String} {fresh : Bool} {slots : List Slot}
    (hslots : SlotsProper fresh slots) :
    ∀ fields : Fields slots, fields.Imported file → Proper fresh fields.scopeEvents
  | .nil, _ => by
    rw [Fields.scopeEvents]
    trivial
  | @Fields.cons slot _ field rest, h => by
    rw [Fields.Imported] at h
    rw [Fields.scopeEvents]
    refine Proper.append ?_ (Fields.proper (slotsProper_of_forall hslots.2 false) rest h.2)
    split
    · rcases hslots.1 with hproper | ⟨rfl, hparameter⟩
      · exact (Field.proper hproper field h.1).mono
      · exact field.proper_parameter hparameter
    · trivial

theorem Field.proper {file : Option String} {arity : Arity} {holds : Capability} {role : Role}
    (hrole : role.Proper) : ∀ field : Field arity holds, field.Imported file role →
      Proper false (field.scopeEvents role)
  | .one node _, h => by
    rw [Field.Imported] at h
    rw [Field.scopeEvents]
    exact Node.proper hrole node h
  | .absent, _ => by
    rw [Field.scopeEvents]
    trivial
  | .present node _, h => by
    rw [Field.Imported] at h
    rw [Field.scopeEvents]
    exact Node.proper hrole node h
  | .nil, _ => by
    rw [Field.scopeEvents]
    trivial
  | .cons node _ rest, h => by
    rw [Field.Imported] at h
    rw [Field.scopeEvents]
    exact (Node.proper hrole node h.1).append (Field.proper hrole rest h.2)
  | .hole rest, h => by
    rw [Field.Imported] at h
    rw [Field.scopeEvents]
    exact Field.proper hrole rest h

end

/-- The events of an imported program are proper. -/
theorem importProgram_properEvents {raw : Json} {file : Option String} {p : Program}
    (h : importProgram raw file = .ok p) (options : ResolveOptions) :
    ∃ events, p.AllEvents options events ∧ Proper false events := by
  obtain ⟨data, comments, index, fields, rfl, himported, hwalked, hmet⟩ :=
    importProgram_statements h
  refine ⟨_, Program.allEvents hwalked hmet options, ?_⟩
  have hopening : Proper false (openingEvents options.names) :=
    .of_scopes fun event hevent => (openingEvents_cases hevent).1
  have hfields : Proper false fields.scopeEvents :=
    fields.proper (slotsProper_of_forall (by simp [Role.Proper]) false) himported
  exact hopening.append (hfields.append ⟨trivial, trivial, trivial⟩)

/-! ### Reports and their moments -/

/-- The scopes around a scope were opened before it. -/
theorem ScopeTree.le_of_mem_ancestors {tree : ScopeTree} {scope outer : ScopeId}
    (h : outer ∈ tree.ancestors scope) : outer ≤ scope := by
  induction scope using Nat.strongRecOn with
  | _ scope ih =>
    rw [ancestors] at h
    rcases List.mem_cons.mp h with rfl | hrest
    · exact Nat.le_refl _
    · split at hrest
      · rename_i parent _
        split at hrest
        · rename_i hlt
          exact Nat.le_trans (ih parent hlt hrest) (Nat.le_of_lt hlt)
        · cases hrest
      · cases hrest

namespace Live

section moments

variable {events : List ScopeEvent} {i j k : Nat} {name : String} {site : Site}
  {binding : Binding} {block function : Frame String} {rest : Chain String}

theorem mem_record {live : Live String} {outcome : Outcome} {m : Mention}
    (h : m ∈ (live.record name site outcome).mentions) :
    m ∈ live.mentions ∨ m.name = name ∧ m.site = site ∧ m.outcome = outcome := by
  unfold record at h
  split at h
  · exact .inl h
  · rcases List.mem_append.mp h with hold | hnew
    · exact .inl hold
    · rw [List.mem_singleton] at hnew
      subst hnew
      exact .inr ⟨rfl, rfl, rfl⟩

/-- A record that says that a binder was merged was made at the moment of the
binder. -/
theorem merged_before (horderly : Orderly ⟨[], .inside⟩ events) {m : Mention} {clash : Clash}
    {kind : DeclKind} {first : Declaration} (hm : m ∈ (before events i).mentions)
    (houtcome : m.outcome = .merged clash kind first) :
    ∃ k < i, ∃ binding block function rest,
      BoundAt events k binding m.name m.site block function rest ∧ kind = binding.kind ∧
        Judged (before events k) (block :: rest) block function m.name binding
          (.clashes clash first) := by
  induction i with
  | zero => exact absurd hm List.not_mem_nil
  | succ i ih =>
    have hearlier (hold : m ∈ (before events i).mentions) :
        ∃ k < i + 1, ∃ binding block function rest,
          BoundAt events k binding m.name m.site block function rest ∧ kind = binding.kind ∧
            Judged (before events k) (block :: rest) block function m.name binding
              (.clashes clash first) := by
      obtain ⟨k, hk, hrest⟩ := ih hold
      exact ⟨k, Nat.lt_succ_of_lt hk, hrest⟩
    cases hevent : events[i]? with
    | none =>
      -- the walk is over
      rw [before, List.take_add_one, hevent, Option.toList_none, List.append_nil] at hm
      exact hearlier hm
    | some event =>
      cases event with
      | bind binding name site =>
        obtain ⟨block, function, rest, hbound⟩ := exists_boundAt horderly hevent
        obtain ⟨verdict, hjudged, hnext⟩ := hbound.judged
        cases verdict with
        | clashes clash' first' =>
          rw [show before events (i + 1) = _ from hnext] at hm
          rcases mem_record hm with hold | ⟨rfl, rfl, hnew⟩
          · exact hearlier hold
          · rw [houtcome] at hnew
            cases hnew
            exact ⟨i, Nat.lt_succ_self i, binding, block, function, rest, hbound, rfl, hjudged⟩
        | declares scope =>
          rw [hnext.2] at hm
          rcases mem_record hm with hold | ⟨-, -, hnew⟩
          · exact hearlier hold
          · rw [houtcome] at hnew
            cases hnew
      | enter kind => exact hearlier (by rwa [before_succ hevent] at hm)
      | leave => exact hearlier (by rwa [before_succ hevent] at hm)
      | predeclare name =>
        rw [before_succ hevent] at hm
        rcases (before_coupled events i).predeclare_spec name with ⟨scope, -, -, -, hstep⟩ | hstep
        · rw [hstep] at hm
          exact hearlier hm
        · rw [hstep] at hm
          exact hearlier hm
      | use name site =>
        rw [before_succ hevent] at hm
        have hfound : m ∈ ((before events i).use ((before events i).chain.lookup name)
          name site).mentions := hm
        unfold Live.use at hfound
        split at hfound
        all_goals
          rcases mem_record hfound with hold | ⟨-, -, hnew⟩
          · exact hearlier hold
          · rw [houtcome] at hnew
            cases hnew

/-! ### The scopes of the earlier binder -/

/-- The blocks on the way out of a binder were opened after its function. -/
theorem BoundAt.lt_of_mem_blocks (h : BoundAt events i binding name site block function rest)
    {frame : Frame String} (hframe : frame ∈ Chain.blocks (block :: rest)) :
    function.id < frame.id := by
  obtain ⟨outer, hsplit⟩ := Chain.eq_blocks_append h.function?
  have horder := (before_coupled events i).order.sublist
    ((List.drop_sublist binding.skipped _).map _)
  rw [h.view, hsplit, List.map_append, List.pairwise_append] at horder
  exact horder.2.2 _ (List.mem_map_of_mem hframe) _ List.mem_cons_self

/-- They belong to the same function. -/
theorem BoundAt.functionOf?_of_mem_blocks (horderly : Orderly ⟨[], .inside⟩ events)
    (h : BoundAt events i binding name site block function rest) {frame : Frame String}
    (hframe : frame ∈ Chain.blocks (block :: rest)) (hij : i ≤ j) :
    (before events j).tree.functionOf? frame.id = some function.id := by
  obtain ⟨outer, hsplit⟩ := Chain.eq_blocks_append h.function?
  obtain ⟨inner, between, hinner⟩ := List.append_of_mem hframe
  -- seen from the block, the way out to the function is the rest of the way
  have hview : (before events i).chain.drop (binding.skipped + inner.length)
      = frame :: (between ++ function :: outer) := by
    rw [← List.drop_drop, h.view, hsplit, hinner, List.append_assoc, List.drop_left]
    rfl
  have hnone : inner.find? (·.kind = .function) = none := by
    rw [List.find?_eq_none]
    intro other hother
    have hmem : other ∈ Chain.blocks (block :: rest) := by
      rw [hinner]
      exact List.mem_append_left _ hother
    simp [Chain.kind_of_mem_blocks hmem]
  have hfunction := h.function?
  rw [hsplit, hinner, List.append_assoc, Chain.function?, List.find?_append, hnone,
    Option.none_or] at hfunction
  exact functionOf?_of_drop horderly hview hfunction hij

/-- A catch parameter is met when nothing has been declared in its block or
inside it. -/
theorem not_within_caught (horderly : Orderly ⟨[], .inside⟩ events) (hproper : Proper false events)
    (h : BoundAt events i .catchParameter name site block function rest) {first : Declaration}
    (hfirst : first ∈ (before events i).declarations) :
    (before events i).tree.isWithin first.blockScope block.id = false := by
  rcases hproper.enter_before h.event with ⟨-, hfresh⟩ | ⟨j, rfl, hj⟩
  · cases hfresh
  · -- the block has the number that was next when it was opened
    have hopened : block.id = (before events j).tree.nextId := by
      have hview : (before events (j + 1)).chain = block :: rest := h.view
      rw [before_succ hj] at hview
      cases hview
      rfl
    rw [before_succ hj] at hfirst
    have hlt := (before_stands horderly j).kept.within first hfirst
    rw [← hopened] at hlt
    refine Bool.eq_false_iff.mpr fun hwithin => ?_
    rw [ScopeTree.isWithin, List.any_eq_true] at hwithin
    obtain ⟨outer, houter, hsame⟩ := hwithin
    rw [of_decide_eq_true hsame] at houter
    exact absurd (ScopeTree.le_of_mem_ancestors houter) (Nat.not_le_of_lt hlt)

end moments

end Live

/-! ### Whole programs -/

/-- The identifier binds its name in a function: by `var`, as the name of a
function declaration, or as a parameter. -/
def Occurrence.IsHoisted (o : Occurrence) : Prop :=
  o.binding = some (.declarator .var) ∨ o.binding = some .functionName ∨
    o.binding = some .parameter

instance (o : Occurrence) : Decidable o.IsHoisted :=
  inferInstanceAs (Decidable (_ ∨ _ ∨ _))

namespace Resolution

/-- Both bind their names in one block, and one of them is constant. -/
structure Repeats (r : Resolution) (j i : Occurrence) : Prop where
  blockScoped : ∀ o ∈ [j, i], ∃ kind ∈ o.kind?, kind.isBlockScoped = true
  const : j.kind? = some .const ∨ i.kind? = some .const
  place : ∃ block ∈ r.blockOf? j, r.blockOf? i = some block

/-- `l` binds its name in a block by `let` or `const`, and `v` binds the same
name in the function around it, from that block or from inside it. -/
structure Covers (r : Resolution) (l v : Occurrence) : Prop where
  hoisted : v.IsHoisted
  overlap : ∃ block ∈ r.blockOf? l, r.Overlap l v block

/-- The binder `j` is to blame for an error at the binder `i`. -/
structure Justifies (r : Resolution) (j i : Occurrence) : Prop where
  name : j.name = i.name
  earlier : j.site.node < i.site.node
  reason : r.Repeats j i ∨ r.Covers j i ∨ r.Covers i j

/-- `j` is a function expression's own name, and `i` takes it by `let` or
`const` in the block of the function's body. -/
structure TakesOwnName (r : Resolution) (j i : Occurrence) : Prop where
  name : j.name = i.name
  earlier : j.site.node < i.site.node
  own : j.binding = some .ownName
  lexical : i.kind? = some .lexical ∨ i.kind? = some .const
  place : ∃ block ∈ r.blockOf? j, r.blockOf? i = some block

instance (r : Resolution) (j i : Occurrence) : Decidable (r.Repeats j i) :=
  decidable_of_iff ((∀ o ∈ [j, i], ∃ kind ∈ o.kind?, kind.isBlockScoped = true) ∧
      (j.kind? = some .const ∨ i.kind? = some .const) ∧
      ∃ block ∈ r.blockOf? j, r.blockOf? i = some block)
    ⟨fun ⟨h₁, h₂, h₃⟩ => ⟨h₁, h₂, h₃⟩, fun h => ⟨h.blockScoped, h.const, h.place⟩⟩

instance (r : Resolution) (l v : Occurrence) : Decidable (r.Covers l v) :=
  decidable_of_iff (v.IsHoisted ∧ ∃ block ∈ r.blockOf? l, r.Overlap l v block)
    ⟨fun ⟨h₁, h₂⟩ => ⟨h₁, h₂⟩, fun h => ⟨h.hoisted, h.overlap⟩⟩

instance (r : Resolution) (j i : Occurrence) : Decidable (r.Justifies j i) :=
  decidable_of_iff (j.name = i.name ∧ j.site.node < i.site.node ∧
      (r.Repeats j i ∨ r.Covers j i ∨ r.Covers i j))
    ⟨fun ⟨h₁, h₂, h₃⟩ => ⟨h₁, h₂, h₃⟩, fun h => ⟨h.name, h.earlier, h.reason⟩⟩

end Resolution

namespace Program.AllEvents

variable {p : Program} {options : ResolveOptions} {events : List ScopeEvent}
  {i k : Nat} {name : String} {site site' : Site} {binding binding' : Binding}
  {block function block' function' : Frame String} {rest rest' : Chain String}
  {first : Declaration}

/-- Binders that are not bound in a block are hoisted, own names apart. -/
theorem isHoisted (hproper : Proper false events)
    (hbound : Live.BoundAt events i binding name site block function rest)
    (hlexical : binding.isLexical = false) (hown : binding ≠ .ownName) :
    Occurrence.IsHoisted ⟨name, site, some binding⟩ := by
  cases binding with
  | declarator kind =>
    have hkind := hproper.declarator (List.mem_of_getElem? hbound.event)
    rcases hkind with rfl | rfl | rfl
    · exact .inl rfl
    · cases hlexical
    · cases hlexical
  | functionName => exact .inr (.inl rfl)
  | parameter => exact .inr (.inr rfl)
  | ownName => exact absurd rfl hown
  | catchParameter => cases hlexical

/-- Binders that are bound in a block are by `let` or `const`, catch parameters
apart. -/
theorem letOrConst (hproper : Proper false events)
    (hbound : Live.BoundAt events i binding name site block function rest)
    (hlexical : binding.isLexical = true) (hcaught : binding ≠ .catchParameter) :
    binding.kind = .lexical ∨ binding.kind = .const := by
  cases binding with
  | declarator kind =>
    have hkind := hproper.declarator (List.mem_of_getElem? hbound.event)
    rcases hkind with rfl | rfl | rfl
    · cases hlexical
    · exact .inl rfl
    · exact .inr rfl
  | catchParameter => exact absurd rfl hcaught
  | functionName => cases hlexical
  | parameter => cases hlexical
  | ownName => cases hlexical

/-- The two binders of an overlap, told from the scopes at their moments. -/
theorem covers (h : p.AllEvents options events) (hproper : Proper false events)
    (hl : Live.BoundAt events i binding name site block function rest)
    (hkind : binding.kind = .lexical ∨ binding.kind = .const)
    (hv : Live.BoundAt events k binding' name site' block' function' rest')
    (hlexical : binding'.isLexical = false) (hown : binding' ≠ .ownName)
    (hinside : block.id ∈ Chain.ids (block' :: rest')) (hfunction : function'.id = function.id) :
    (p.resolution options).Covers ⟨name, site, some binding⟩ ⟨name, site', some binding'⟩ where
  hoisted := isHoisted hproper hv hlexical hown
  overlap := by
    refine ⟨block.id, h.blockOf?_eq hl, ⟨?_, ⟨_, rfl, hlexical⟩, rfl, h.blockOf?_eq hl,
      ⟨block'.id, h.blockOf?_eq hv, (h.isWithin_iff hv).mpr hinside⟩, ?_⟩⟩
    · exact hkind.imp (congrArg some) (congrArg some)
    · rw [h.functionOf?_eq hl, h.functionOf?_eq hv, hfunction]

section blame

/-- An earlier binder in the same block. -/
theorem repeats (h : p.AllEvents options events)
    (hbound : Live.BoundAt events i binding first.name site block function rest)
    (hmade : Live.MadeAt events k first binding' site' block' function' rest')
    (hlexical : binding.isLexical = true) (hlexical' : binding'.isLexical = true)
    (hscope : first.scope = block.id) (hconst : first.kind = .const ∨ binding.kind = .const) :
    (p.resolution options).Repeats ⟨first.name, site', some binding'⟩
      ⟨first.name, site, some binding⟩ where
  blockScoped := by
    intro o ho
    rw [List.mem_pair] at ho
    rcases ho with rfl | rfl
    · exact ⟨_, rfl, hlexical'⟩
    · exact ⟨_, rfl, hlexical⟩
  const := by
    rw [hmade.kind_eq] at hconst
    exact hconst.imp (congrArg some) (congrArg some)
  place := by
    rw [hmade.scope_eq, if_pos hlexical'] at hscope
    refine ⟨block'.id, h.blockOf?_eq hmade.toBoundAt, ?_⟩
    rw [h.blockOf?_eq hbound, hscope]

/-- An earlier binder in the function, from inside the block. -/
theorem covered (h : p.AllEvents options events) (hproper : Proper false events)
    (hbound : Live.BoundAt events i binding first.name site block function rest)
    (hmade : Live.MadeAt events k first binding' site' block' function' rest') (hk : k < i)
    (hkind : binding.kind = .lexical ∨ binding.kind = .const)
    (hlexical : binding'.isLexical = false) (hscope : first.scope = function.id)
    (hwithin : (Live.before events i).tree.isWithin first.blockScope block.id = true) :
    (p.resolution options).Covers ⟨first.name, site, some binding⟩
        ⟨first.name, site', some binding'⟩ ∨
      binding' = .ownName ∧ ∃ scope ∈ (p.resolution options).blockOf?
        ⟨first.name, site', some binding'⟩, (p.resolution options).blockOf?
          ⟨first.name, site, some binding⟩ = some scope := by
  have hbound' := hmade.toBoundAt
  have hfunction : function'.id = function.id := by
    rw [← hscope, hmade.scope_eq, if_neg (Bool.eq_false_iff.mp hlexical)]
  have hinside : block.id ∈ Chain.ids (block' :: rest') := by
    rw [hmade.blockScope_eq, ScopeTree.isWithin, hbound'.ancestors_later (Nat.le_of_lt hk),
      List.any_eq_true] at hwithin
    obtain ⟨outer, houter, hsame⟩ := hwithin
    rwa [of_decide_eq_true hsame] at houter
  by_cases hown : binding' = .ownName
  · -- in its header, a function has no other block than that of its body
    subst hown
    refine .inr ⟨rfl, block'.id, h.blockOf?_eq hbound', ?_⟩
    obtain ⟨frame, hframe, hid⟩ := List.mem_map.mp hinside
    have hopened := hbound'.opened hframe
    rw [hid] at hopened
    have hinner := hbound.function_lt
    rw [← hfunction] at hinner
    obtain ⟨hsame, -⟩ := (Live.before_stands h.orderly k).header_only
      ((Live.fits_before h.orderly hbound'.event).2 rfl) hbound'.view hbound'.isBlock
      hbound'.function? hinner hopened
    rw [h.blockOf?_eq hbound, hsame]
  · exact .inl (h.covers hproper hbound hkind hbound' hlexical hown hinside hfunction)

/-- An earlier binder by `let` or `const`, in a block on the way out. -/
theorem crossed (h : p.AllEvents options events) (hproper : Proper false events)
    (hbound : Live.BoundAt events i binding first.name site block function rest)
    (hmade : Live.MadeAt events k first binding' site' block' function' rest') (hk : k < i)
    (hlexical : binding.isLexical = false) {frame : Frame String}
    (hframe : frame ∈ Chain.blocks (block :: rest))
    (hlast : (Live.before events i).lastIn first.name frame.id = some first)
    (hscope : first.scope = frame.id) (hkind : first.isLetOrConst = true) :
    (p.resolution options).Covers ⟨first.name, site', some binding'⟩
      ⟨first.name, site, some binding⟩ := by
  have hmem : frame ∈ block :: rest := (List.takeWhile_sublist _).subset hframe
  have hbinding' : binding'.kind = .lexical ∨ binding'.kind = .const := by
    rw [← hmade.kind_eq]
    simpa [Declaration.isLetOrConst] using hkind
  have hlexical' : binding'.isLexical = true := by
    rw [Binding.isLexical, ← hmade.kind_eq]
    exact Declaration.isBlockScoped_of_isLetOrConst hkind
  rw [hmade.scope_eq, if_pos hlexical'] at hscope
  have hinside : block'.id ∈ Chain.ids (block :: rest) := by
    rw [hscope]
    exact List.mem_map_of_mem hmem
  have hown : binding ≠ .ownName := by
    -- the block of a function has no names when its header is met
    rintro rfl
    obtain ⟨-, hnone⟩ := (Live.before_stands h.orderly i).header_only
      ((Live.fits_before h.orderly hbound.event).2 rfl) hbound.view hbound.isBlock
      hbound.function? (hbound.lt_of_mem_blocks hframe) (hbound.opened hmem)
    rw [Live.lastIn, hnone] at hlast
    cases hlast
  have hfunction : function.id = function'.id := by
    have hfound := hbound.functionOf?_of_mem_blocks h.orderly hframe (Nat.le_refl i)
    rw [← hscope, hmade.functionOf?_later h.orderly (Nat.le_of_lt hk), Option.some_inj] at hfound
    exact hfound.symm
  exact h.covers hproper hmade.toBoundAt hbinding' hbound hlexical hown hinside hfunction

/-- What a binder clashes with when an error is reported. -/
theorem blame (h : p.AllEvents options events) (hproper : Proper false events)
    (hbound : Live.BoundAt events i binding name site block function rest) {clash : Clash}
    (hjudged : Live.Judged (Live.before events i) (block :: rest) block function name binding
      (.clashes clash first))
    (herror : (first.kind = .const ∨ binding.kind = .const) ∨ clash = .conflict) :
    ∃ j ∈ p.occurrences, (p.resolution options).Justifies j ⟨name, site, some binding⟩ ∨
      (p.resolution options).TakesOwnName j ⟨name, site, some binding⟩ := by
  have hstands := Live.before_stands h.orderly i
  obtain ⟨hconflict, hmem, rfl, hhost⟩ := hstands.clash_spec
    (Live.fits_before h.orderly hbound.event) hbound.view hbound.isBlock hbound.function?
    hbound.isFunction hjudged
  obtain ⟨k, hk, binding', site', block', function', rest', hmade⟩ :=
    Live.made_before h.orderly hmem hhost
  have hearlier : site'.node < site.node :=
    Live.site_lt h.order hk hmade.event hbound.event rfl rfl
  refine ⟨⟨first.name, site', some binding'⟩, h.mem_occurrences hmade.event, ?_⟩
  -- the scope that the earlier name is listed in
  have hscope {scope : ScopeId} (hlast : (Live.before events i).lastIn first.name scope
      = some first) : first.scope = scope :=
    hstands.kept.placed _ _ (Live.mem_listed_of_lastIn hlast).1
  rw [hmade.kind_eq] at hconflict herror
  have hconst {b : Binding} (hkind : b.kind = .const) : b.isLexical = true := by
    rw [Binding.isLexical, hkind]
    rfl
  -- a repetition is an error only among names of a block
  have hsame (hclash : clash = .redeclaration) :
      binding'.isLexical = true ∧ binding.isLexical = true := by
    have heq : binding'.isLexical = binding.isLexical := by
      by_contra hne
      rw [hconflict.mpr hne] at hclash
      cases hclash
    rcases herror with (hfirst | hsecond) | hother
    · exact ⟨hconst hfirst, heq ▸ hconst hfirst⟩
    · exact ⟨heq ▸ hconst hsecond, hconst hsecond⟩
    · rw [hother] at hclash
      cases hclash
  cases hjudged with
  | repeated hlexical hlast =>
    have hone := herror.resolve_right (by decide)
    rw [← hmade.kind_eq] at hone
    exact .inl ⟨rfl, hearlier,
      .inl (h.repeats hbound hmade hlexical (hsame rfl).1 (hscope hlast) hone)⟩
  | covered hlexical _ hlast _ hwithin =>
    have hcaught : binding ≠ .catchParameter := by
      -- nothing was declared in the block of a catch clause when its parameter is met
      rintro rfl
      rw [Live.not_within_caught h.orderly hproper hbound hmem] at hwithin
      cases hwithin
    have hkind := letOrConst hproper hbound hlexical hcaught
    have hlexical' : binding'.isLexical = false := by
      have hne : binding'.isLexical ≠ binding.isLexical := hconflict.mp rfl
      rw [hlexical] at hne
      exact Bool.eq_false_iff.mpr hne
    rcases h.covered hproper hbound hmade hk hkind hlexical' (hscope hlast) hwithin with
      hcovers | ⟨rfl, hplace⟩
    · exact .inl ⟨rfl, hearlier, .inr (.inr hcovers)⟩
    · exact .inr ⟨rfl, hearlier, rfl, hkind.imp (congrArg some) (congrArg some), hplace⟩
  | crossed hlexical _ hframe hlast hkind =>
    exact .inl ⟨rfl, hearlier, .inr (.inl (h.crossed hproper hbound hmade hk hlexical hframe hlast
      (hscope hlast) hkind))⟩
  | merged hlexical =>
    rw [(hsame rfl).2] at hlexical
    cases hlexical
  | parameterRepeated => cases (hsame rfl).2

end blame

/-- One identifier is one occurrence. -/
theorem eq_of_site (h : p.AllEvents options events) {o o' : Occurrence} (ho : o ∈ p.occurrences)
    (ho' : o' ∈ p.occurrences) (hsite : o.site = o'.site) : o = o' := by
  have hsites : events.filterMap ScopeEvent.site? = p.occurrences.map (·.site) := by
    rw [← h.occurrences, List.map_filterMap]
    exact List.filterMap_congr fun event _ => event.site?_eq
  have horder := h.order
  rw [hsites, List.pairwise_map] at horder
  have hnot {a b : Occurrence} (heq : a.site = b.site) : ¬ a.site.node < b.site.node := by
    rw [heq]
    exact Nat.lt_irrefl _
  obtain ⟨a, ha, rfl⟩ := List.mem_iff_getElem.mp ho
  obtain ⟨b, hb, rfl⟩ := List.mem_iff_getElem.mp ho'
  rw [List.pairwise_iff_getElem] at horder
  rcases Nat.lt_trichotomy a b with hlt | rfl | hlt
  · exact absurd (horder a b ha hb hlt) (hnot hsite)
  · rfl
  · exact absurd (horder b a hb ha hlt) (hnot hsite.symm)

end Program.AllEvents

/-- In an imported program, an error that is reported at a binder has an earlier
binder of the same name to blame, or else a `let` or `const` takes the own name
of a function expression in its body. -/
theorem importProgram_justified {raw : Json} {file : Option String} {p : Program}
    (h : importProgram raw file = .ok p) (options : ResolveOptions) {i : Occurrence}
    (hi : i ∈ p.occurrences) {d : Diagnostic} (herror : (p.resolution options).ErrsAt i d) :
    ∃ j ∈ p.occurrences, (p.resolution options).Justifies j i ∨
      (p.resolution options).TakesOwnName j i := by
  obtain ⟨events, hall, hproper⟩ := importProgram_properEvents h options
  obtain ⟨m, hm, hsite, hreport⟩ := herror.reported
  rw [hall.resolution, ← Live.before_length] at hm
  cases houtcome : m.outcome with
  | merged clash kind first =>
    obtain ⟨k, -, binding, block, function, rest, hbound, rfl, hjudged⟩ :=
      Live.merged_before hall.orderly hm houtcome
    -- the binder that was judged is the one at which the error is reported
    have hsame := hall.eq_of_site hi (hall.mem_occurrences hbound.event) hsite.symm
    rw [hsame]
    refine hall.blame hproper hbound hjudged ((clash.message_spec first.kind binding.kind).2.mp ?_)
    have hcategory := herror.isError
    rw [Mention.diagnostic?, houtcome] at hreport
    cases hreport
    exact of_decide_eq_true hcategory
  | undefined =>
    -- an identifier without declaration gives a warning
    have hcategory := herror.isError
    rw [Mention.diagnostic?, houtcome] at hreport
    cases hreport
    cases hcategory
  | declared decl =>
    rw [Mention.diagnostic?, houtcome] at hreport
    cases hreport
  | resolved decl =>
    rw [Mention.diagnostic?, houtcome] at hreport
    cases hreport

/-! ### Programs -/

namespace Resolution

/-- A `let` was found to conflict with a name of the function. -/
def LetConflicts (r : Resolution) (o : Occurrence) : Prop :=
  ∃ m ∈ r.mentions, m.site = o.site ∧ m.name = o.name ∧
    ∃ first ∈ r.declarations, m.outcome = .merged .conflict .lexical first

instance (r : Resolution) (o : Occurrence) : Decidable (r.LetConflicts o) :=
  inferInstanceAs (Decidable (∃ m ∈ r.mentions, _))

theorem LetConflicts.errsAt {r : Resolution} {o : Occurrence} (h : r.LetConflicts o) :
    ∃ d ∈ r.diagnostics, r.ErrsAt o d := by
  obtain ⟨m, hm, hsite, hname, first, -, houtcome⟩ := h
  exact errsAt_of_merged hm hsite hname houtcome (.inr rfl)

end Resolution

theorem overlappingVariable_justified :
    ∃ p, importProgram (programWith [overlappingVariable]) none = .ok p ∧
      ∃ d ∈ (p.resolution {}).diagnostics, (p.resolution {}).ErrsAt (lexicalAt 7) d ∧
        ∃ j ∈ p.occurrences, (p.resolution {}).Justifies j (lexicalAt 7) ∨
          (p.resolution {}).TakesOwnName j (lexicalAt 7) := by
  have hfacts : ((importProgram (programWith [overlappingVariable]) none).toOption.map fun p =>
      decide (lexicalAt 7 ∈ p.occurrences ∧ (p.resolution {}).LetConflicts (lexicalAt 7)))
      = some true := by decide +kernel
  obtain ⟨p, hp, hfacts⟩ := Option.map_eq_some_iff.mp hfacts
  obtain ⟨hmem, hconflicts⟩ := of_decide_eq_true hfacts
  have himport := importProgram_of_toOption hp
  obtain ⟨d, hd, herror⟩ := hconflicts.errsAt
  exact ⟨p, himport, d, hd, herror, importProgram_justified himport {} hmem herror⟩

/-- A function expression named `x` whose body takes the name by `let`. -/
def renamedFunction : Json :=
  .object [("type", .string "ExpressionStatement"),
    ("expression", .object [("type", .string "FunctionExpression"),
      ("id", .object [("type", .string "Identifier"), ("name", .string "x")]),
      ("params", .array []), ("body", blockWith [declarationOfX "let"])])]

/-- An error is reported in the body of the function, though no earlier binder
is to blame. -/
theorem renamedFunction_unjustified :
    ∃ p, importProgram (programWith [renamedFunction]) none = .ok p ∧
      lexicalAt 7 ∈ p.occurrences ∧
      (∃ d ∈ (p.resolution { hostGlobals := false }).diagnostics,
        (p.resolution { hostGlobals := false }).ErrsAt (lexicalAt 7) d) ∧
      ∀ j ∈ p.occurrences, ¬ (p.resolution { hostGlobals := false }).Justifies j (lexicalAt 7) := by
  have hfacts : ((importProgram (programWith [renamedFunction]) none).toOption.map fun p =>
      decide (lexicalAt 7 ∈ p.occurrences ∧
        (p.resolution { hostGlobals := false }).LetConflicts (lexicalAt 7) ∧
        ∀ j ∈ p.occurrences, ¬ (p.resolution { hostGlobals := false }).Justifies j (lexicalAt 7)))
      = some true := by decide +kernel
  obtain ⟨p, hp, hfacts⟩ := Option.map_eq_some_iff.mp hfacts
  obtain ⟨hmem, hconflicts, hnone⟩ := of_decide_eq_true hfacts
  exact ⟨p, importProgram_of_toOption hp, hmem, hconflicts.errsAt, hnone⟩

end EsFront
