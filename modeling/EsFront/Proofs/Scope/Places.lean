/-
Where the events of a walk stand.

Scopes are opened and closed in a fixed order: a function opens a scope of its
own and, right after it, the block of its body; the first things met there are
its names and parameters. So two things tell which events can come next: the
kinds of the open scopes, and how far the walk has come in the innermost
function (`Place`). Main statements:

* `Node.passes` — every event of a tree comes at a place that fits it
  (`ScopeEvent.Fits`), and the tree leaves the scopes as it found them;
* `orderly_append` — such events of two parts of a walk, one after the other.
-/
import EsFront.Scope.Resolver

namespace EsFront

/-- How far the walk has come in the innermost function. -/
inductive Phase where
  /-- The scope of the function has just been opened. -/
  | opened
  /-- Nothing but names and parameters of functions has been met. -/
  | header
  | inside
deriving DecidableEq, Repr

/-- A place in the walk: the kinds of the open scopes, innermost first, and the
phase of the innermost function. -/
structure Place where
  kinds : List ScopeKind
  phase : Phase

namespace Binding

/-- Whether the binder stands in front of the body of a function. -/
def inHeader : Binding → Bool
  | functionName | ownName | parameter => true
  | declarator _ | catchParameter => false

/-- Whether the name is bound in the very function whose header it stands in. -/
def isOwn : Binding → Bool
  | ownName | parameter => true
  | declarator _ | functionName | catchParameter => false

theorem skipped_of_not_inHeader {binding : Binding} (h : binding.inHeader = false) :
    binding.skipped = 0 := by
  cases binding <;> first | rfl | cases h

theorem isOwn_of_not_inHeader {binding : Binding} (h : binding.inHeader = false) :
    binding.isOwn = false := by
  cases binding <;> first | rfl | cases h

theorem isLexical_of_inHeader {binding : Binding} (h : binding.inHeader = true) :
    binding.isLexical = false := by
  cases binding <;> first | rfl | cases h

end Binding

namespace Place

/-- The place after an event. -/
def step (place : Place) : ScopeEvent → Place
  | .enter .function => ⟨.function :: place.kinds, .opened⟩
  | .enter .block => ⟨.block :: place.kinds, if place.phase = .opened then .header else .inside⟩
  | .leave => ⟨place.kinds.tail, .inside⟩
  | .bind binding _ _ => ⟨place.kinds, if binding.inHeader then place.phase else .inside⟩
  | .predeclare _ | .use _ _ => ⟨place.kinds, .inside⟩

/-- The place after some events. -/
def run (place : Place) (events : List ScopeEvent) : Place := events.foldl step place

theorem run_append (place : Place) (events more : List ScopeEvent) :
    place.run (events ++ more) = (place.run events).run more := List.foldl_append

end Place

/-- The innermost scope is a block, and a function is open. -/
def Settled (kinds : List ScopeKind) : Prop := kinds.head? = some .block ∧ .function ∈ kinds

theorem Settled.block {kinds : List ScopeKind} (h : Settled kinds) : Settled (.block :: kinds) :=
  ⟨rfl, List.mem_cons_of_mem _ h.2⟩

theorem settled_function (kinds : List ScopeKind) : Settled (.block :: .function :: kinds) :=
  ⟨rfl, List.mem_cons_of_mem _ List.mem_cons_self⟩

/-- What a place must be like for an event. A name is bound where a block is
innermost, seen from the scopes that concern it; the names and parameters of a
function come before all else in it. -/
def ScopeEvent.Fits (place : Place) : ScopeEvent → Prop
  | enter _ | leave => True
  | predeclare _ => place.kinds = [.function]
  | bind binding _ _ =>
    Settled (place.kinds.drop binding.skipped) ∧ (binding.isOwn = true → place.phase = .header)
  | use _ _ => Settled place.kinds

/-- Every event comes at a place that fits it. -/
def Orderly : Place → List ScopeEvent → Prop
  | _, [] => True
  | place, event :: rest => event.Fits place ∧ Orderly (place.step event) rest

theorem orderly_append {place : Place} {events more : List ScopeEvent} :
    Orderly place (events ++ more) ↔
      Orderly place events ∧ Orderly (place.run events) more := by
  induction events generalizing place with
  | nil => simp [Orderly, Place.run]
  | cons event events ih =>
    rw [List.cons_append, Orderly, Orderly, ih, and_assoc]
    rfl

/-! ### Events that leave the scopes as they found them -/

/-- The events fit, and leave the open scopes as they found them; the phase
too, if asked for. -/
structure Passes (place : Place) (events : List ScopeEvent) (keeps : Bool) : Prop where
  orderly : Orderly place events
  kinds : (place.run events).kinds = place.kinds
  phase : keeps = true → (place.run events).phase = place.phase

namespace Passes

variable {place : Place} {events more : List ScopeEvent} {keeps : Bool}

theorem nil (place : Place) (keeps : Bool) : Passes place [] keeps := ⟨trivial, rfl, fun _ => rfl⟩

/-- The second part may start in any phase that the first can leave. -/
theorem append {keeps' : Bool} (h : Passes place events keeps)
    (h' : ∀ phase, (keeps = true → phase = place.phase) → Passes ⟨place.kinds, phase⟩ more keeps') :
    Passes place (events ++ more) (keeps && keeps') := by
  have hmiddle : place.run events = ⟨place.kinds, (place.run events).phase⟩ := by
    rw [← h.kinds]
  have hmore := h' _ h.phase
  rw [← hmiddle] at hmore
  refine ⟨orderly_append.mpr ⟨h.orderly, hmore.orderly⟩, ?_, ?_⟩
  · rw [Place.run_append, hmore.kinds, h.kinds]
  · intro hkeeps
    rw [Bool.and_eq_true] at hkeeps
    rw [Place.run_append, hmore.phase hkeeps.2, h.phase hkeeps.1]

/-- Events between the opening and the closing of scopes. -/
theorem inScopes {scopes : List ScopeKind}
    (h : Passes (place.run (scopes.map .enter)) events keeps) :
    Passes place (inScopes scopes events) (keeps && scopes.isEmpty) := by
  have henter : ∀ (scopes : List ScopeKind) (place : Place),
      Orderly place (scopes.map .enter) ∧
        (place.run (scopes.map .enter)).kinds = scopes.reverse ++ place.kinds := by
    intro scopes
    induction scopes with
    | nil => exact fun _ => ⟨trivial, rfl⟩
    | cons kind scopes ih =>
      intro place
      obtain ⟨horderly, hkinds⟩ := ih (place.step (.enter kind))
      refine ⟨⟨trivial, horderly⟩, hkinds.trans ?_⟩
      cases kind <;> simp [Place.step]
  have hleave : ∀ (scopes : List ScopeKind) (place : Place),
      Orderly place (scopes.map fun _ => .leave) ∧
        (place.run (scopes.map fun _ => .leave)).kinds = place.kinds.drop scopes.length := by
    intro scopes
    induction scopes with
    | nil => exact fun _ => ⟨trivial, rfl⟩
    | cons kind scopes ih =>
      intro place
      obtain ⟨horderly, hkinds⟩ := ih (place.step .leave)
      refine ⟨⟨trivial, horderly⟩, hkinds.trans ?_⟩
      simp [Place.step]
  -- as many scopes are closed as were opened
  have hclosed := hleave scopes ((place.run (scopes.map .enter)).run events)
  refine ⟨?_, ?_, ?_⟩
  · rw [EsFront.inScopes, orderly_append, orderly_append, Place.run_append]
    exact ⟨⟨(henter scopes place).1, h.orderly⟩, hclosed.1⟩
  · rw [EsFront.inScopes, Place.run_append, Place.run_append, hclosed.2, h.kinds,
      (henter scopes place).2]
    simp
  · -- the phase is kept only where no scope is opened
    intro hkeeps
    rw [Bool.and_eq_true, List.isEmpty_iff] at hkeeps
    obtain ⟨hkeeps, rfl⟩ := hkeeps
    have hinside : EsFront.inScopes [] events = events := List.append_nil _
    rw [hinside]
    exact h.phase hkeeps

end Passes

/-! ### Roles and slots -/

/-- Whether nodes with this role stand in front of the body of a function. -/
def Role.inHeader : Role → Bool
  | .binder binding => binding.inHeader
  | .child | .name | .key _ | .body | .declares _ => false

/-- What a place must be like for nodes with this role. -/
def Role.Fits (place : Place) (role : Role) : Prop :=
  Settled place.kinds ∧ ∀ binding, role = .binder binding →
    Settled (place.kinds.drop binding.skipped) ∧ (binding.isOwn = true → place.phase = .header)

/-- Fields with these slots can be walked one after the other. -/
def SlotsFit : Place → List Slot → Prop
  | _, [] => True
  | place, slot :: rest =>
    slot.role.Fits place ∧ (slot.role.inHeader = true → slot.holds = .identifier) ∧
      ∀ phase, (slot.role.inHeader = true → phase = place.phase) →
        SlotsFit ⟨place.kinds, phase⟩ rest

theorem Role.fits_of_settled {kinds : List ScopeKind} (h : Settled kinds) {role : Role}
    (hrole : role.inHeader = false) (phase : Phase) : role.Fits ⟨kinds, phase⟩ := by
  refine ⟨h, ?_⟩
  rintro binding rfl
  have hheader : binding.inHeader = false := hrole
  rw [Binding.skipped_of_not_inHeader hheader, Binding.isOwn_of_not_inHeader hheader]
  exact ⟨h, fun hown => by cases hown⟩

theorem slotsFit_of_settled {kinds : List ScopeKind} (h : Settled kinds) {slots : List Slot}
    (hslots : ∀ slot ∈ slots, slot.role.inHeader = false) :
    ∀ phase, SlotsFit ⟨kinds, phase⟩ slots := by
  induction slots with
  | nil => exact fun _ => trivial
  | cons slot rest ih =>
    rw [List.forall_mem_cons] at hslots
    intro phase
    refine ⟨Role.fits_of_settled h hslots.1 phase, ?_, fun phase' _ => ih hslots.2 phase'⟩
    intro hheader
    rw [hslots.1] at hheader
    cases hheader

/-- The parameters and the body of a function fit into its header. -/
theorem slotsFit_function (kinds : List ScopeKind) :
    SlotsFit ⟨.block :: .function :: kinds, .header⟩
      [.many "params" .identifier (.binder .parameter), .one "body" .block .body] := by
  have hsettled := settled_function kinds
  refine ⟨⟨hsettled, ?_⟩, fun _ => rfl, fun phase _ => ?_⟩
  · rintro binding heq
    cases heq
    exact ⟨hsettled, fun _ => rfl⟩
  · exact slotsFit_of_settled hsettled (by simp [Role.inHeader]) phase

/-- The fields of a form fit into the scopes that it opens. -/
theorem Form.slotsFit {kind : NodeKind} {slots : List Slot} (form : Form kind slots) (role : Role)
    {place : Place} (h : Settled place.kinds) :
    SlotsFit (place.run ((form.scopes role).map .enter)) slots := by
  have hscopes : (form.scopes role).all (· = .block) = true →
      Settled (place.run ((form.scopes role).map .enter)).kinds := by
    generalize form.scopes role = scopes
    intro hall
    induction scopes generalizing place with
    | nil => exact h
    | cons kind scopes ih =>
      rw [List.all_cons, Bool.and_eq_true, decide_eq_true_eq] at hall
      obtain ⟨rfl, hall⟩ := hall
      exact @ih (place.step (.enter .block)) h.block hall
  -- only functions have names and parameters in front of a body
  cases form with
  | functionDeclaration generator =>
    refine ⟨⟨settled_function _, ?_⟩, fun _ => rfl, ?_⟩
    · rintro binding heq
      cases heq
      exact ⟨h, fun hown => by cases hown⟩
    · intro phase hphase
      rw [hphase rfl]
      exact slotsFit_function _
  | functionExpression generator =>
    refine ⟨⟨settled_function _, ?_⟩, fun _ => rfl, ?_⟩
    · rintro binding heq
      cases heq
      exact ⟨settled_function _, fun _ => rfl⟩
    · intro phase hphase
      rw [hphase rfl]
      exact slotsFit_function _
  | program comments index =>
    exact slotsFit_of_settled (settled_function _) (by simp [Role.inHeader]) _
  | blockStatement =>
    refine slotsFit_of_settled (hscopes ?_) (by simp [Role.inHeader]) _
    rw [Form.scopes]
    split <;> rfl
  | _ => exact slotsFit_of_settled (hscopes rfl) (by simp [Role.inHeader, Binding.inHeader]) _

/-! ### Trees -/

theorem Form.passes_mention {kind : NodeKind} {slots : List Slot} (form : Form kind slots)
    {role : Role} (data : NodeData) {place : Place} (h : role.Fits place) :
    Passes place (form.mention role data) role.inHeader := by
  unfold Form.mention
  split
  · exact .nil _ _
  · split
    · rename_i binding
      refine ⟨⟨h.2 binding rfl, trivial⟩, rfl, fun hheader => ?_⟩
      exact if_pos hheader
    · rename_i hrole
      refine ⟨⟨h.1, trivial⟩, rfl, fun hheader => ?_⟩
      cases role with
      | binder binding => exact absurd rfl (hrole binding)
      | _ => cases hheader

theorem kind_of_identifier {holds : Capability} {kind : NodeKind} (hholds : holds = .identifier)
    (accepted : holds.accepts kind = true) : kind = .identifier := by
  subst hholds
  exact of_decide_eq_true accepted

/-- A role that fits a place fits it in every phase, unless the phase matters. -/
theorem Role.Fits.phase {role : Role} {place : Place} (h : role.Fits place) {phase : Phase}
    (hphase : role.inHeader = true → phase = place.phase) : role.Fits ⟨place.kinds, phase⟩ := by
  cases hheader : role.inHeader with
  | true => rw [hphase hheader]; exact h
  | false => exact Role.fits_of_settled h.1 hheader phase

/-- Only identifiers have an event of their own. -/
theorem Form.mention_eq_nil {kind : NodeKind} {slots : List Slot} (form : Form kind slots)
    (hkind : kind ≠ .identifier) (role : Role) (data : NodeData) : form.mention role data = [] := by
  cases form with
  | identifier name isBinder info => exact absurd rfl hkind
  | _ => rfl

mutual

/-- Every event of a tree comes at a place that fits it. -/
theorem Node.passes {kind : NodeKind} {role : Role} {place : Place} (h : role.Fits place)
    (hkind : role.inHeader = true → kind = .identifier) :
    ∀ node : Node kind, Passes place (node.scopeEvents role) role.inHeader
  | .mk data form fields => by
    rw [Node.scopeEvents]
    by_cases hidentifier : kind = .identifier
    · -- an identifier opens no scope and has no fields
      subst hidentifier
      cases form with
      | identifier name isBinder info =>
        cases fields
        have hevents : ∀ events, inScopes ((Form.identifier name isBinder info).scopes role)
            (events ++ Fields.nil.scopeEvents) = events := by
          intro events
          rw [Fields.scopeEvents, List.append_nil]
          exact List.append_nil _
        rw [hevents]
        exact Form.passes_mention _ data h
    · have hheader : role.inHeader = false := by
        cases hheader : role.inHeader with
        | true => exact absurd (hkind hheader) hidentifier
        | false => rfl
      rw [form.mention_eq_nil hidentifier, List.nil_append, hheader]
      exact Passes.inScopes (Fields.passes (form.slotsFit role h.1) fields)

theorem Fields.passes {slots : List Slot} {place : Place} (h : SlotsFit place slots) :
    ∀ fields : Fields slots, Passes place fields.scopeEvents false
  | .nil => by
    rw [Fields.scopeEvents]
    exact .nil _ _
  | @Fields.cons slot _ field rest => by
    rw [Fields.scopeEvents]
    obtain ⟨hrole, hholds, hrest⟩ := h
    have hfirst : Passes place
        (if slot.role.isWalked then field.scopeEvents slot.role else []) slot.role.inHeader := by
      split
      · exact Field.passes hrole hholds field
      · exact .nil _ _
    have hboth := hfirst.append fun phase hphase => Fields.passes (hrest phase hphase) rest
    rw [Bool.and_false] at hboth
    exact hboth

theorem Field.passes {arity : Arity} {holds : Capability} {role : Role} {place : Place}
    (h : role.Fits place) (hholds : role.inHeader = true → holds = .identifier) :
    ∀ field : Field arity holds, Passes place (field.scopeEvents role) role.inHeader
  | .one node accepted => by
    rw [Field.scopeEvents]
    exact Node.passes h (fun hheader => kind_of_identifier (hholds hheader) accepted) node
  | .absent => by
    rw [Field.scopeEvents]
    exact .nil _ _
  | .present node accepted => by
    rw [Field.scopeEvents]
    exact Node.passes h (fun hheader => kind_of_identifier (hholds hheader) accepted) node
  | .nil => by
    rw [Field.scopeEvents]
    exact .nil _ _
  | .cons node accepted rest => by
    rw [Field.scopeEvents]
    have hfirst := Node.passes h (fun hheader => kind_of_identifier (hholds hheader) accepted) node
    have hboth := hfirst.append fun phase hphase => Field.passes (h.phase hphase) hholds rest
    rw [Bool.and_self] at hboth
    exact hboth
  | .hole rest => by
    rw [Field.scopeEvents]
    exact Field.passes h hholds rest

end

end EsFront
