/-
One more name of the host.

Two walks of one program are followed side by side, the second with one more
name that is there before the program. That name is declared in the outermost
scope and gives way to all others, so the second walk makes the same
declarations, in the same scopes, and judges every binder alike. Its
declarations have greater numbers from the new one on (`Declaration.moved`), and
what was undefined under the new name is resolved to it (`Mention.withHost`).
Main statements:

* `Live.Extends.verdict_eq` — binders are judged alike;
* `Live.Extends.step`, `Live.Extends.run` — the two walks, event by event;
* `Program.WalkedAs.extends` — the two walks of a whole program.
-/
import EsFront.Proofs.Scope.Accounts
import EsFront.Proofs.Scope.Handles
import EsFront.Proofs.Scope.Outermost

namespace EsFront

/-! ### Declarations and records with one more name -/

namespace Declaration

/-- A name that is there before the program. -/
def global (id : DeclId) (name : String) : Declaration := ⟨id, name, .var, none, 0, 0⟩

/-- The declaration when one more is made as number `k`. -/
def moved (k : DeclId) (d : Declaration) : Declaration :=
  { d with id := if d.id < k then d.id else d.id + 1 }

/-- What a declaration says apart from its number. -/
def unnumbered (d : Declaration) : Declaration := { d with id := 0 }

theorem unnumbered_moved (k : DeclId) (d : Declaration) :
    (d.moved k).unnumbered = d.unnumbered := rfl

theorem moved_of_lt {k : DeclId} {d : Declaration} (h : d.id < k) : d.moved k = d := by
  rw [moved, if_pos h]

end Declaration

/-- The verdict when one more declaration is made as number `k`. -/
def Verdict.moved (k : DeclId) : Verdict → Verdict
  | declares scope => .declares scope
  | clashes clash first => .clashes clash (first.moved k)

/-- The record when the name `g` is declared before the program as number `k`. -/
def Mention.withHost (k : DeclId) (g : String) (m : Mention) : Mention :=
  { m with outcome :=
    match m.outcome with
    | .declared d => .declared (d.moved k)
    | .merged clash kind first => .merged clash kind (first.moved k)
    | .resolved d => .resolved (d.moved k)
    | .undefined => if m.name = g then .resolved (.global k g) else .undefined }

/-- A choice that passes over the new declaration is made among the old ones. -/
theorem filter_or_eq {k : DeclId} (choose : Declaration → Bool)
    (hsame : ∀ d : Declaration, choose (d.moved k) = choose d) (x : Option Declaration)
    {y : Option Declaration} (hnone : y.filter choose = none) :
    ((x.map (·.moved k)).or y).filter choose = (x.filter choose).map (·.moved k) := by
  cases x with
  | none => exact hnone
  | some d =>
    rw [Option.map_some, Option.some_or, Option.filter_some, Option.filter_some, hsame]
    split <;> rfl

namespace Live

variable {k : DeclId} {g : String} {live more : Live String} {place : Place}

/-! ### Related states -/

/-- The second walk has one more name of the host. -/
structure Extends (k : DeclId) (g : String) (live more : Live String) : Prop where
  ids : more.chain.ids = live.chain.ids
  kinds : more.chain.kinds = live.chain.kinds
  nextId : more.tree.nextId = live.tree.nextId
  parents : ∀ scope, more.tree.parent? scope = live.tree.parent? scope
  /-- The new name stands for itself where the old walk does not have it. -/
  lastIn : ∀ name scope, more.lastIn name scope = ((live.lastIn name scope).map (·.moved k)).or
    (if name = g ∧ scope = 0 then some (.global k g) else none)
  listed : .global k g ∈ more.listed 0
  declarations : ∃ hosts made, hosts.length = k ∧ (∀ d ∈ hosts, Declaration.isHost d = true) ∧
    live.declarations = hosts ++ made ∧
      more.declarations = hosts ++ .global k g :: made.map (·.moved k)
  mentions : more.mentions = live.mentions.map (·.withHost k g)

namespace Extends

theorem current?_eq (h : live.Extends k g more) : more.chain.current? = live.chain.current? := by
  rw [Chain.current?, Chain.current?, ← List.head?_map, ← List.head?_map]
  exact congrArg List.head? h.ids

theorem isWithin_eq (h : live.Extends k g more) (inner outer : ScopeId) :
    more.tree.isWithin inner outer = live.tree.isWithin inner outer := by
  rw [ScopeTree.isWithin, ScopeTree.isWithin,
    ScopeTree.ancestors_congr fun scope _ => h.parents scope]

theorem length_declarations (h : live.Extends k g more) :
    k ≤ live.declarations.length ∧ more.declarations.length = live.declarations.length + 1 := by
  obtain ⟨hosts, made, rfl, -, hold, hnew⟩ := h.declarations
  rw [hold, hnew, List.length_append, List.length_append, List.length_cons, List.length_map]
  exact ⟨Nat.le_add_right _ _, rfl⟩

/-! ### Events that judge nothing -/

theorem enter (h : live.Extends k g more) (kind : ScopeKind) :
    (live.enter kind).Extends k g (more.enter kind) where
  ids := by
    change more.tree.nextId :: more.chain.ids = live.tree.nextId :: live.chain.ids
    rw [h.nextId, h.ids]
  kinds := congrArg (kind :: ·) h.kinds
  nextId := by
    change (more.tree.add kind _).nextId = (live.tree.add kind _).nextId
    rw [ScopeTree.nextId_add, ScopeTree.nextId_add, h.nextId]
  parents := by
    intro scope
    change (more.tree.add kind more.chain.current?).parent? scope
      = (live.tree.add kind live.chain.current?).parent? scope
    rw [ScopeTree.parent?, ScopeTree.parent?, ScopeTree.get?_add, ScopeTree.get?_add, h.nextId,
      h.current?_eq]
    split
    · rfl
    · exact h.parents scope
  lastIn := by
    intro name scope
    change ((more.enter kind).listed scope |>.filter _).getLast?
      = (Option.map _ ((live.enter kind).listed scope |>.filter _).getLast?).or _
    rw [listed_enter, listed_enter]
    exact h.lastIn name scope
  listed := by
    rw [listed_enter]
    exact h.listed
  declarations := h.declarations
  mentions := h.mentions

theorem leave (h : live.Extends k g more) : live.leave.Extends k g more.leave where
  ids := by
    change List.map _ more.chain.tail = List.map _ live.chain.tail
    rw [List.map_tail, List.map_tail]
    exact congrArg List.tail h.ids
  kinds := by
    change List.map _ more.chain.tail = List.map _ live.chain.tail
    rw [List.map_tail, List.map_tail]
    exact congrArg List.tail h.kinds
  nextId := h.nextId
  parents := h.parents
  lastIn := h.lastIn
  listed := h.listed
  declarations := h.declarations
  mentions := h.mentions

theorem record (h : live.Extends k g more) {name : String} {site : Site}
    {outcome outcome' : Outcome} (houtcome : ∀ scope,
      Mention.withHost k g ⟨name, site, scope, outcome⟩ = ⟨name, site, scope, outcome'⟩) :
    (live.record name site outcome).Extends k g (more.record name site outcome') where
  ids := by
    rw [record_chain, record_chain]
    exact h.ids
  kinds := by
    rw [record_chain, record_chain]
    exact h.kinds
  nextId := by
    rw [record_tree, record_tree]
    exact h.nextId
  parents := by
    rw [record_tree, record_tree]
    exact h.parents
  lastIn := by
    intro other scope
    rw [lastIn_record, lastIn_record]
    exact h.lastIn other scope
  listed := by
    rw [record_listed]
    exact h.listed
  declarations := by
    rw [record_declarations, record_declarations]
    exact h.declarations
  mentions := by
    unfold Live.record
    rw [h.current?_eq]
    split
    · exact h.mentions
    · rename_i scope _
      change more.mentions ++ _ = List.map _ (live.mentions ++ _)
      rw [h.mentions, List.map_append, List.map_singleton, houtcome]

theorem declare (h : live.Extends k g more) (hlive : live.Coupled) (hmore : more.Coupled)
    {decl : Declaration} (hid : decl.id = live.declarations.length)
    (hscope : decl.scope ∈ live.chain.ids) :
    (live.declare decl).Extends k g (more.declare (decl.moved k)) := by
  obtain ⟨hlength, hlength'⟩ := h.length_declarations
  -- the new declaration is the last one of both walks
  have hid' : (decl.moved k).id = more.declarations.length := by
    rw [hlength', Declaration.moved, hid, if_neg (Nat.not_lt.mpr hlength)]
  have hscope' : (decl.moved k).scope ∈ more.chain.ids := h.ids ▸ hscope
  refine ⟨?_, ?_, ?_, ?_, ?_, ?_, ?_, h.mentions⟩
  · exact (Chain.ids_bindAt _).trans (h.ids.trans (Chain.ids_bindAt _).symm)
  · exact (Chain.kinds_bindAt _ _ _ _).trans (h.kinds.trans (Chain.kinds_bindAt _ _ _ _).symm)
  · change (more.tree.addDeclaration _ _).nextId = (live.tree.addDeclaration _ _).nextId
    rw [ScopeTree.nextId_addDeclaration, ScopeTree.nextId_addDeclaration, h.nextId]
  · intro scope
    change (more.tree.addDeclaration _ _).parent? scope
      = (live.tree.addDeclaration _ _).parent? scope
    rw [ScopeTree.parent?_addDeclaration, ScopeTree.parent?_addDeclaration, h.parents]
  · intro name scope
    rw [lastIn_declare hmore hid' hscope', lastIn_declare hlive hid hscope]
    change (if scope = decl.scope ∧ decl.name = name then _ else _) = _
    split
    · rfl
    · exact h.lastIn name scope
  · rw [listed_declare hmore hid' (hmore.opened _ hscope')]
    exact List.mem_append_left _ h.listed
  · obtain ⟨hosts, made, hhosts, hall, hold, hnew⟩ := h.declarations
    refine ⟨hosts, made ++ [decl], hhosts, hall, ?_, ?_⟩
    · change live.declarations ++ [decl] = _
      rw [hold, List.append_assoc]
    · change more.declarations ++ [decl.moved k] = _
      rw [hnew, List.map_append, List.append_assoc]
      rfl

end Extends

/-! ### Binders -/

/-- A scope that is open in both walks, as names are looked up in it. Only the
outermost one can have the new name, and it is a function. -/
structure Gains (k : DeclId) (g : String) (live more : Live String) (f f' : Frame String) :
    Prop where
  id : f'.id = f.id
  kind : f.kind = f'.kind
  inner : f.kind = .block → f.id ≠ 0
  declared : ∀ name, more.declared? f' name = ((live.declared? f name).map (·.moved k)).or
    (if name = g ∧ f.id = 0 then some (.global k g) else none)

theorem Gains.declared_inner {f f' : Frame String} (h : Gains k g live more f f')
    (hinner : f.id ≠ 0) (name : String) :
    more.declared? f' name = (live.declared? f name).map (·.moved k) := by
  rw [h.declared name, if_neg fun hboth => hinner hboth.2, Option.or_none]

/-- A choice that passes over names of the host is the same in both walks. -/
theorem Gains.filter_declared {f f' : Frame String} (h : Gains k g live more f f')
    (choose : Declaration → Bool) (hsame : ∀ d : Declaration, choose (d.moved k) = choose d)
    (hhost : choose (.global k g) = false) (name : String) :
    (more.declared? f' name).filter choose
      = ((live.declared? f name).filter choose).map (·.moved k) := by
  rw [h.declared name]
  refine filter_or_eq choose hsame _ ?_
  split
  · rw [Option.filter_some, hhost]
    rfl
  · rfl

/-- So it is for the nearest function. -/
theorem filter_function_declared {view view' : Chain String}
    (hview : List.Forall₂ (Gains k g live more) view view') (choose : Declaration → Bool)
    (hsame : ∀ d : Declaration, choose (d.moved k) = choose d)
    (hhost : choose (.global k g) = false) (name : String) :
    (view'.function?.bind (more.declared? · name)).filter choose
      = ((view.function?.bind (live.declared? · name)).filter choose).map (·.moved k) := by
  have hfunction := rel_function? (fun _ _ hframe => hframe.kind) hview
  revert hfunction
  generalize view.function? = x
  generalize view'.function? = y
  intro hfunction
  cases hfunction with
  | none => rfl
  | some hframe => exact hframe.filter_declared choose hsame hhost name

namespace Extends

variable {view view' : Chain String}

/-- The open scopes are the same, apart from their names. -/
theorem gains (h : live.Extends k g more) (hlive : live.Kept) (hmore : more.Coupled)
    (hroot : live.tree.kind? 0 = some .function) :
    List.Forall₂ (Gains k g live more) live.chain more.chain := by
  have hframe : ∀ f ∈ live.chain, ∀ f' ∈ more.chain, f'.id = f.id → f'.kind = f.kind →
      Gains k g live more f f' := by
    intro f hf f' hf' hid hkind
    refine ⟨hid, hkind.symm, ?_, fun name => ?_⟩
    · -- the scope with number 0 is a function
      intro hblock hzero
      have hframed := hlive.framed f hf
      rw [hzero, hroot, hblock] at hframed
      cases hframed
    · rw [hlive.coupled.declared?_eq hf, hmore.declared?_eq hf', hid]
      exact h.lastIn name f.id
  have hids : more.chain.map (·.id) = live.chain.map (·.id) := h.ids
  have hkinds : more.chain.map (·.kind) = live.chain.map (·.kind) := h.kinds
  -- frame by frame, since the chains have the same numbers and kinds
  revert hframe hids hkinds
  generalize live.chain = chain
  generalize more.chain = chain'
  induction chain generalizing chain' with
  | nil =>
    intro _ hids _
    rw [List.map_nil, List.map_eq_nil_iff] at hids
    rw [hids]
    exact .nil
  | cons f rest ih =>
    intro hframe hids hkinds
    cases chain' with
    | nil => cases hids
    | cons f' rest' =>
      obtain ⟨hid, hids⟩ := List.cons.inj hids
      obtain ⟨hkind, hkinds⟩ := List.cons.inj hkinds
      refine .cons (hframe f List.mem_cons_self f' List.mem_cons_self hid hkind) ?_
      exact ih rest' (fun f hf f' hf' => hframe f (List.mem_cons_of_mem _ hf) f'
        (List.mem_cons_of_mem _ hf')) hids hkinds

theorem lexicalVerdict_eq (h : live.Extends k g more) {block : Frame String} {rest : Chain String}
    (hview : List.Forall₂ (Gains k g live more) (block :: rest) view')
    (hblock : block.kind = .block) (name : String) : more.lexicalVerdict view' name
      = (live.lexicalVerdict (block :: rest) name).map (·.moved k) := by
  -- only what the program declares in the function can be in the way
  have hhoisted := filter_function_declared hview
    (fun d => !d.isHost && live.tree.isWithin d.blockScope block.id) (fun d => rfl) rfl name
  cases hview with
  | cons hfirst hrest =>
    unfold lexicalVerdict
    dsimp only
    simp only [h.isWithin_eq, hfirst.id]
    rw [hfirst.declared_inner (hfirst.inner hblock), hhoisted]
    cases live.declared? block name with
    | some first => rfl
    | none =>
      dsimp only [Option.map_none]
      generalize Option.filter _ _ = hoisted
      cases hoisted <;> rfl

theorem hoistedVerdict_eq (hview : List.Forall₂ (Gains k g live more) view view')
    (name : String) : more.hoistedVerdict view' name
      = (live.hoistedVerdict view name).map (·.moved k) := by
  have hshadowing : (view'.blocks.findSome? fun frame => (more.declared? frame name).filter fun d =>
        d.kind = .lexical || d.kind = .const)
      = (view.blocks.findSome? fun frame => (live.declared? frame name).filter fun d =>
        d.kind = .lexical || d.kind = .const).map (·.moved k) := by
    rw [List.map_findSome?]
    refine (findSome?_of_forall₂ (fun f f' hframe => ?_)
      (forall₂_blocks (fun _ _ hframe => hframe.kind) hview)).symm
    exact (hframe.filter_declared _ (fun d => rfl) rfl name).symm
  unfold hoistedVerdict
  dsimp only
  rw [hshadowing]
  cases view.blocks.findSome? fun frame => (live.declared? frame name).filter fun d =>
      d.kind = .lexical || d.kind = .const with
  | some first => rfl
  | none =>
    dsimp only [Option.map_none]
    rw [Option.map_map]
    refine (map_eq_of_rel (fun f f' hframe => ?_)
      (rel_function? (fun _ _ hframe => hframe.kind) hview)).symm
    -- names of the host give way
    rw [Function.comp_apply, hframe.filter_declared (fun d => !d.isHost) (fun d => rfl) rfl name,
      hframe.id]
    generalize Option.filter _ _ = first
    cases first <;> rfl

theorem parameterVerdict_eq (hview : List.Forall₂ (Gains k g live more) view view')
    (hinner : ∀ f, view.function? = some f → f.id ≠ 0) (name : String) :
    more.parameterVerdict view' name = (live.parameterVerdict view name).map (·.moved k) := by
  have hfunction := rel_function? (fun _ _ hframe => hframe.kind) hview
  unfold parameterVerdict
  revert hinner hfunction
  generalize view.function? = x
  generalize view'.function? = y
  intro hinner hfunction
  cases hfunction with
  | none => rfl
  | @some f f' hframe =>
    have hfilter := filter_or_eq (k := k) (fun d => d.kind ≠ .function) (fun d => rfl)
      (live.declared? f name) (y := none) rfl
    rw [Option.or_none] at hfilter
    rw [Option.map_some, Option.map_some, Option.map_some, Option.some_inj,
      hframe.declared_inner (hinner f rfl), hframe.id, hfilter]
    generalize Option.filter _ _ = first
    cases first <;> rfl

/-- Both walks judge binders alike. -/
theorem verdict_eq (h : live.Extends k g more) {block : Frame String} {rest : Chain String}
    (hview : List.Forall₂ (Gains k g live more) (block :: rest) view')
    (hblock : block.kind = .block) {binding : Binding} (hinner : binding = .parameter →
      ∀ f, Chain.function? (block :: rest) = some f → f.id ≠ 0) (name : String) :
    more.verdict binding view' name
      = (live.verdict binding (block :: rest) name).map (·.moved k) := by
  unfold Live.verdict
  split
  · exact parameterVerdict_eq hview (hinner rfl) name
  · split
    · exact h.lexicalVerdict_eq hview hblock name
    · exact hoistedVerdict_eq hview name

theorem bind (h : live.Extends k g more) (hlive : live.Stands place) {place' : Place}
    (hmore : more.Stands place') (hroot : live.tree.kind? 0 = some .function) {binding : Binding}
    {name : String} {site : Site} (hfits : (ScopeEvent.bind binding name site).Fits place)
    (hfits' : (ScopeEvent.bind binding name site).Fits place') :
    (live.step (.bind binding name site)).Extends k g (more.step (.bind binding name site)) := by
  obtain ⟨block, function, rest, hview, hblock, hfunction, -⟩ := hlive.view hfits.1
  have hdrop := List.forall₂_drop binding.skipped (h.gains hlive.kept hmore.kept.coupled hroot)
  rw [hview] at hdrop
  obtain ⟨block', rest', hview'⟩ : ∃ block' rest',
      more.chain.drop binding.skipped = block' :: rest' := by
    cases hdrop' : more.chain.drop binding.skipped with
    | nil =>
      rw [hdrop'] at hdrop
      cases hdrop
    | cons block' rest' => exact ⟨block', rest', rfl⟩
  rw [hview'] at hdrop
  have hfirst := (List.forall₂_cons.mp hdrop).1
  -- in the header of a function the host has no names, so it is not the outermost
  have hinner : binding = .parameter →
      ∀ f, Chain.function? (block :: rest) = some f → f.id ≠ 0 := by
    rintro rfl f hf hzero
    have hrel := rel_function? (fun _ _ hframe => hframe.kind) hdrop
    rw [hf] at hrel
    cases hf' : Chain.function? (block' :: rest') with
    | none =>
      rw [hf'] at hrel
      cases hrel
    | some f' =>
      rw [hf'] at hrel
      obtain hframe : Gains k g live more f f' := by cases hrel; assumption
      obtain ⟨-, -, -, hhosts⟩ := hmore.header_view (hfits'.2 rfl) hview'
        (hfirst.kind.symm.trans hblock) hf'
      rw [hframe.id, hzero] at hhosts
      cases hhosts _ h.listed
  have hmem : ∀ frame ∈ block :: rest, frame ∈ live.chain := by
    intro frame hframe
    rw [← hview] at hframe
    exact List.mem_of_mem_drop hframe
  obtain ⟨verdict, hverdict, -⟩ := hlive.kept.coupled.verdict_spec hmem hfunction binding name
  have hverdict' := h.verdict_eq hdrop hblock hinner name
  rw [hverdict, Option.map_some] at hverdict'
  cases verdict with
  | clashes clash first =>
    rw [bind_clashes hview hverdict, bind_clashes hview' hverdict']
    exact h.record fun _ => rfl
  | declares scope =>
    obtain ⟨hscope, hstep⟩ := hlive.kept.coupled.bind_declares hview hverdict site
    have hmade : more.made binding name site scope block'.id
        = (live.made binding name site scope block.id).moved k := by
      obtain ⟨hlength, hlength'⟩ := h.length_declarations
      rw [made, hfirst.id, hlength', made, Declaration.moved, if_neg (Nat.not_lt.mpr hlength)]
    rw [hstep, (hmore.kept.coupled.bind_declares hview' hverdict' site).2, hmade]
    exact (h.declare hlive.kept.coupled hmore.kept.coupled rfl hscope).record fun _ => rfl

/-! ### Uses -/

/-- On the way out to the outermost scope, the new name is found last. -/
theorem findSome?_lastIn (h : live.Extends k g more) (name : String) {scopes : List ScopeId}
    (horder : scopes.Pairwise (· > ·)) (hroot : 0 ∈ scopes) :
    scopes.findSome? (more.lastIn name) = ((scopes.findSome? (live.lastIn name)).map (·.moved k)).or
      (if name = g then some (.global k g) else none) := by
  induction scopes with
  | nil => exact absurd hroot List.not_mem_nil
  | cons scope rest ih =>
    rw [List.findSome?_cons, List.findSome?_cons, h.lastIn name scope]
    cases live.lastIn name scope with
    | some d => rfl
    | none =>
      dsimp only [Option.map_none, Option.none_or]
      rcases List.mem_cons.mp hroot with rfl | hrest
      · -- nothing lies around the outermost scope
        have hnil : rest = [] := by
          refine List.eq_nil_iff_forall_not_mem.mpr fun scope hscope => ?_
          exact Nat.not_lt_zero scope (List.rel_of_pairwise_cons horder hscope)
        rw [hnil]
        by_cases hname : name = g
        · rw [if_pos ⟨hname, rfl⟩, if_pos hname]
          rfl
        · rw [if_neg fun hboth => hname hboth.1, if_neg hname]
          rfl
      · have hpos : scope ≠ 0 := Nat.ne_of_gt (List.rel_of_pairwise_cons horder hrest)
        rw [if_neg fun hboth => hpos hboth.2]
        exact ih horder.tail hrest

theorem use (h : live.Extends k g more) (hlive : live.Stands place) (hmore : more.Coupled)
    (hroot : 0 ∈ live.chain.ids) {name : String} {site : Site}
    (hfits : (ScopeEvent.use name site).Fits place) :
    (live.step (.use name site)).Extends k g (more.step (.use name site)) := by
  obtain ⟨block, function, rest, hview, -⟩ := hlive.view (n := 0) hfits
  have hids : live.chain.ids = Chain.ids (block :: rest) := congrArg Chain.ids hview
  have hcurrent : live.chain.current? = some block.id := by
    rw [show live.chain = block :: rest from hview]
    rfl
  have hancestors : live.tree.ancestors block.id = live.chain.ids :=
    (hlive.kept.coupled.ancestors_eq hview).trans hids.symm
  have hsame : more.tree.ancestors block.id = live.chain.ids :=
    (ScopeTree.ancestors_congr fun scope _ => h.parents scope).trans hancestors
  rw [use_eq hlive.kept.coupled hcurrent, use_eq hmore (h.current?_eq.trans hcurrent), hancestors,
    hsame, h.findSome?_lastIn name hlive.kept.coupled.order hroot]
  refine h.record fun scope => ?_
  cases live.chain.ids.findSome? (live.lastIn name) with
  | some d => rfl
  | none =>
    change (⟨name, site, scope, if name = g then .resolved (.global k g) else .undefined⟩ : Mention)
      = _
    split <;> rfl

/-! ### Walks -/

/-- Inside a program, every event keeps the two walks together. -/
theorem step (h : live.Extends k g more) {n : Nat} (hrooted : live.Rooted n)
    (hlive : live.Stands place) {place' : Place} (hmore : more.Stands place') {event : ScopeEvent}
    (hfits : event.Fits place) (hfits' : event.Fits place') {walked : List AnyNode}
    (hwithin : event.Within walked) : (live.step event).Extends k g (more.step event) := by
  cases event with
  | enter kind => exact h.enter kind
  | leave => exact h.leave
  | predeclare name => exact hwithin.elim
  | bind binding name site => exact h.bind hlive hmore hrooted.root.1 hfits hfits'
  | use name site => exact h.use hlive hmore.kept.coupled hrooted.mem_ids hfits

theorem run (h : live.Extends k g more) {n : Nat} (hrooted : live.Rooted n)
    (hlive : live.Stands place) {place' : Place} (hmore : more.Stands place')
    {events : List ScopeEvent} (horderly : Orderly place events)
    (horderly' : Orderly place' events) {walked : List AnyNode}
    (hwithin : ∀ event ∈ events, event.Within walked) {m : Nat}
    (hdepth : events.foldlM ScopeEvent.depth? n = some m) :
    (live.run events).Extends k g (more.run events) := by
  induction events generalizing live more place place' n with
  | nil => exact h
  | cons event events ih =>
    rw [List.foldlM_cons] at hdepth
    obtain ⟨l, hfirst, hrest⟩ := Option.bind_eq_some_iff.mp hdepth
    rw [List.forall_mem_cons] at hwithin
    exact ih (h.step hrooted hlive hmore horderly.1 horderly'.1 hwithin.1)
      (hrooted.step hlive horderly.1 hfirst) (hlive.step horderly.1) (hmore.step horderly'.1)
      horderly.2 horderly'.2 hwithin.2 hrest

end Extends

/-! ### Before the first statement -/

/-- Predeclared names are declared under one of the given names. -/
theorem run_predeclared (hlive : live.Coupled) (names : List String) :
    ∀ d ∈ (live.run (names.map .predeclare)).declarations,
      d ∈ live.declarations ∨ d.name ∈ names := by
  induction names generalizing live with
  | nil => exact fun d hd => .inl hd
  | cons name names ih =>
    intro d hd
    rcases ih (hlive.step (.predeclare name)) d hd with hfirst | hrest
    · rcases hlive.predeclare_spec name with ⟨scope, -, -, -, hstep⟩ | hstep
      · rw [hstep] at hfirst
        rcases List.mem_append.mp hfirst with hold | hnew
        · exact .inl hold
        · rw [List.mem_singleton.mp hnew]
          exact .inr List.mem_cons_self
      · rw [hstep] at hfirst
        exact .inl hfirst
    · exact .inr (List.mem_cons_of_mem _ hrest)

/-- A name of the host that is new is declared in the one scope that is open. -/
theorem Coupled.extends_declare (h : live.Coupled) (hids : live.chain.ids = [0])
    (hmentions : live.mentions = []) (hhosts : ∀ d ∈ live.declarations, d.isHost = true)
    (hnew : live.lastIn g 0 = none) :
    live.Extends live.declarations.length g
      (live.declare (.global live.declarations.length g)) := by
  have hscope : (Declaration.global live.declarations.length g).scope ∈ live.chain.ids := by
    rw [hids]
    exact List.mem_singleton_self 0
  refine ⟨Chain.ids_bindAt _, Chain.kinds_bindAt _ _ _ _, ScopeTree.nextId_addDeclaration _ _ _,
    fun scope => ScopeTree.parent?_addDeclaration _ _ _ scope, ?_, ?_, ?_, ?_⟩
  · intro name scope
    rw [lastIn_declare h rfl hscope]
    change (if scope = 0 ∧ g = name then _ else _) = _
    by_cases hname : name = g ∧ scope = 0
    · rw [if_pos ⟨hname.2, hname.1.symm⟩, if_pos hname, hname.1, hname.2, hnew]
      rfl
    · rw [if_neg fun hboth => hname ⟨hboth.2.symm, hboth.1⟩, if_neg hname, Option.or_none]
      -- the declarations so far keep their numbers
      cases hlast : live.lastIn name scope with
      | none => rfl
      | some d =>
        obtain ⟨hlt, -⟩ := List.getElem?_eq_some_iff.mp (h.get_of_lastIn hlast)
        rw [Option.map_some, Declaration.moved_of_lt hlt]
  · rw [listed_declare h rfl (h.opened _ hscope)]
    exact List.mem_append_right _ (List.mem_singleton_self _)
  · exact ⟨live.declarations, [], rfl, hhosts, (List.append_nil _).symm, rfl⟩
  · change live.mentions = _
    rw [hmentions]
    rfl

/-- One more name of the host, before the first statement. -/
theorem extends_opening {names : List String} (hnew : g ∉ names) :
    ∃ k, (start.run (openingEvents names)).Extends k g
      (start.run (openingEvents (names ++ [g]))) := by
  generalize hlive : (start.enter .function).run (names.map .predeclare) = live
  have hopened : start.run (openingEvents names) = live.enter .block := by
    rw [openingEvents, run_append, ← hlive]
    rfl
  obtain ⟨hmentions, hhosts⟩ := openingEvents_hosts names
  rw [hopened] at hmentions hhosts
  have horderly := (orderly_openingEvents names).1
  rw [openingEvents, List.cons_append] at horderly
  -- before the block is opened only the scope of the program is live
  have hrooted : live.Rooted 0 := by
    rw [← hlive]
    exact run_rooted rooted_enter (stands_start.step horderly.1) (orderly_append.mp horderly.2).1
      (depth_predeclared names 0)
  have hcoupled : live.Coupled := by
    rw [← hlive]
    exact run_coupled (coupled_start.enter .function) _
  have hids : live.chain.ids = [0] := by
    obtain ⟨inner, hids, hlength⟩ := hrooted.ids
    rw [hids, List.length_eq_zero_iff.mp hlength]
    rfl
  -- it lists names of the host only, and `g` is none of them
  have hnone : live.lastIn g 0 = none := by
    cases hlast : live.lastIn g 0 with
    | none => rfl
    | some d =>
      obtain ⟨hmem, hname⟩ := mem_listed_of_lastIn hlast
      have hdeclared := mem_of_listed hmem
      rw [← hlive] at hdeclared
      rcases run_predeclared (coupled_start.enter .function) names d hdeclared with hold | hold
      · exact absurd hold List.not_mem_nil
      · exact absurd (hname ▸ hold) hnew
  -- so the new name is not passed over
  have hstep : live.step (.predeclare g) = live.declare (.global live.declarations.length g) := by
    obtain ⟨frame, hchain⟩ : ∃ frame, live.chain = [frame] := by
      have hlength : live.chain.length = 1 := by
        rw [← List.length_map, ← Chain.ids, hids]
        rfl
      exact List.length_eq_one_iff.mp hlength
    have hcurrent : live.chain.current? = some 0 := by
      rw [Chain.current?, ← List.head?_map, ← Chain.ids, hids]
      rfl
    have hlocal : live.chain.local? g = none := by
      have hid : frame.id = 0 := by
        rw [hchain] at hcurrent
        exact Option.some_inj.mp hcurrent
      rw [hchain]
      change frame.local? g = none
      rw [hcoupled.local?_eq (by rw [hchain]; exact List.mem_singleton_self _), hid, hnone]
      rfl
    change live.predeclare g g = _
    rw [predeclare, hcurrent, hlocal]
    dsimp only
    rw [Chain.insert_eq hcoupled.nodup hcurrent]
    rfl
  refine ⟨live.declarations.length, ?_⟩
  have hmore : start.run (openingEvents (names ++ [g]))
      = (live.step (.predeclare g)).enter .block := by
    rw [openingEvents, run_append, List.map_append, ← List.cons_append, run_append, ← hlive]
    rfl
  rw [hopened, hmore, hstep]
  exact (hcoupled.extends_declare hids hmentions hhosts hnone).enter .block

end Live

/-! ### Whole walks -/

/-- The walk of a program with one more name of the host. -/
theorem Program.WalkedAs.extends {p : Program} {inner : List ScopeEvent}
    (hwalked : p.WalkedAs inner) (hmet : p.MetAs inner) {names : List String} {g : String}
    (hnew : g ∉ names) :
    ∃ k, (walkedState names inner).Extends k g (walkedState (names ++ [g]) inner) := by
  obtain ⟨k, hopening⟩ := Live.extends_opening hnew
  have horderly := orderly_append.mp (hmet.orderly names)
  have horderly' := orderly_append.mp (hmet.orderly (names ++ [g]))
  have hinner := hopening.run (Live.opening_rooted names)
    (Live.run_stands Live.stands_start horderly.1) (Live.run_stands Live.stands_start horderly'.1)
    horderly.2 horderly'.2 hwalked.within (hwalked.nested 1)
  refine ⟨k, ?_⟩
  rw [walkedState, walkedState, Live.run_append, Live.run_append, Live.run_append, Live.run_append]
  exact hinner.leave.leave

end EsFront
