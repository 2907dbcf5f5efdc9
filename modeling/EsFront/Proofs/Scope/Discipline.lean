/-
What the lists of scopes hold.

Blocks list what `let`, `const` and catch clauses declare, and functions all
else; a declaration is listed in its own scope (`Live.Kept`). This rests on
the order of events: names are bound where a block is innermost, and the names
and parameters of a function come before everything in its body
(`Live.Stands`). Main statement: `Live.run_stands` — all this holds along every
orderly walk.
-/
import EsFront.Proofs.Scope.Growth
import EsFront.Proofs.Scope.Places
import EsFront.Proofs.Scope.Verdict

namespace EsFront

/-! ### Kinds of scopes -/

/-- The kind of a scope. -/
def ScopeTree.kind? (tree : ScopeTree) (scope : ScopeId) : Option ScopeKind :=
  (tree.get? scope).map (·.kind)

/-- The kinds of the live scopes, innermost first. -/
def Chain.kinds (chain : Chain String) : List ScopeKind := chain.map (·.kind)

namespace ScopeTree

variable (tree : ScopeTree)

theorem kind?_addDeclaration (scope : ScopeId) (decl : DeclId) (other : ScopeId) :
    (tree.addDeclaration scope decl).kind? other = tree.kind? other := by
  rw [kind?, kind?, get?_addDeclaration, Option.map_map]
  congr 1
  funext record
  rw [Function.comp_apply]
  split <;> rfl

theorem kind?_add (kind : ScopeKind) (parent : Option ScopeId) (scope : ScopeId) :
    (tree.add kind parent).kind? scope
      = if scope = tree.nextId then some kind else tree.kind? scope := by
  rw [kind?, get?_add]
  split <;> rfl

theorem nextId_add (kind : ScopeKind) (parent : Option ScopeId) :
    (tree.add kind parent).nextId = tree.nextId + 1 := by
  simp [add, nextId]

theorem nextId_addDeclaration (scope : ScopeId) (decl : DeclId) :
    (tree.addDeclaration scope decl).nextId = tree.nextId := List.length_modify _ _ _

theorem listed_of_le {declarations : List Declaration} {scope : ScopeId}
    (h : tree.nextId ≤ scope) : tree.listed declarations scope = [] := by
  rw [listed, tree.get?_eq_none h]
  rfl

end ScopeTree

theorem Chain.exists_current {chain rest : Chain String} {n : Nat} {frame : Frame String}
    (h : chain.drop n = frame :: rest) : ∃ scope, chain.current? = some scope := by
  cases chain with
  | nil =>
    rw [List.drop_nil] at h
    cases h
  | cons first others => exact ⟨first.id, rfl⟩

theorem Chain.kinds_bindAt (chain : Chain String) (scope : ScopeId) (name : String)
    (decl : DeclId) : (chain.bindAt scope name decl).kinds = chain.kinds := by
  rw [kinds, kinds, bindAt, List.map_map]
  refine List.map_congr_left fun frame _ => ?_
  rw [Function.comp_apply]
  split <;> rfl

namespace Live

variable {live : Live String}

/-- A declaration that is listed is one of the declarations. -/
theorem mem_of_listed {scope : ScopeId} {d : Declaration} (h : d ∈ live.listed scope) :
    d ∈ live.declarations := by
  obtain ⟨i, -, hi⟩ := List.mem_filterMap.mp h
  exact List.mem_of_getElem? hi

theorem mem_listed_of_lastIn {name : String} {scope : ScopeId} {d : Declaration}
    (h : live.lastIn name scope = some d) : d ∈ live.listed scope ∧ d.name = name := by
  have hmem := List.mem_filter.mp (List.mem_of_getLast? h)
  exact ⟨hmem.1, of_decide_eq_true hmem.2⟩

theorem current?_declare (decl : Declaration) :
    (live.declare decl).chain.current? = live.chain.current? := by
  have hids : (live.declare decl).chain.ids = live.chain.ids := Chain.ids_bindAt _
  rw [Chain.current?, Chain.current?, ← List.head?_map, ← List.head?_map]
  exact congrArg List.head? hids

/-! ### Frames and lists, whatever happens -/

theorem mem_listed_declare (h : live.Coupled) {decl d : Declaration} {scope : ScopeId}
    (hid : decl.id = live.declarations.length) (hscope : decl.scope ∈ live.chain.ids)
    (hd : d ∈ (live.declare decl).listed scope) :
    d ∈ live.listed scope ∨ d = decl ∧ scope = decl.scope := by
  rw [listed_declare h hid (h.opened _ hscope), List.mem_append] at hd
  refine hd.imp_right fun hnew => ?_
  split at hnew
  · rename_i heq
    exact ⟨List.mem_singleton.mp hnew, heq⟩
  · exact absurd hnew List.not_mem_nil

/-- The live scopes are of the kinds that the tree tells. -/
def Framed (live : Live String) : Prop :=
  ∀ frame ∈ live.chain, live.tree.kind? frame.id = some frame.kind

theorem Framed.record (h : live.Framed) (name : String) (site : Site) (outcome : Outcome) :
    (live.record name site outcome).Framed := by
  rw [Framed, record_chain, record_tree]
  exact h

theorem Framed.leave (h : live.Framed) : live.leave.Framed :=
  fun frame hframe => h frame (List.mem_of_mem_tail hframe)

theorem Framed.enter (h : live.Framed) (hcoupled : live.Coupled) (kind : ScopeKind) :
    (live.enter kind).Framed := by
  intro frame hframe
  change (live.tree.add kind live.chain.current?).kind? frame.id = _
  rw [ScopeTree.kind?_add]
  rcases List.mem_cons.mp hframe with rfl | hold
  · exact if_pos rfl
  · rw [if_neg (Nat.ne_of_lt (hcoupled.opened _ (List.mem_map_of_mem hold)))]
    exact h frame hold

theorem Framed.declare (h : live.Framed) (decl : Declaration) : (live.declare decl).Framed := by
  intro frame hframe
  change (live.tree.addDeclaration decl.scope decl.id).kind? frame.id = _
  rw [ScopeTree.kind?_addDeclaration]
  obtain ⟨old, hold, rfl⟩ := List.mem_map.mp hframe
  have hframed := h old hold
  split <;> exact hframed

/-- A scope lists declarations of its own only. -/
def Placed (live : Live String) : Prop := ∀ scope, ∀ d ∈ live.listed scope, d.scope = scope

theorem Placed.record (h : live.Placed) (name : String) (site : Site) (outcome : Outcome) :
    (live.record name site outcome).Placed := by
  intro scope
  rw [record_listed]
  exact h scope

theorem Placed.enter (h : live.Placed) (kind : ScopeKind) : (live.enter kind).Placed := by
  intro scope
  rw [listed_enter]
  exact h scope

theorem Placed.declare (h : live.Placed) (hcoupled : live.Coupled) {decl : Declaration}
    (hid : decl.id = live.declarations.length) (hscope : decl.scope ∈ live.chain.ids) :
    (live.declare decl).Placed := by
  intro scope d hd
  rcases mem_listed_declare hcoupled hid hscope hd with hold | ⟨rfl, rfl⟩
  · exact h scope d hold
  · rfl

/-! ### Lists and their scopes -/

/-- Every declaration is listed in its own scope, and blocks list what is bound
in blocks. -/
structure Kept (live : Live String) : Prop where
  coupled : live.Coupled
  framed : ∀ frame ∈ live.chain, live.tree.kind? frame.id = some frame.kind
  placed : ∀ scope, ∀ d ∈ live.listed scope, d.scope = scope
  sorted : ∀ scope, ∀ d ∈ live.listed scope,
    (d.kind.isBlockScoped = true ↔ live.tree.kind? scope = some .block)
  hosts : ∀ d ∈ live.declarations, d.isHost = true → d.kind = .var
  within : ∀ d ∈ live.declarations, d.blockScope < live.tree.nextId

theorem kept_start : (start : Live String).Kept where
  coupled := coupled_start
  framed := fun _ h => absurd h List.not_mem_nil
  placed := fun _ _ h => absurd (mem_of_listed h) List.not_mem_nil
  sorted := fun _ _ h => absurd (mem_of_listed h) List.not_mem_nil
  hosts := fun _ h => absurd h List.not_mem_nil
  within := fun _ h => absurd h List.not_mem_nil

theorem Kept.record (h : live.Kept) (name : String) (site : Site) (outcome : Outcome) :
    (live.record name site outcome).Kept where
  coupled := h.coupled.record name site outcome
  framed := Framed.record h.framed name site outcome
  placed := Placed.record h.placed name site outcome
  sorted := by
    intro scope
    rw [record_listed, record_tree]
    exact h.sorted scope
  hosts := by
    rw [record_declarations]
    exact h.hosts
  within := by
    rw [record_declarations, record_tree]
    exact h.within

theorem Kept.leave (h : live.Kept) : live.leave.Kept where
  coupled := h.coupled.leave
  framed := Framed.leave h.framed
  placed := h.placed
  sorted := h.sorted
  hosts := h.hosts
  within := h.within

theorem Kept.enter (h : live.Kept) (kind : ScopeKind) : (live.enter kind).Kept where
  coupled := h.coupled.enter kind
  framed := Framed.enter h.framed h.coupled kind
  placed := Placed.enter h.placed kind
  sorted := by
    intro scope d hd
    rw [listed_enter] at hd
    have hne : scope ≠ live.tree.nextId := by
      rintro rfl
      rw [listed, ScopeTree.listed_of_le _ (Nat.le_refl _)] at hd
      exact List.not_mem_nil hd
    change _ ↔ (live.tree.add kind live.chain.current?).kind? scope = _
    rw [ScopeTree.kind?_add, if_neg hne]
    exact h.sorted scope d hd
  hosts := h.hosts
  within := by
    intro d hd
    change d.blockScope < (live.tree.add kind live.chain.current?).nextId
    rw [ScopeTree.nextId_add]
    exact Nat.lt_succ_of_lt (h.within d hd)

theorem Kept.declare (h : live.Kept) {decl : Declaration}
    (hid : decl.id = live.declarations.length) (hscope : decl.scope ∈ live.chain.ids)
    (hkind : decl.kind.isBlockScoped = true ↔ live.tree.kind? decl.scope = some .block)
    (hhost : decl.isHost = true → decl.kind = .var)
    (hblock : decl.blockScope < live.tree.nextId) : (live.declare decl).Kept where
  coupled := h.coupled.declare hid hscope
  framed := Framed.declare h.framed decl
  placed := Placed.declare h.placed h.coupled hid hscope
  sorted := by
    intro scope d hd
    change _ ↔ (live.tree.addDeclaration decl.scope decl.id).kind? scope = _
    rw [ScopeTree.kind?_addDeclaration]
    rcases mem_listed_declare h.coupled hid hscope hd with hold | ⟨rfl, rfl⟩
    · exact h.sorted scope d hold
    · exact hkind
  hosts := by
    intro d hd
    rcases List.mem_append.mp hd with hd | hd
    · exact h.hosts d hd
    · rw [List.mem_singleton] at hd
      rw [hd]
      exact hhost
  within := by
    intro d hd
    change d.blockScope < (live.tree.addDeclaration decl.scope decl.id).nextId
    rw [ScopeTree.nextId_addDeclaration]
    rcases List.mem_append.mp hd with hd | hd
    · exact h.within d hd
    · rw [List.mem_singleton] at hd
      rw [hd]
      exact hblock

/-! ### The state at a place -/

/-- The live scopes are those of the place. In the header of a function its
block is new and empty, and the function has names of its own only. -/
structure Stands (live : Live String) (place : Place) : Prop where
  kept : live.Kept
  kinds : live.chain.kinds = place.kinds
  opened : place.phase = .opened →
    ∃ n outer, live.chain.ids = n :: outer ∧ live.tree.nextId = n + 1 ∧
      live.tree.kind? n = some .function ∧ live.listed n = []
  header : place.phase = .header →
    ∃ n outer, live.chain.ids = (n + 1) :: n :: outer ∧ live.tree.nextId = n + 2 ∧
      live.tree.kind? n = some .function ∧ live.listed (n + 1) = [] ∧
      ∀ d ∈ live.listed n, d.isHost = false

variable {place : Place}

/-- Seen from the scopes that concern it, a binder stands in a block of a
function. -/
theorem Stands.view (h : live.Stands place) {n : Nat} (hsettled : Settled (place.kinds.drop n)) :
    ∃ block function rest, live.chain.drop n = block :: rest ∧ block.kind = .block ∧
      Chain.function? (block :: rest) = some function ∧ function.kind = .function := by
  have hkinds : (live.chain.drop n).map (·.kind) = place.kinds.drop n := by
    rw [List.map_drop, ← h.kinds]
    rfl
  rw [← hkinds] at hsettled
  obtain ⟨hhead, hfunction⟩ := hsettled
  cases hview : live.chain.drop n with
  | nil =>
    rw [hview] at hhead
    cases hhead
  | cons block rest =>
    rw [hview] at hhead hfunction
    rw [List.map_cons, List.head?_cons, Option.some_inj] at hhead
    obtain ⟨frame, hframe, hkind⟩ := List.mem_map.mp hfunction
    have hsome : (Chain.function? (block :: rest)).isSome = true := by
      rw [Chain.function?, List.find?_isSome]
      exact ⟨frame, hframe, decide_eq_true hkind⟩
    obtain ⟨function, hfound⟩ := Option.isSome_iff_exists.mp hsome
    exact ⟨block, function, rest, rfl, hhead, hfound, Chain.kind_of_function? hfound⟩

/-- In the header of a function, its scope and that of its block were opened
last, and nothing is listed in the block. -/
theorem Stands.header_view (h : live.Stands place) (hheader : place.phase = .header)
    {block function : Frame String} {rest : Chain String} (hview : live.chain = block :: rest)
    (hblock : block.kind = .block) (hfunction : Chain.function? (block :: rest) = some function) :
    block.id = function.id + 1 ∧ live.tree.nextId = function.id + 2 ∧
      live.listed block.id = [] ∧ ∀ d ∈ live.listed function.id, d.isHost = false := by
  obtain ⟨n, outer, hids, hlast, hkind, hnone, hown⟩ := h.header hheader
  rw [hview] at hids
  rw [Chain.function?, List.find?_cons, decide_eq_false (by rw [hblock]; decide)] at hfunction
  cases rest with
  | nil => simp [Chain.ids] at hids
  | cons second rest =>
    have hparts : block.id = n + 1 ∧ second.id = n := by
      simp only [Chain.ids, List.map_cons, List.cons.injEq] at hids
      exact ⟨hids.1, hids.2.1⟩
    have hsecond := h.kept.framed second (by rw [hview]; simp)
    rw [hparts.2, hkind, Option.some_inj] at hsecond
    rw [List.find?_cons, decide_eq_true hsecond.symm] at hfunction
    cases hfunction
    rw [hparts.1, hparts.2]
    exact ⟨rfl, hlast, hnone, hown⟩

theorem Stands.record (h : live.Stands place) {phase : Phase}
    (hphase : phase = place.phase ∨ phase = .inside) (name : String) (site : Site)
    (outcome : Outcome) : (live.record name site outcome).Stands ⟨place.kinds, phase⟩ where
  kept := h.kept.record name site outcome
  kinds := by
    rw [record_chain]
    exact h.kinds
  opened := by
    intro hopened
    rw [record_chain, record_tree]
    simp only [record_listed]
    rcases hphase with rfl | rfl
    · exact h.opened hopened
    · cases hopened
  header := by
    intro hheader
    rw [record_chain, record_tree]
    simp only [record_listed]
    rcases hphase with rfl | rfl
    · exact h.header hheader
    · cases hheader

theorem Stands.enter (h : live.Stands place) (kind : ScopeKind) :
    (live.enter kind).Stands (place.step (.enter kind)) := by
  have hids : (live.enter kind).chain.ids = live.tree.nextId :: live.chain.ids := rfl
  have hnext : (live.enter kind).tree.nextId = live.tree.nextId + 1 :=
    ScopeTree.nextId_add _ _ _
  have hlisted : (live.enter kind).listed live.tree.nextId = [] := by
    rw [listed_enter]
    exact ScopeTree.listed_of_le _ (Nat.le_refl _)
  have hkind : (live.enter kind).tree.kind? live.tree.nextId = some kind := by
    refine (ScopeTree.kind?_add _ _ _ _).trans ?_
    rw [if_pos rfl]
  cases kind with
  | function =>
    refine ⟨h.kept.enter _, congrArg _ h.kinds, fun _ => ⟨_, _, hids, hnext, hkind, hlisted⟩, ?_⟩
    intro hheader
    cases hheader
  | block =>
    refine ⟨h.kept.enter _, congrArg _ h.kinds, fun hopened => ?_, fun hheader => ?_⟩
    · change (if place.phase = .opened then Phase.header else .inside) = .opened at hopened
      split at hopened <;> cases hopened
    · change (if place.phase = .opened then Phase.header else .inside) = .header at hheader
      split at hheader
      · rename_i hopened
        -- the scope opened just before is that of a function, and has no names
        obtain ⟨n, outer, hold, hlast, hfunction, hnone⟩ := h.opened hopened
        rw [hlast] at hids hnext hlisted
        rw [hold] at hids
        refine ⟨n, outer, hids, hnext, ?_, hlisted, fun d hd => ?_⟩
        · refine (ScopeTree.kind?_add _ _ _ _).trans ?_
          rw [hlast, if_neg (Nat.ne_of_lt (Nat.lt_succ_self n)), hfunction]
        · rw [listed_enter, hnone] at hd
          exact absurd hd List.not_mem_nil
      · cases hheader

theorem Stands.leave (h : live.Stands place) : live.leave.Stands (place.step .leave) := by
  refine ⟨h.kept.leave, ?_, ?_, ?_⟩
  · change live.chain.tail.map (·.kind) = place.kinds.tail
    rw [← h.kinds, List.map_tail]
    rfl
  · exact fun hopened => by cases hopened
  · exact fun hheader => by cases hheader

/-- A declaration that is not made in the innermost scope leaves the phase as
it is. -/
theorem Stands.declare (h : live.Stands place) {decl : Declaration} {phase : Phase}
    (hkept : (live.declare decl).Kept) (hid : decl.id = live.declarations.length)
    (hscope : decl.scope ∈ live.chain.ids)
    (hphase : phase = .inside ∨ phase = place.phase ∧ decl.isHost = false ∧
      live.chain.ids.head? ≠ some decl.scope) :
    (live.declare decl).Stands ⟨place.kinds, phase⟩ := by
  have hids : (live.declare decl).chain.ids = live.chain.ids := Chain.ids_bindAt _
  have hnext : (live.declare decl).tree.nextId = live.tree.nextId :=
    ScopeTree.nextId_addDeclaration _ _ _
  have hkind : ∀ scope, (live.declare decl).tree.kind? scope = live.tree.kind? scope :=
    fun scope => ScopeTree.kind?_addDeclaration _ _ _ scope
  have hlisted := listed_declare h.kept.coupled hid (h.kept.coupled.opened _ hscope)
  refine ⟨hkept, (Chain.kinds_bindAt _ _ _ _).trans h.kinds, ?_, ?_⟩
  · intro hopened
    rcases hphase with rfl | ⟨rfl, -, hhead⟩
    · cases hopened
    · -- the innermost scope is as empty as before
      obtain ⟨n, outer, hchain, hlast, hfunction, hnone⟩ := h.opened hopened
      have hne : n ≠ decl.scope := by
        rintro rfl
        rw [hchain] at hhead
        exact hhead rfl
      refine ⟨n, outer, hids.trans hchain, hnext.trans hlast, (hkind n).trans hfunction, ?_⟩
      rw [hlisted, if_neg hne, hnone, List.append_nil]
  · intro hheader
    rcases hphase with rfl | ⟨rfl, hhost, hhead⟩
    · cases hheader
    · obtain ⟨n, outer, hchain, hlast, hfunction, hnone, hown⟩ := h.header hheader
      have hne : n + 1 ≠ decl.scope := by
        intro heq
        rw [hchain, heq] at hhead
        exact hhead rfl
      refine ⟨n, outer, hids.trans hchain, hnext.trans hlast, (hkind n).trans hfunction, ?_,
        fun d hd => ?_⟩
      · rw [hlisted, if_neg hne, hnone, List.append_nil]
      · rcases mem_listed_declare h.kept.coupled hid hscope hd with hold | ⟨rfl, -⟩
        · exact hown d hold
        · exact hhost

/-- The scope in which a binder is judged to declare its name. -/
theorem Judged.scope_eq {view : Chain String} {block function : Frame String} {name : String}
    {binding : Binding} {scope : ScopeId}
    (h : Judged live view block function name binding (.declares scope)) :
    scope = if binding.isLexical then block.id else function.id := by
  cases h with
  | lexical hlexical => rw [if_pos hlexical]
  | hoisted hlexical => rw [if_neg (Bool.eq_false_iff.mp hlexical)]
  | parameter => rfl

/-- The nearest function of a block is not the innermost scope. -/
theorem Kept.function_ne_head (h : live.Kept) {n : Nat} {block function : Frame String}
    {rest : Chain String} (hview : live.chain.drop n = block :: rest) (hblock : block.kind = .block)
    (hfunction : Chain.function? (block :: rest) = some function)
    (hkind : function.kind = .function) : live.chain.ids.head? ≠ some function.id := by
  intro hhead
  have hmem : function ∈ live.chain.drop n := by
    rw [hview]
    exact List.mem_of_find?_eq_some hfunction
  obtain ⟨first, others, hchain⟩ : ∃ first others, live.chain = first :: others := by
    cases hchain : live.chain with
    | nil => rw [hchain, List.drop_nil] at hview; cases hview
    | cons first others => exact ⟨first, others, rfl⟩
  rw [hchain] at hhead hmem hview
  cases n with
  | zero =>
    -- the innermost scope is the block itself
    have hfirst := h.framed first (by rw [hchain]; exact List.mem_cons_self)
    have hframed := h.framed function (by rw [hchain]; exact hmem)
    cases hview
    have hsame : block.id = function.id := Option.some_inj.mp hhead
    rw [← hsame, hfirst, hblock, hkind] at hframed
    cases hframed
  | succ n =>
    have horder := h.coupled.order
    rw [hchain] at horder
    have hlt : first.id > function.id :=
      List.rel_of_pairwise_cons horder (List.mem_map_of_mem (List.mem_of_mem_drop hmem))
    exact Nat.ne_of_gt hlt (Option.some_inj.mp hhead)

theorem Stands.bind (h : live.Stands place) {binding : Binding} {name : String} {site : Site}
    (hfits : (ScopeEvent.bind binding name site).Fits place) :
    (live.step (.bind binding name site)).Stands (place.step (.bind binding name site)) := by
  obtain ⟨block, function, rest, hview, hblock, hfunction, hkind⟩ := h.view hfits.1
  obtain ⟨verdict, hjudged, hstep⟩ := h.kept.coupled.bind_spec hview hfunction name site
  have hmem : ∀ frame ∈ block :: rest, frame ∈ live.chain := by
    intro frame hframe
    rw [← hview] at hframe
    exact List.mem_of_mem_drop hframe
  have hblockMem := hmem block List.mem_cons_self
  have hfunctionMem := hmem function (List.mem_of_find?_eq_some hfunction)
  -- a binder in the header keeps the phase, any other ends it
  have hphase : ∀ {p : Prop}, (binding.inHeader = true → p) →
      (place.step (.bind binding name site)).phase = .inside ∨
        (place.step (.bind binding name site)).phase = place.phase ∧ p := by
    intro p hp
    cases hheader : binding.inHeader with
    | true => exact .inr ⟨if_pos hheader, hp hheader⟩
    | false => exact .inl (if_neg (Bool.eq_false_iff.mp hheader))
  cases verdict with
  | clashes clash first =>
    rw [hstep]
    exact h.record ((hphase fun _ => trivial).symm.imp_left And.left) _ _ _
  | declares scope =>
    obtain ⟨hscope, hstep⟩ := hstep
    have hplace := hjudged.scope_eq
    have hkept : (live.declare (live.made binding name site scope block.id)).Kept := by
      refine h.kept.declare rfl hscope ?_ ?_ ?_
      · -- what is bound in blocks is declared in one, all else in a function
        change binding.isLexical = true ↔ live.tree.kind? scope = _
        cases hlexical : binding.isLexical with
        | true =>
          rw [hlexical, if_pos rfl] at hplace
          rw [hplace, h.kept.framed block hblockMem, hblock]
          simp
        | false =>
          rw [hlexical, if_neg Bool.false_ne_true] at hplace
          rw [hplace, h.kept.framed function hfunctionMem, hkind]
          simp
      · intro hhost
        cases hhost
      · exact h.kept.coupled.opened _ (List.mem_map_of_mem hblockMem)
    rw [hstep]
    have hdeclared := h.declare hkept rfl hscope (hphase fun hheader => ⟨rfl, ?_⟩)
    · exact hdeclared.record (.inl rfl) _ _ _
    · change _ ≠ some scope
      rw [hplace, if_neg (Bool.eq_false_iff.mp (Binding.isLexical_of_inHeader hheader))]
      exact h.kept.function_ne_head hview hblock hfunction hkind

/-- A name of the host is declared in the innermost scope, unless it is there. -/
theorem Coupled.predeclare_spec (h : live.Coupled) (name : String) :
    (∃ scope, live.chain.current? = some scope ∧ scope ∈ live.chain.ids ∧
      live.lastIn name scope = none ∧
      live.step (.predeclare name) =
        live.declare ⟨live.declarations.length, name, .var, none, scope, scope⟩) ∨
    live.step (.predeclare name) = live := by
  change (∃ scope, _ ∧ _ ∧ _ ∧ live.predeclare name name = _) ∨ live.predeclare name name = live
  unfold Live.predeclare
  split
  · rename_i scope hscope hnone
    obtain ⟨frame, hhead, rfl⟩ := Option.map_eq_some_iff.mp hscope
    have hmem := List.mem_of_head? hhead
    refine .inl ⟨frame.id, hscope, List.mem_map_of_mem hmem, ?_, ?_⟩
    · rw [Chain.local?, hhead, Option.bind_some, h.local?_eq hmem, Option.map_eq_none_iff] at hnone
      exact hnone
    · dsimp only
      rw [Chain.insert_eq h.nodup hscope]
      rfl
  · exact .inr rfl

theorem Stands.predeclare (h : live.Stands place) {name : String}
    (hfits : (ScopeEvent.predeclare name).Fits place) :
    (live.step (.predeclare name)).Stands (place.step (.predeclare name)) := by
  rcases h.kept.coupled.predeclare_spec name with ⟨scope, hcurrent, hscope, -, hstep⟩ | hstep
  · -- the one scope that is open is a function
    have hfunction : live.tree.kind? scope = some .function := by
      obtain ⟨frame, hhead, rfl⟩ := Option.map_eq_some_iff.mp hcurrent
      have hmem := List.mem_of_head? hhead
      rw [h.kept.framed frame hmem]
      have hkind : frame.kind ∈ live.chain.kinds := List.mem_map_of_mem hmem
      rw [h.kinds, hfits, List.mem_singleton] at hkind
      rw [hkind]
    rw [hstep]
    refine h.declare (h.kept.declare rfl hscope ?_ (fun _ => rfl) ?_) rfl hscope (.inl rfl)
    · rw [hfunction]
      simp [DeclKind.isBlockScoped]
    · exact h.kept.coupled.opened _ hscope
  · rw [hstep]
    exact ⟨h.kept, h.kinds, fun hopened => (by cases hopened), fun hheader => (by cases hheader)⟩

theorem Stands.step (h : live.Stands place) {event : ScopeEvent} (hfits : event.Fits place) :
    (live.step event).Stands (place.step event) := by
  cases event with
  | enter kind => exact h.enter kind
  | leave => exact h.leave
  | predeclare name => exact h.predeclare hfits
  | bind binding name site => exact h.bind hfits
  | use name site =>
    obtain ⟨outcome, hstep⟩ := live.use_spec name site
    rw [hstep]
    exact h.record (.inr rfl) _ _ outcome

theorem stands_start : (start : Live String).Stands ⟨[], .inside⟩ where
  kept := kept_start
  kinds := rfl
  opened := fun h => by cases h
  header := fun h => by cases h

theorem run_stands (h : live.Stands place) {events : List ScopeEvent}
    (horderly : Orderly place events) : (live.run events).Stands (place.run events) := by
  induction events generalizing live place with
  | nil => exact h
  | cons event events ih => exact ih (h.step horderly.1) horderly.2

end Live

end EsFront
