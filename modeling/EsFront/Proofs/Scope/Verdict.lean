/-
The rules for binders, told from what is listed.

While a program is walked, a binder is judged by looking names up in live
scopes. A live scope has the names of the declarations listed in it, so each
rule can be told from the lists: from the last declaration of the name in the
innermost block, in the blocks on the way out, and in the function
(`Live.Judged`). Main statements:

* `Live.Coupled.verdict_spec` — every binder inside a function is judged so;
* `Live.Coupled.bind_spec` — what a binder then does.
-/
import EsFront.Proofs.Scope.Coupling

namespace EsFront

/-- Whether a declaration is one by `let` or `const`. -/
def Declaration.isLetOrConst (d : Declaration) : Bool := d.kind = .lexical || d.kind = .const

theorem Declaration.isBlockScoped_of_isLetOrConst {d : Declaration} (h : d.isLetOrConst = true) :
    d.kind.isBlockScoped = true := by
  rw [isLetOrConst, Bool.or_eq_true, decide_eq_true_eq, decide_eq_true_eq] at h
  rcases h with h | h
  · rw [h]
    rfl
  · rw [h]
    rfl

namespace Live

variable {live : Live String} {view : Chain String} {name : String}

theorem Coupled.declared?_eq (h : live.Coupled) {frame : Frame String} (hframe : frame ∈ live.chain)
    (name : String) : live.declared? frame name = live.lastIn name frame.id := by
  rw [declared?, h.local?_eq hframe]
  cases hlast : live.lastIn name frame.id with
  | none => rfl
  | some d => exact h.get_of_lastIn hlast

/-- What can become of a binder in a block of a function. -/
inductive Judged (live : Live String) (view : Chain String) (block function : Frame String)
    (name : String) : Binding → Verdict → Prop where
  /-- The block has the name. -/
  | repeated {binding : Binding} {first : Declaration} (hlexical : binding.isLexical = true)
      (hblock : live.lastIn name block.id = some first) :
      Judged live view block function name binding (.clashes .redeclaration first)
  /-- The function has the name from this block or one inside it. -/
  | covered {binding : Binding} {first : Declaration} (hlexical : binding.isLexical = true)
      (hblock : live.lastIn name block.id = none)
      (hfunction : live.lastIn name function.id = some first) (hhost : first.isHost = false)
      (hwithin : live.tree.isWithin first.blockScope block.id = true) :
      Judged live view block function name binding (.clashes .conflict first)
  | lexical {binding : Binding} (hlexical : binding.isLexical = true)
      (hblock : live.lastIn name block.id = none)
      (hfunction : ∀ d, live.lastIn name function.id = some d → d.isHost = false →
        live.tree.isWithin d.blockScope block.id = false) :
      Judged live view block function name binding (.declares block.id)
  /-- A block on the way out has the name by `let` or `const`. -/
  | crossed {binding : Binding} {first : Declaration} {frame : Frame String}
      (hlexical : binding.isLexical = false) (hparameter : binding ≠ .parameter)
      (hframe : frame ∈ view.blocks) (hblock : live.lastIn name frame.id = some first)
      (hkind : first.isLetOrConst = true) :
      Judged live view block function name binding (.clashes .conflict first)
  /-- The function has the name. -/
  | merged {binding : Binding} {first : Declaration}
      (hlexical : binding.isLexical = false) (hparameter : binding ≠ .parameter)
      (hblocks : ∀ frame ∈ view.blocks, ∀ d, live.lastIn name frame.id = some d →
        d.isLetOrConst = false)
      (hfunction : live.lastIn name function.id = some first) (hhost : first.isHost = false) :
      Judged live view block function name binding (.clashes .redeclaration first)
  | hoisted {binding : Binding}
      (hlexical : binding.isLexical = false) (hparameter : binding ≠ .parameter)
      (hblocks : ∀ frame ∈ view.blocks, ∀ d, live.lastIn name frame.id = some d →
        d.isLetOrConst = false)
      (hfunction : ∀ d, live.lastIn name function.id = some d → d.isHost = true) :
      Judged live view block function name binding (.declares function.id)
  /-- The function has a parameter of this name. -/
  | parameterRepeated {first : Declaration}
      (hfunction : live.lastIn name function.id = some first) (hkind : first.kind ≠ .function) :
      Judged live view block function name .parameter (.clashes .redeclaration first)
  | parameter (hfunction : ∀ d, live.lastIn name function.id = some d → d.kind = .function) :
      Judged live view block function name .parameter (.declares function.id)

/-- Where a block may declare a name, the function does not have it from inside
the block. -/
theorem Judged.function_free {block function : Frame String} {binding : Binding} {scope : ScopeId}
    (h : Judged live view block function name binding (.declares scope))
    (hlexical : binding.isLexical = true) {d : Declaration}
    (hlast : live.lastIn name function.id = some d) (hhost : d.isHost = false) :
    live.tree.isWithin d.blockScope block.id = false := by
  cases h with
  | lexical _ _ hfunction => exact hfunction d hlast hhost
  | hoisted hnot =>
    rw [hlexical] at hnot
    cases hnot
  | parameter => cases hlexical

section rules

variable {block function : Frame String} {rest : Chain String}

theorem Coupled.lexical_spec (h : live.Coupled)
    (hview : ∀ frame ∈ block :: rest, frame ∈ live.chain)
    (hfunction : Chain.function? (block :: rest) = some function) {binding : Binding}
    (hlexical : binding.isLexical = true) :
    ∃ verdict, live.lexicalVerdict (block :: rest) name = some verdict ∧
      Judged live (block :: rest) block function name binding verdict := by
  have hmem : function ∈ live.chain := hview _ (List.mem_of_find?_eq_some hfunction)
  unfold lexicalVerdict
  dsimp only
  rw [h.declared?_eq (hview _ List.mem_cons_self), hfunction, Option.bind_some,
    h.declared?_eq hmem]
  cases hblock : live.lastIn name block.id with
  | some first => exact ⟨_, rfl, .repeated hlexical hblock⟩
  | none =>
    -- the block is free: what matters is from where the function has the name
    dsimp only
    cases hhoisted : live.lastIn name function.id with
    | none =>
      refine ⟨_, rfl, .lexical hlexical hblock fun d hd => ?_⟩
      rw [hhoisted] at hd
      cases hd
    | some first =>
      rw [Option.filter_some]
      by_cases hconflict : first.isHost = false ∧
          live.tree.isWithin first.blockScope block.id = true
      · rw [if_pos (by rw [hconflict.1, hconflict.2]; rfl)]
        exact ⟨_, rfl, .covered hlexical hblock hhoisted hconflict.1 hconflict.2⟩
      · have hfalse : ¬ (!first.isHost && live.tree.isWithin first.blockScope block.id) = true := by
          rw [Bool.and_eq_true, Bool.not_eq_true']
          exact hconflict
        rw [if_neg hfalse]
        refine ⟨_, rfl, .lexical hlexical hblock fun d hd hhost => ?_⟩
        rw [hhoisted, Option.some_inj] at hd
        subst hd
        exact Bool.eq_false_iff.mpr fun hwithin => hconflict ⟨hhost, hwithin⟩

theorem Coupled.hoisted_spec (h : live.Coupled) (hview : ∀ frame ∈ view, frame ∈ live.chain)
    (hfunction : view.function? = some function) {binding : Binding}
    (hlexical : binding.isLexical = false) (hparameter : binding ≠ .parameter) :
    ∃ verdict, live.hoistedVerdict view name = some verdict ∧
      Judged live view block function name binding verdict := by
  have hmem : function ∈ live.chain := hview _ (List.mem_of_find?_eq_some hfunction)
  have hin : ∀ frame ∈ view.blocks, live.declared? frame name = live.lastIn name frame.id :=
    fun frame hframe => h.declared?_eq (hview _ ((List.takeWhile_sublist _).subset hframe)) name
  unfold hoistedVerdict
  dsimp only
  rw [hfunction, Option.map_some, h.declared?_eq hmem]
  -- the blocks on the way out come first, the function last
  cases hshadow : view.blocks.findSome? fun frame =>
      (live.declared? frame name).filter fun d => d.kind = .lexical || d.kind = .const with
  | some first =>
    obtain ⟨frame, hframe, hfirst⟩ := List.exists_of_findSome?_eq_some hshadow
    rw [hin frame hframe, Option.filter_eq_some_iff] at hfirst
    exact ⟨_, rfl, .crossed hlexical hparameter hframe hfirst.1 hfirst.2⟩
  | none =>
    have hblocks : ∀ frame ∈ view.blocks, ∀ d, live.lastIn name frame.id = some d →
        d.isLetOrConst = false := by
      intro frame hframe d hd
      have hnone := List.findSome?_eq_none_iff.mp hshadow frame hframe
      rw [hin frame hframe, hd, Option.filter_some] at hnone
      split at hnone
      · cases hnone
      · rename_i hkind
        exact Bool.eq_false_iff.mpr hkind
    dsimp only
    cases hhoisted : live.lastIn name function.id with
    | none =>
      refine ⟨_, rfl, .hoisted hlexical hparameter hblocks fun d hd => ?_⟩
      rw [hhoisted] at hd
      cases hd
    | some first =>
      rw [Option.filter_some]
      cases hhost : first.isHost with
      | false => exact ⟨_, rfl, .merged hlexical hparameter hblocks hhoisted hhost⟩
      | true =>
        refine ⟨_, rfl, .hoisted hlexical hparameter hblocks fun d hd => ?_⟩
        rw [hhoisted, Option.some_inj] at hd
        rw [← hd, hhost]

theorem Coupled.parameter_spec (h : live.Coupled) (hview : ∀ frame ∈ view, frame ∈ live.chain)
    (hfunction : view.function? = some function) :
    ∃ verdict, live.parameterVerdict view name = some verdict ∧
      Judged live view block function name .parameter verdict := by
  have hmem : function ∈ live.chain := hview _ (List.mem_of_find?_eq_some hfunction)
  unfold parameterVerdict
  rw [hfunction, Option.map_some, h.declared?_eq hmem]
  cases hfound : live.lastIn name function.id with
  | none =>
    refine ⟨_, rfl, .parameter fun d hd => ?_⟩
    rw [hfound] at hd
    cases hd
  | some first =>
    rw [Option.filter_some]
    by_cases hkind : first.kind = .function
    · rw [if_neg (by simp [hkind])]
      refine ⟨_, rfl, .parameter fun d hd => ?_⟩
      rw [hfound, Option.some_inj] at hd
      rw [← hd, hkind]
    · rw [if_pos (by simp [hkind])]
      exact ⟨_, rfl, .parameterRepeated hfound hkind⟩

theorem Coupled.verdict_spec (h : live.Coupled)
    (hview : ∀ frame ∈ block :: rest, frame ∈ live.chain)
    (hfunction : Chain.function? (block :: rest) = some function) (binding : Binding)
    (name : String) : ∃ verdict, live.verdict binding (block :: rest) name = some verdict ∧
      Judged live (block :: rest) block function name binding verdict := by
  by_cases hparameter : binding = .parameter
  · subst hparameter
    exact h.parameter_spec hview hfunction
  · -- the rule for all others depends on where they are bound only
    have hverdict : live.verdict binding (block :: rest) name =
        if binding.isLexical then live.lexicalVerdict (block :: rest) name
          else live.hoistedVerdict (block :: rest) name := by
      cases binding <;> first | rfl | exact absurd rfl hparameter
    rw [hverdict]
    cases hlexical : binding.isLexical with
    | true => exact h.lexical_spec hview hfunction hlexical
    | false => exact h.hoisted_spec hview hfunction hlexical hparameter

/-- The declaration that a binder makes in a scope. -/
def made (live : Live String) (binding : Binding) (name : String) (site : Site)
    (scope blockScope : ScopeId) : Declaration :=
  ⟨live.declarations.length, name, binding.kind, some site, scope, blockScope⟩

/-- A binder that is judged to declare its name makes a declaration. -/
theorem Coupled.bind_declares (h : live.Coupled) {binding : Binding}
    (hview : live.chain.drop binding.skipped = block :: rest) {scope : ScopeId}
    (hverdict : live.verdict binding (block :: rest) name = some (.declares scope)) (site : Site) :
    scope ∈ live.chain.ids ∧
      live.step (.bind binding name site) =
        (live.declare (live.made binding name site scope block.id)).record name site
          (.declared (live.made binding name site scope block.id)) := by
  have hcurrent : Chain.current? (block :: rest) = some block.id := rfl
  rw [← hview] at hverdict
  obtain ⟨hscope, hbound⟩ := bound_eq h.nodup hverdict live.declarations.length
  refine ⟨hscope, ?_⟩
  change live.bind name binding name site = _
  unfold Live.bind
  dsimp only
  rw [hverdict, hview, hcurrent]
  dsimp only
  rw [hbound]
  rfl

/-- A binder that is judged to clash is recorded only. -/
theorem bind_clashes {binding : Binding}
    (hview : live.chain.drop binding.skipped = block :: rest) {clash : Clash} {first : Declaration}
    (hverdict : live.verdict binding (block :: rest) name = some (.clashes clash first))
    (site : Site) : live.step (.bind binding name site) =
      live.record name site (.merged clash binding.kind first) := by
  have hcurrent : Chain.current? (block :: rest) = some block.id := rfl
  change live.bind name binding name site = _
  unfold Live.bind
  dsimp only
  rw [hview, hverdict, hcurrent]

/-- A binder makes a declaration, or is merged into the one it clashes with. -/
theorem Coupled.bind_spec (h : live.Coupled) {binding : Binding}
    (hview : live.chain.drop binding.skipped = block :: rest)
    (hfunction : Chain.function? (block :: rest) = some function) (name : String) (site : Site) :
    ∃ verdict, Judged live (block :: rest) block function name binding verdict ∧
      match verdict with
      | .declares scope => scope ∈ live.chain.ids ∧
          live.step (.bind binding name site) =
            (live.declare (live.made binding name site scope block.id)).record name site
              (.declared (live.made binding name site scope block.id))
      | .clashes clash first => live.step (.bind binding name site) =
          live.record name site (.merged clash binding.kind first) := by
  have hmem : ∀ frame ∈ block :: rest, frame ∈ live.chain := by
    intro frame hframe
    rw [← hview] at hframe
    exact List.mem_of_mem_drop hframe
  obtain ⟨verdict, hverdict, hjudged⟩ := h.verdict_spec hmem hfunction binding name
  refine ⟨verdict, hjudged, ?_⟩
  cases verdict with
  | declares scope => exact h.bind_declares hview hverdict site
  | clashes clash first => exact bind_clashes hview hverdict site

end rules

end Live

end EsFront
