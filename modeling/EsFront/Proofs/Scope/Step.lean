/-
What one event does to the live scopes.

However a binder binds its name, a declaration is made in one live scope, and
the frame of that scope learns the name (`Live.declare`). So an event opens or
closes a scope, makes one declaration, or leaves scopes and declarations as
they are; an identifier leaves one record besides. `Live.step_spec` says this
once for all events (`Live.Step`), and later proofs go by its cases.
-/
import EsFront.Scope.Resolver

namespace EsFront

/-- Binds a name in the scope with the given number. -/
def Chain.bindAt (chain : Chain String) (scope : ScopeId) (name : String) (decl : DeclId) :
    Chain String :=
  chain.map fun frame => if frame.id = scope then frame.insert name decl else frame

/-- The numbers of the live scopes, innermost first. -/
def Chain.ids (chain : Chain String) : List ScopeId := chain.map (·.id)

namespace Chain

variable {chain : Chain String} {name : String} {decl : DeclId}

theorem ids_bindAt (scope : ScopeId) : (chain.bindAt scope name decl).ids = chain.ids := by
  rw [ids, ids, bindAt, List.map_map]
  refine List.map_congr_left ?_
  intro frame _
  rw [Function.comp_apply]
  split <;> rfl

theorem bindAt_of_not_mem {scope : ScopeId} (h : scope ∉ chain.ids) :
    chain.bindAt scope name decl = chain := by
  refine (List.map_congr_left ?_).trans (List.map_id _)
  intro frame hframe
  rw [if_neg]
  · rfl
  · rintro rfl
    exact h (List.mem_map_of_mem hframe)

/-- The first scope learns a name that is bound in it. -/
theorem bindAt_cons (frame : Frame String) (rest : Chain String) (h : frame.id ∉ rest.ids) :
    bindAt (frame :: rest) frame.id name decl = frame.insert name decl :: rest := by
  rw [bindAt, List.map_cons, if_pos rfl]
  congr 1
  exact bindAt_of_not_mem h

theorem insert_eq (h : chain.ids.Nodup) {scope : ScopeId} (hscope : chain.current? = some scope) :
    chain.insert name decl = chain.bindAt scope name decl := by
  cases chain with
  | nil => cases hscope
  | cons frame rest =>
    cases hscope
    rw [ids, List.map_cons, List.nodup_cons] at h
    rw [bindAt_cons frame rest h.1]
    rfl

theorem insertFunction_eq (h : chain.ids.Nodup) {frame : Frame String}
    (hframe : chain.function? = some frame) :
    chain.insertFunction name decl = chain.bindAt frame.id name decl := by
  induction chain with
  | nil => cases hframe
  | cons first rest ih =>
    rw [ids, List.map_cons, List.nodup_cons] at h
    rw [insertFunction]
    rw [function?, List.find?_cons] at hframe
    by_cases hkind : first.kind = .function
    · rw [decide_eq_true hkind] at hframe
      cases hframe
      rw [if_pos hkind, bindAt_cons _ rest h.1]
    · rw [decide_eq_false hkind] at hframe
      have hmem : frame ∈ rest := List.mem_of_find?_eq_some hframe
      have hne : first.id ≠ frame.id := by
        intro heq
        refine h.1 ?_
        rw [heq]
        exact List.mem_map_of_mem hmem
      rw [if_neg hkind, ih h.2 hframe, bindAt, bindAt, List.map_cons, if_neg hne]

theorem kind_of_mem_blocks {frame : Frame String} (h : frame ∈ chain.blocks) :
    frame.kind = .block := by
  simpa using List.all_eq_true.1 List.all_takeWhile frame h

theorem kind_of_function? {frame : Frame String} (h : chain.function? = some frame) :
    frame.kind = .function := by
  have hfound := List.find?_some h
  exact of_decide_eq_true hfound

/-- Binding among the outer scopes leaves the inner ones alone. -/
theorem take_append_bindAt (h : chain.ids.Nodup) (n : Nat) {scope : ScopeId}
    (hscope : scope ∈ (Chain.ids (chain.drop n))) :
    chain.take n ++ Chain.bindAt (chain.drop n) scope name decl
      = chain.bindAt scope name decl := by
  have hinner : Chain.bindAt (chain.take n) scope name decl = chain.take n := by
    refine bindAt_of_not_mem ?_
    intro hmem
    have hsplit : chain.ids = Chain.ids (chain.take n) ++ Chain.ids (chain.drop n) := by
      rw [ids, ids, ids, ← List.map_append, List.take_append_drop]
    rw [hsplit, List.nodup_append] at h
    exact h.2.2 scope hmem scope hscope rfl
  have hsplit : chain.bindAt scope name decl
      = Chain.bindAt (chain.take n) scope name decl
        ++ Chain.bindAt (chain.drop n) scope name decl := by
    rw [bindAt, bindAt, bindAt, ← List.map_append, List.take_append_drop]
  rw [hsplit, hinner]

end Chain

namespace Live

variable {live : Live String} {view : Chain String} {name : String} {scope : ScopeId}

/-! ### Binders -/

theorem lexicalVerdict_declares (h : live.lexicalVerdict view name = some (.declares scope)) :
    view.current? = some scope := by
  cases view with
  | nil => cases h
  | cons frame rest =>
    unfold lexicalVerdict at h
    dsimp only at h
    split at h
    · cases h
    · split at h
      · cases h
      · cases h
        rfl

theorem hoistedVerdict_declares (h : live.hoistedVerdict view name = some (.declares scope)) :
    ∃ frame, view.function? = some frame ∧ frame.id = scope := by
  unfold hoistedVerdict at h
  dsimp only at h
  split at h
  · cases h
  · obtain ⟨frame, hframe, hverdict⟩ := Option.map_eq_some_iff.mp h
    split at hverdict
    · cases hverdict
    · cases hverdict
      exact ⟨frame, hframe, rfl⟩

theorem parameterVerdict_declares (h : live.parameterVerdict view name = some (.declares scope)) :
    ∃ frame, view.function? = some frame ∧ frame.id = scope := by
  obtain ⟨frame, hframe, hverdict⟩ := Option.map_eq_some_iff.mp h
  split at hverdict
  · cases hverdict
  · cases hverdict
    exact ⟨frame, hframe, rfl⟩

/-- A name is declared in the innermost scope or in that of the function. -/
theorem verdict_declares {binding : Binding}
    (h : live.verdict binding view name = some (.declares scope)) :
    (binding.isLexical = true ∧ view.current? = some scope) ∨
      (binding.isLexical = false ∧ ∃ frame, view.function? = some frame ∧ frame.id = scope) := by
  have hrule : ∀ {b : Binding}, (if b.isLexical then live.lexicalVerdict view name
        else live.hoistedVerdict view name) = some (.declares scope) →
      (b.isLexical = true ∧ view.current? = some scope) ∨
        (b.isLexical = false ∧ ∃ frame, view.function? = some frame ∧ frame.id = scope) := by
    intro b h
    cases hlexical : b.isLexical with
    | true =>
      rw [hlexical, if_pos rfl] at h
      exact .inl ⟨rfl, lexicalVerdict_declares h⟩
    | false =>
      rw [hlexical, if_neg Bool.false_ne_true] at h
      exact .inr ⟨rfl, hoistedVerdict_declares h⟩
  cases binding with
  | parameter => exact .inr ⟨rfl, parameterVerdict_declares h⟩
  | declarator kind => exact hrule h
  | functionName => exact hrule h
  | ownName => exact hrule h
  | catchParameter => exact hrule h

/-- Where a binder may declare its name, there it is bound. -/
theorem bound_eq {binding : Binding} (hnodup : live.chain.ids.Nodup)
    (h : live.verdict binding (live.chain.drop binding.skipped) name = some (.declares scope))
    (decl : DeclId) :
    scope ∈ live.chain.ids ∧
      bound binding live.chain name decl = live.chain.bindAt scope name decl := by
  have hsub : (Chain.ids (live.chain.drop binding.skipped)).Sublist live.chain.ids :=
    (List.drop_sublist _ _).map _
  have hview := hsub.nodup hnodup
  have hplace : scope ∈ Chain.ids (live.chain.drop binding.skipped) ∧
      (if binding.isLexical then Chain.insert (live.chain.drop binding.skipped) name decl
        else Chain.insertFunction (live.chain.drop binding.skipped) name decl)
        = Chain.bindAt (live.chain.drop binding.skipped) scope name decl := by
    rcases verdict_declares h with ⟨hlexical, hscope⟩ | ⟨hlexical, frame, hframe, rfl⟩
    · rw [hlexical, if_pos rfl]
      refine ⟨?_, Chain.insert_eq hview hscope⟩
      obtain ⟨frame, hhead, rfl⟩ := Option.map_eq_some_iff.mp hscope
      exact List.mem_map_of_mem (List.mem_of_head? hhead)
    · rw [hlexical, if_neg Bool.false_ne_true]
      refine ⟨?_, Chain.insertFunction_eq hview hframe⟩
      exact List.mem_map_of_mem (List.mem_of_find?_eq_some hframe)
  refine ⟨hsub.subset hplace.1, ?_⟩
  rw [bound, hplace.2, Chain.take_append_bindAt hnodup _ hplace.1]

/-! ### Steps -/

/-- Makes a declaration in a live scope. -/
def declare (live : Live String) (decl : Declaration) : Live String :=
  live.addDeclaration decl (live.chain.bindAt decl.scope decl.name decl.id)

/-- A use leaves a record, and nothing else. -/
theorem use_eq_record (live : Live String) (found : Option DeclId) (name : String) (site : Site) :
    ∃ outcome, live.use found name site = live.record name site outcome := by
  unfold Live.use
  split
  · exact ⟨_, rfl⟩
  · exact ⟨_, rfl⟩

theorem use_spec (live : Live String) (name : String) (site : Site) :
    ∃ outcome, live.step (.use name site) = live.record name site outcome :=
  use_eq_record live (live.chain.lookup name) name site

/-- What an event can do. -/
inductive Step (live : Live String) : ScopeEvent → Live String → Prop where
  | enter (kind : ScopeKind) : Step live (.enter kind) (live.enter kind)
  | leave : Step live .leave live.leave
  | predeclared {name : String} {decl : Declaration} (hid : decl.id = live.declarations.length)
      (hsite : decl.site = none) (hscope : decl.scope ∈ live.chain.ids) :
      Step live (.predeclare name) (live.declare decl)
  /-- The name was there already. -/
  | known {name : String} : Step live (.predeclare name) live
  | declared {binding : Binding} {name : String} {site : Site} {decl : Declaration}
      (hid : decl.id = live.declarations.length) (hsite : decl.site = some site)
      (hscope : decl.scope ∈ live.chain.ids) :
      Step live (.bind binding name site)
        ((live.declare decl).record name site (.declared decl))
  | merged {binding : Binding} {name : String} {site : Site} (clash : Clash)
      (first : Declaration) :
      Step live (.bind binding name site)
        (live.record name site (.merged clash binding.kind first))
  /-- There is no scope to declare the name in. -/
  | lost {binding : Binding} {name : String} {site : Site} :
      Step live (.bind binding name site) live
  | use {name : String} {site : Site} :
      Step live (.use name site) (live.use (live.chain.lookup name) name site)

theorem step_spec (hnodup : live.chain.ids.Nodup) (event : ScopeEvent) :
    Step live event (live.step event) := by
  cases event with
  | enter kind => exact .enter kind
  | leave => exact .leave
  | predeclare name =>
    change Step live _ (live.predeclare name name)
    unfold predeclare
    split
    · rename_i scope hscope _
      dsimp only
      rw [Chain.insert_eq hnodup hscope]
      refine .predeclared rfl rfl ?_
      obtain ⟨frame, hhead, rfl⟩ := Option.map_eq_some_iff.mp hscope
      exact List.mem_map_of_mem (List.mem_of_head? hhead)
    · exact .known
  | bind binding name site =>
    change Step live _ (live.bind name binding name site)
    unfold bind
    dsimp only
    split
    · rename_i blockScope scope _ hverdict
      obtain ⟨hscope, hbound⟩ := bound_eq hnodup hverdict live.declarations.length
      rw [hbound]
      exact .declared rfl rfl hscope
    · rename_i clash first _
      exact .merged clash first
    · exact .lost
  | use name site => exact .use

/-- What opening and closing scopes, declaring and recording keep, every event keeps. -/
theorem step_keeps {P : Live String → Prop} (hnodup : live.chain.ids.Nodup) (hlive : P live)
    (henter : ∀ kind, P (live.enter kind)) (hleave : P live.leave)
    (hdeclare : ∀ decl : Declaration, decl.id = live.declarations.length →
      decl.scope ∈ live.chain.ids → P (live.declare decl))
    (hrecord : ∀ next, P next → ∀ name site outcome, P (next.record name site outcome))
    (event : ScopeEvent) : P (live.step event) := by
  have hstep := step_spec hnodup event
  generalize live.step event = next at hstep ⊢
  cases hstep with
  | enter kind => exact henter kind
  | leave => exact hleave
  | predeclared hid _ hscope => exact hdeclare _ hid hscope
  | known | lost => exact hlive
  | declared hid _ hscope => exact hrecord _ (hdeclare _ hid hscope) _ _ _
  | merged clash first => exact hrecord _ hlive _ _ _
  | use =>
    obtain ⟨outcome, huse⟩ := use_eq_record live _ _ _
    rw [huse]
    exact hrecord _ hlive _ _ outcome

end Live

end EsFront
