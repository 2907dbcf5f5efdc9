/-
The live scopes and what remains of them.

While a program is walked, names are looked up in a chain of frames; what
remains is the tree of scopes with the declarations listed in each. The two
tell the same story: the chain is the way out of the current scope, and a frame
has the names of the declarations listed in its scope, the last one first
(`Live.Coupled`). Every event keeps this so (`Live.Coupled.step`), and only adds
to the tree, the lists and the records (`Live.Grows`). Main statements:

* `Live.Coupled.lookup_eq` — a lookup in the chain is a search in the tree;
* `Live.run_coupled`, `Live.run_grows` — what holds along every walk.
-/
import Mathlib.Data.List.Basic
import EsFront.Proofs.Scope.Step

namespace EsFront

/-! ### Listed declarations -/

/-- The declarations listed in a scope, in order. -/
def ScopeTree.listed (tree : ScopeTree) (declarations : List Declaration) (scope : ScopeId) :
    List Declaration :=
  (((tree.get? scope).map (·.declarations)).getD []).filterMap (declarations[·]?)

namespace ScopeTree

variable (tree : ScopeTree)

theorem get?_add (kind : ScopeKind) (parent : Option ScopeId) (scope : ScopeId) :
    (tree.add kind parent).get? scope
      = if scope = tree.nextId then some ⟨kind, parent, []⟩ else tree.get? scope := by
  rw [get?, add, nextId]
  rcases Nat.lt_trichotomy scope tree.scopes.length with hlt | rfl | hgt
  · rw [List.getElem?_append_left hlt, if_neg (Nat.ne_of_lt hlt), get?]
  · rw [List.getElem?_concat_length, if_pos rfl]
  · have hlength : (tree.scopes ++ [(⟨kind, parent, []⟩ : ScopeRecord)]).length ≤ scope := by
      rw [List.length_append, List.length_singleton]
      exact hgt
    rw [List.getElem?_eq_none hlength, if_neg (Nat.ne_of_gt hgt), get?,
      List.getElem?_eq_none (Nat.le_of_lt hgt)]

theorem get?_addDeclaration (scope : ScopeId) (decl : DeclId) (other : ScopeId) :
    (tree.addDeclaration scope decl).get? other
      = (tree.get? other).map fun s =>
          if other = scope then { s with declarations := s.declarations ++ [decl] } else s := by
  rw [get?, addDeclaration, List.getElem?_modify]
  by_cases h : scope = other
  · subst h
    simp only [if_true]
    rfl
  · have h' : ¬ other = scope := fun heq => h heq.symm
    simp only [h, h', if_false]
    rw [← get?]
    cases tree.get? other <;> rfl

theorem parent?_addDeclaration (scope : ScopeId) (decl : DeclId) (other : ScopeId) :
    (tree.addDeclaration scope decl).parent? other = tree.parent? other := by
  rw [parent?, parent?, get?_addDeclaration]
  cases tree.get? other with
  | none => rfl
  | some record =>
    rw [Option.map_some, Option.bind_some, Option.bind_some]
    split <;> rfl

theorem parent?_add (kind : ScopeKind) (parent : Option ScopeId) {scope : ScopeId}
    (h : scope < tree.nextId) : (tree.add kind parent).parent? scope = tree.parent? scope := by
  rw [parent?, parent?, get?_add, if_neg (Nat.ne_of_lt h)]

theorem get?_eq_none {scope : ScopeId} (h : tree.nextId ≤ scope) : tree.get? scope = none :=
  List.getElem?_eq_none h

/-- The way out of a scope depends only on the scopes up to it. -/
theorem ancestors_congr {tree tree' : ScopeTree} {scope : ScopeId}
    (h : ∀ s ≤ scope, tree'.parent? s = tree.parent? s) :
    tree'.ancestors scope = tree.ancestors scope := by
  induction scope using Nat.strongRecOn with
  | _ scope ih =>
    rw [ancestors, ancestors, h scope (Nat.le_refl _)]
    congr 1
    split
    · rename_i parent _
      by_cases hlt : parent < scope
      · rw [if_pos hlt, if_pos hlt]
        exact ih parent hlt fun s hs => h s (Nat.le_trans hs (Nat.le_of_lt hlt))
      · rw [if_neg hlt, if_neg hlt]
    · rfl

/-- A list of scopes, each of which lies in the next. -/
def Linked (tree : ScopeTree) : List ScopeId → Prop
  | [] => True
  | scope :: rest => tree.parent? scope = rest.head? ∧ tree.Linked rest

theorem Linked.congr {tree tree' : ScopeTree} : ∀ {chain : List ScopeId},
    (∀ s ∈ chain, tree'.parent? s = tree.parent? s) → tree.Linked chain → tree'.Linked chain := by
  intro chain
  induction chain with
  | nil =>
    intro _ _
    trivial
  | cons scope rest ih =>
    intro h hlinked
    refine ⟨(h scope List.mem_cons_self).trans hlinked.1, ?_⟩
    exact ih (fun s hs => h s (List.mem_cons_of_mem _ hs)) hlinked.2

theorem Linked.drop {tree : ScopeTree} {chain : List ScopeId} (h : tree.Linked chain) (n : Nat) :
    tree.Linked (chain.drop n) := by
  induction n generalizing chain with
  | zero => exact h
  | succ n ih =>
    cases chain with
    | nil => exact h
    | cons scope rest => exact ih h.2

/-- Linked scopes in falling order are the way out of the first. -/
theorem Linked.ancestors_eq {tree : ScopeTree} : ∀ {rest : List ScopeId} {scope : ScopeId},
    tree.Linked (scope :: rest) → (scope :: rest).Pairwise (· > ·) →
      tree.ancestors scope = scope :: rest := by
  intro rest
  induction rest with
  | nil =>
    intro scope hlinked _
    rw [ancestors, hlinked.1]
    rfl
  | cons parent rest ih =>
    intro scope hlinked horder
    have hlt : parent < scope := List.rel_of_pairwise_cons horder List.mem_cons_self
    rw [ancestors, hlinked.1, List.head?_cons]
    dsimp only
    rw [if_pos hlt, ih hlinked.2 horder.tail]

end ScopeTree

namespace Live

/-- The declarations listed in a scope so far. -/
def listed (live : Live String) (scope : ScopeId) : List Declaration :=
  live.tree.listed live.declarations scope

/-- The live scopes and what remains of them tell the same story. -/
structure Coupled (live : Live String) : Prop where
  /-- Inner scopes were opened later. -/
  order : live.chain.ids.Pairwise (· > ·)
  opened : ∀ scope ∈ live.chain.ids, scope < live.tree.nextId
  linked : live.tree.Linked live.chain.ids
  names : ∀ frame ∈ live.chain,
    frame.names = (live.listed frame.id).reverse.map fun d : Declaration => (d.name, d.id)
  ids : ∀ (i : Nat) (d : Declaration), live.declarations[i]? = some d → d.id = i
  known : ∀ scope record, live.tree.get? scope = some record →
    ∀ id ∈ record.declarations, id < live.declarations.length

theorem Coupled.nodup {live : Live String} (h : live.Coupled) : live.chain.ids.Nodup :=
  h.order.imp Nat.ne_of_gt

theorem coupled_start : (start : Live String).Coupled where
  order := List.Pairwise.nil
  opened := fun _ h => absurd h List.not_mem_nil
  linked := trivial
  names := fun _ h => absurd h List.not_mem_nil
  ids := fun _ _ h => nomatch h
  known := fun _ _ h => nomatch h

section listed

variable {live : Live String}

theorem listed_enter (kind : ScopeKind) (scope : ScopeId) :
    (live.enter kind).listed scope = live.listed scope := by
  rw [listed, listed, ScopeTree.listed, ScopeTree.listed]
  change (((live.tree.add kind live.chain.current?).get? scope).map _ |>.getD []).filterMap _ = _
  rw [ScopeTree.get?_add]
  by_cases h : scope = live.tree.nextId
  · rw [if_pos h, live.tree.get?_eq_none (Nat.le_of_eq h.symm)]
    rfl
  · rw [if_neg h]
    rfl

/-- A declaration is listed last in its own scope, and in no other. -/
theorem listed_declare (h : live.Coupled) {decl : Declaration}
    (hid : decl.id = live.declarations.length) (hscope : decl.scope < live.tree.nextId)
    (scope : ScopeId) :
    (live.declare decl).listed scope
      = live.listed scope ++ if scope = decl.scope then [decl] else [] := by
  have hold : ∀ {record : ScopeRecord}, live.tree.get? scope = some record →
      record.declarations.filterMap ((live.declarations ++ [decl])[·]?)
        = record.declarations.filterMap (live.declarations[·]?) := by
    intro record hrecord
    refine List.filterMap_congr ?_
    intro id hmem
    exact List.getElem?_append_left (h.known scope record hrecord id hmem)
  rw [listed, listed, ScopeTree.listed, ScopeTree.listed]
  change (((live.tree.addDeclaration decl.scope decl.id).get? scope).map _ |>.getD []).filterMap
    ((live.declarations ++ [decl])[·]?) = _
  rw [ScopeTree.get?_addDeclaration]
  cases hget : live.tree.get? scope with
  | none =>
    have hne : scope ≠ decl.scope := by
      rintro rfl
      rw [ScopeTree.get?, List.getElem?_eq_none_iff] at hget
      exact absurd hscope (Nat.not_lt.mpr hget)
    rw [if_neg hne]
    rfl
  | some record =>
    rw [Option.map_some, Option.map_some, Option.map_some, Option.getD_some, Option.getD_some]
    by_cases heq : scope = decl.scope
    · rw [if_pos heq, if_pos heq]
      dsimp only
      rw [List.filterMap_append, hold hget, hid]
      simp
    · rw [if_neg heq, if_neg heq, List.append_nil, hold hget]

end listed

/-! ### Every event keeps the coupling -/

section steps

variable {live : Live String}

theorem record_chain (name : String) (site : Site) (outcome : Outcome) :
    (live.record name site outcome).chain = live.chain := by
  unfold record
  split <;> rfl

theorem record_tree (name : String) (site : Site) (outcome : Outcome) :
    (live.record name site outcome).tree = live.tree := by
  unfold record
  split <;> rfl

theorem record_declarations (name : String) (site : Site) (outcome : Outcome) :
    (live.record name site outcome).declarations = live.declarations := by
  unfold record
  split <;> rfl

theorem use_declarations (name : String) (site : Site) :
    (live.step (.use name site)).declarations = live.declarations := by
  obtain ⟨outcome, hstep⟩ := live.use_spec name site
  rw [hstep, record_declarations]

theorem Coupled.record (h : live.Coupled) (name : String) (site : Site) (outcome : Outcome) :
    (live.record name site outcome).Coupled := by
  unfold Live.record
  split
  · exact h
  · exact ⟨h.order, h.opened, h.linked, h.names, h.ids, h.known⟩

theorem Coupled.leave (h : live.Coupled) : live.leave.Coupled := by
  have hsub : live.leave.chain.Sublist live.chain := List.tail_sublist _
  have hids : live.leave.chain.ids.Sublist live.chain.ids := hsub.map _
  refine ⟨h.order.sublist hids, fun scope hs => h.opened scope (hids.subset hs), ?_,
    fun frame hframe => h.names frame (hsub.subset hframe), h.ids, h.known⟩
  have hlinked := h.linked
  change live.tree.Linked (Chain.ids live.chain.tail)
  cases hchain : live.chain with
  | nil => trivial
  | cons frame rest =>
    rw [hchain] at hlinked
    exact hlinked.2

theorem Coupled.enter (h : live.Coupled) (kind : ScopeKind) : (live.enter kind).Coupled := by
  have hids : (live.enter kind).chain.ids = live.tree.nextId :: live.chain.ids := rfl
  have hnext : (live.enter kind).tree.nextId = live.tree.nextId + 1 := by
    change (live.tree.scopes ++ _).length = _
    rw [List.length_append]
    rfl
  refine ⟨?_, ?_, ?_, ?_, h.ids, ?_⟩
  · rw [hids]
    exact List.Pairwise.cons h.opened h.order
  · rw [hids, hnext, List.forall_mem_cons]
    exact ⟨Nat.lt_succ_self _, fun scope hs => Nat.lt_succ_of_lt (h.opened scope hs)⟩
  · rw [hids]
    constructor
    · change (live.tree.add kind live.chain.current?).parent? _ = _
      rw [ScopeTree.parent?, ScopeTree.get?_add, if_pos rfl, Option.bind_some, Chain.ids,
        List.head?_map]
      rfl
    · exact h.linked.congr fun s hs => live.tree.parent?_add kind _ (h.opened s hs)
  · intro frame hframe
    rw [listed_enter]
    rcases List.mem_cons.mp hframe with rfl | hold
    · -- nothing is listed in a new scope
      rw [listed, ScopeTree.listed, live.tree.get?_eq_none (Nat.le_refl _)]
      rfl
    · exact h.names frame hold
  · intro scope record hrecord
    change (live.tree.add kind live.chain.current?).get? scope = some record at hrecord
    rw [ScopeTree.get?_add] at hrecord
    split at hrecord
    · cases hrecord
      exact fun id hid => absurd hid List.not_mem_nil
    · exact h.known scope record hrecord

theorem Coupled.declare (h : live.Coupled) {decl : Declaration}
    (hid : decl.id = live.declarations.length) (hscope : decl.scope ∈ live.chain.ids) :
    (live.declare decl).Coupled := by
  have hids : (live.declare decl).chain.ids = live.chain.ids := Chain.ids_bindAt _
  have hnext : (live.declare decl).tree.nextId = live.tree.nextId := List.length_modify _ _ _
  refine ⟨?_, ?_, ?_, ?_, ?_, ?_⟩
  · rw [hids]
    exact h.order
  · rw [hids, hnext]
    exact h.opened
  · rw [hids]
    exact h.linked.congr fun s _ => live.tree.parent?_addDeclaration _ _ s
  · intro frame hframe
    obtain ⟨old, hold, rfl⟩ := List.mem_map.mp hframe
    have hnames := h.names old hold
    -- only the frame of the declaration binds another name
    by_cases heq : old.id = decl.scope
    · rw [if_pos heq]
      change (decl.name, decl.id) :: old.names = _
      rw [hnames, listed_declare h hid (h.opened _ hscope)]
      change _ = List.map _
        (live.listed old.id ++ if old.id = decl.scope then [decl] else []).reverse
      rw [if_pos heq, List.reverse_append]
      rfl
    · rw [if_neg heq, hnames, listed_declare h hid (h.opened _ hscope), if_neg heq, List.append_nil]
  · -- the new declaration stands where its number says
    intro i d hd
    change (live.declarations ++ [decl])[i]? = some d at hd
    rw [List.getElem?_append] at hd
    split at hd
    · exact h.ids i d hd
    · rename_i hge
      rw [List.getElem?_singleton] at hd
      split at hd
      · cases hd
        have hlast : live.declarations.length = i := by omega
        exact hid.trans hlast
      · cases hd
  · intro scope record hrecord id hmem
    change id < (live.declarations ++ [decl]).length
    change (live.tree.addDeclaration decl.scope decl.id).get? scope = some record at hrecord
    rw [List.length_append, List.length_singleton]
    rw [ScopeTree.get?_addDeclaration, Option.map_eq_some_iff] at hrecord
    obtain ⟨old, hold, rfl⟩ := hrecord
    have hknown := h.known scope old hold
    split at hmem
    · rcases List.mem_append.mp hmem with hmem | hmem
      · exact Nat.lt_succ_of_lt (hknown id hmem)
      · rw [List.mem_singleton] at hmem
        rw [hmem, hid]
        exact Nat.lt_succ_self _
    · exact Nat.lt_succ_of_lt (hknown id hmem)

theorem Coupled.step (h : live.Coupled) (event : ScopeEvent) : (live.step event).Coupled :=
  step_keeps h.nodup h h.enter h.leave (fun _ => h.declare) (fun _ hnext => hnext.record) event

/-- What every event keeps, a walk keeps. -/
theorem Coupled.run_keeps {P : Live String → Prop} (h : live.Coupled)
    (hstep : ∀ next : Live String, next.Coupled → P next → ∀ event, P (next.step event))
    (hlive : P live) (events : List ScopeEvent) : P (live.run events) := by
  induction events generalizing live with
  | nil => exact hlive
  | cons event events ih => exact ih (h.step event) (hstep live h hlive event)

theorem run_coupled (h : live.Coupled) (events : List ScopeEvent) : (live.run events).Coupled :=
  h.run_keeps (fun _ _ hnext => hnext.step) h events

/-! ### A lookup is a search in the tree -/

/-- The last declaration listed in a scope that has the given name. -/
def lastIn (live : Live String) (name : String) (scope : ScopeId) : Option Declaration :=
  ((live.listed scope).filter (·.name = name)).getLast?

theorem Coupled.local?_eq (h : live.Coupled) {frame : Frame String} (hframe : frame ∈ live.chain)
    (name : String) : frame.local? name = (live.lastIn name frame.id).map (·.id) := by
  rw [Frame.local?, h.names frame hframe, List.find?_map, Option.map_map, lastIn,
    List.getLast?_eq_head?_reverse, ← List.filter_reverse, List.head?_filter]
  rfl

/-- A declaration that is listed is found under its number. -/
theorem Coupled.get_of_lastIn (h : live.Coupled) {name : String} {scope : ScopeId}
    {d : Declaration} (hd : live.lastIn name scope = some d) :
    live.declarations[d.id]? = some d := by
  have hmem := (List.mem_filter.mp (List.mem_of_getLast? hd)).1
  obtain ⟨i, -, hi⟩ := List.mem_filterMap.mp hmem
  rw [h.ids i d hi]
  exact hi

/-- From each live scope on, the live scopes are the way out of it. -/
theorem Coupled.ancestors_eq (h : live.Coupled) {n : Nat} {frame : Frame String}
    {rest : Chain String} (hview : live.chain.drop n = frame :: rest) :
    live.tree.ancestors frame.id = Chain.ids (frame :: rest) := by
  have hids : Chain.ids (frame :: rest) = live.chain.ids.drop n := by
    rw [← hview, Chain.ids, Chain.ids, List.map_drop]
  have hlinked := h.linked.drop n
  have horder := h.order.sublist (List.drop_sublist n _)
  rw [← hids] at hlinked horder
  exact hlinked.ancestors_eq horder

/-- The live scopes are the way out of the innermost one. -/
theorem Coupled.ancestors_current (h : live.Coupled) {scope : ScopeId}
    (hscope : live.chain.current? = some scope) :
    live.tree.ancestors scope = live.chain.ids := by
  cases hchain : live.chain with
  | nil =>
    rw [hchain] at hscope
    cases hscope
  | cons frame rest =>
    rw [hchain] at hscope
    cases hscope
    exact h.ancestors_eq (n := 0) hchain

/-- What a name refers to is the last declaration of that name in the first
scope, on the way out, that has one. -/
theorem Coupled.lookup_eq (h : live.Coupled) {scope : ScopeId}
    (hscope : live.chain.current? = some scope) (name : String) :
    (live.chain.lookup name).bind (live.declarations[·]?)
      = (live.tree.ancestors scope).findSome? (live.lastIn name) := by
  rw [h.ancestors_current hscope, Chain.ids, List.findSome?_map, Chain.lookup]
  -- frame by frame, the number that is found is that of the declaration
  have hframes : ∀ frames : List (Frame String), (∀ frame ∈ frames, frame ∈ live.chain) →
      (frames.findSome? (·.local? name)).bind (live.declarations[·]?)
        = frames.findSome? (live.lastIn name ∘ (·.id)) := by
    intro frames
    induction frames with
    | nil =>
      intro _
      rfl
    | cons frame rest ih =>
      intro hframes
      rw [List.forall_mem_cons] at hframes
      rw [List.findSome?_cons, List.findSome?_cons, h.local?_eq hframes.1, Function.comp_apply]
      cases hlast : live.lastIn name frame.id with
      | none => exact ih hframes.2
      | some d => exact h.get_of_lastIn hlast
  exact hframes live.chain fun _ hframe => hframe

end steps

end Live

end EsFront
