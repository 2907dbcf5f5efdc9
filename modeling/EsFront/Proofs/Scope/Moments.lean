/-
The moments of a walk.

A walk is a list of events, and its moments are the states before each of them
(`Live.before`). At the moment of a binder the scopes that concern it are a
block and a function around it (`Live.BoundAt`); both can be told from the final
tree and records. Main statements:

* `Live.made_before` — every declaration of the program was made at the moment
  of its binder;
* `Live.Stands.lastIn_step` — what a name stands for in a scope changes in two
  cases only;
* `Program.AllEvents.blockOf?_eq`, `Program.AllEvents.functionOf?_eq` — the block
  and the function of a binder, read off the resolution.
-/
import EsFront.Proofs.Scope.Occurrences

namespace EsFront

/-! ### Blocks and functions of a resolution -/

/-- The nearest function scope on the way out of a scope. -/
def ScopeTree.functionOf? (tree : ScopeTree) (scope : ScopeId) : Option ScopeId :=
  (tree.ancestors scope).find? (tree.kind? · = some .function)

namespace Occurrence

/-- How many of the innermost scopes do not concern an identifier. -/
def skipped (o : Occurrence) : Nat := (o.binding.map Binding.skipped).getD 0

/-- The kind of declaration that an identifier stands for, if it binds its
name. -/
def kind? (o : Occurrence) : Option DeclKind := o.binding.map Binding.kind

end Occurrence

namespace Resolution

/-- The innermost scope that concerns an identifier: for the name of a function
declaration, the one around the function. -/
def blockOf? (r : Resolution) (o : Occurrence) : Option ScopeId :=
  (r.identifierScopes.lookup o.site.node).bind fun scope =>
    (r.scopes.ancestors scope)[o.skipped]?

/-- The function around the innermost scope that concerns an identifier. -/
def functionOf? (r : Resolution) (o : Occurrence) : Option ScopeId :=
  (r.blockOf? o).bind r.scopes.functionOf?

end Resolution

/-- The blocks out to the nearest function come before it. -/
theorem Chain.eq_blocks_append {chain : Chain String} {function : Frame String}
    (h : chain.function? = some function) :
    ∃ outer, chain = chain.blocks ++ function :: outer := by
  induction chain with
  | nil => cases h
  | cons frame rest ih =>
    rw [function?, List.find?_cons] at h
    rw [blocks, List.takeWhile_cons]
    cases hkind : frame.kind with
    | function =>
      rw [hkind, decide_eq_true rfl] at h
      cases h
      exact ⟨rest, rfl⟩
    | block =>
      rw [hkind] at h
      obtain ⟨outer, houter⟩ := ih h
      exact ⟨outer, congrArg (frame :: ·) houter⟩

namespace Live

/-! ### What an event changes -/

section step

variable {live : Live String} {place : Place}

/-- Scopes keep their kinds. -/
theorem Coupled.kind?_step (h : live.Coupled) (event : ScopeEvent) {scope : ScopeId}
    (hscope : scope < live.tree.nextId) :
    (live.step event).tree.kind? scope = live.tree.kind? scope := by
  have henter (kind : ScopeKind) :
      (live.enter kind).tree.kind? scope = live.tree.kind? scope := by
    refine (ScopeTree.kind?_add _ _ _ _).trans ?_
    rw [if_neg (Nat.ne_of_lt hscope)]
  refine step_keeps (P := fun next => next.tree.kind? scope = live.tree.kind? scope) h.nodup rfl
    henter rfl (fun decl _ _ => ScopeTree.kind?_addDeclaration _ _ _ scope) ?_ event
  intro next hnext name site outcome
  rw [record_tree, hnext]

theorem Coupled.kind?_run (h : live.Coupled) (events : List ScopeEvent) {scope : ScopeId}
    (hscope : scope < live.tree.nextId) :
    (live.run events).tree.kind? scope = live.tree.kind? scope := by
  induction events generalizing live with
  | nil => rfl
  | cons event events ih =>
    have hopened := Nat.lt_of_lt_of_le hscope (h.grows event).opened
    exact (ih (h.step event) hopened).trans (h.kind?_step event hscope)

theorem lastIn_declare (h : live.Coupled) {decl : Declaration}
    (hid : decl.id = live.declarations.length) (hscope : decl.scope ∈ live.chain.ids)
    (name : String) (scope : ScopeId) :
    (live.declare decl).lastIn name scope
      = if scope = decl.scope ∧ decl.name = name then some decl else live.lastIn name scope := by
  rw [lastIn, listed_declare h hid (h.opened _ hscope), List.filter_append]
  by_cases hsame : scope = decl.scope ∧ decl.name = name
  · rw [if_pos hsame, if_pos hsame.1]
    simp [hsame.2]
  · rw [if_neg hsame]
    split
    · rename_i heq
      have hne : decl.name ≠ name := fun hname => hsame ⟨heq, hname⟩
      simp [hne, lastIn]
    · rw [List.filter_nil, List.append_nil]
      rfl

theorem lastIn_record (name : String) (site : Site) (outcome : Outcome) (other : String)
    (scope : ScopeId) : (live.record name site outcome).lastIn other scope
      = live.lastIn other scope := by
  rw [lastIn, record_listed]
  rfl

/-- What a name stands for in a scope changes only when a binder of a function
takes the place of a name of the host, or a parameter that of its function. -/
theorem Stands.lastIn_step (h : live.Stands place) {event : ScopeEvent} (hfits : event.Fits place)
    {name : String} {scope : ScopeId} {d : Declaration} (hlast : live.lastIn name scope = some d) :
    (live.step event).lastIn name scope = some d ∨
      ∃ binding site block function rest, event = .bind binding name site ∧
        live.chain.drop binding.skipped = block :: rest ∧ block.kind = .block ∧
        Chain.function? (block :: rest) = some function ∧ scope = function.id ∧
        (d.isHost = true ∨ binding = .parameter) ∧
        (live.step event).lastIn name scope
          = some (live.made binding name site scope block.id) := by
  cases event with
  | enter kind =>
    refine .inl ?_
    change (live.enter kind).lastIn name scope = _
    rw [lastIn, listed_enter]
    exact hlast
  | leave => exact .inl hlast
  | predeclare other =>
    refine .inl ?_
    rcases h.kept.coupled.predeclare_spec other with ⟨target, -, htarget, hnone, hstep⟩ | hstep
    · rw [hstep, lastIn_declare h.kept.coupled rfl htarget, if_neg]
      · exact hlast
      · -- the name is declared only where it is not there
        rintro ⟨rfl, rfl⟩
        rw [hlast] at hnone
        cases hnone
    · rw [hstep]
      exact hlast
  | use other site =>
    refine .inl ?_
    obtain ⟨outcome, hstep⟩ := live.use_spec other site
    rw [hstep, lastIn_record, hlast]
  | bind binding other site =>
    obtain ⟨block, function, rest, hview, hblock, hfunction, -⟩ := h.view hfits.1
    obtain ⟨verdict, hjudged, hstep⟩ := h.kept.coupled.bind_spec hview hfunction other site
    cases verdict with
    | clashes clash first =>
      rw [hstep, lastIn_record]
      exact .inl hlast
    | declares target =>
      obtain ⟨htarget, hstep⟩ := hstep
      rw [hstep, lastIn_record, lastIn_declare h.kept.coupled rfl htarget]
      change (if scope = target ∧ other = name then _ else _) = _ ∨ _
      by_cases hsame : scope = target ∧ other = name
      · -- a block that has the name would have refused it
        obtain ⟨rfl, rfl⟩ := hsame
        refine .inr ⟨binding, site, block, function, rest, rfl, hview, hblock, hfunction, ?_⟩
        cases hjudged with
        | lexical _ hnone =>
          rw [hnone] at hlast
          cases hlast
        | hoisted _ _ _ hhost => exact ⟨rfl, .inl (hhost d hlast), if_pos ⟨rfl, rfl⟩⟩
        | parameter => exact ⟨rfl, .inr rfl, if_pos ⟨rfl, rfl⟩⟩
      · rw [if_neg hsame]
        exact .inl hlast

end step

/-! ### Moments -/

section moments

variable {events : List ScopeEvent} {i j : Nat} {event : ScopeEvent}

/-- The state before the event with the given number. -/
def before (events : List ScopeEvent) (i : Nat) : Live String := start.run (events.take i)

theorem before_succ (h : events[i]? = some event) :
    before events (i + 1) = (before events i).step event := by
  rw [before, List.take_add_one, h, Option.toList_some, run_append]
  rfl

theorem before_length (events : List ScopeEvent) :
    before events events.length = start.run events := by
  rw [before, List.take_length]

theorem before_coupled (events : List ScopeEvent) (i : Nat) : (before events i).Coupled :=
  run_coupled coupled_start _

/-- Later moments are reached from earlier ones. -/
theorem before_eq_run (events : List ScopeEvent) (h : i ≤ j) :
    before events j = (before events i).run ((events.take j).drop i) := by
  rw [before, before, ← run_append]
  congr 1
  have hsplit := List.take_append_drop i (events.take j)
  rw [List.take_take, Nat.min_eq_left h] at hsplit
  exact hsplit.symm

theorem before_grows (events : List ScopeEvent) (h : i ≤ j) :
    (before events i).Grows ((events.take j).drop i) (before events j) := by
  rw [before_eq_run events h]
  exact run_grows (before_coupled events i) _

theorem before_kind? (events : List ScopeEvent) (h : i ≤ j) {scope : ScopeId}
    (hscope : scope < (before events i).tree.nextId) :
    (before events j).tree.kind? scope = (before events i).tree.kind? scope := by
  rw [before_eq_run events h]
  exact (before_coupled events i).kind?_run _ hscope

theorem before_ancestors (events : List ScopeEvent) (h : i ≤ j) {scope : ScopeId}
    (hscope : scope < (before events i).tree.nextId) :
    (before events j).tree.ancestors scope = (before events i).tree.ancestors scope :=
  ScopeTree.ancestors_congr fun _ hle =>
    (before_grows events h).parents _ (Nat.lt_of_le_of_lt hle hscope)

theorem before_stands (horderly : Orderly ⟨[], .inside⟩ events) (i : Nat) :
    (before events i).Stands (Place.run ⟨[], .inside⟩ (events.take i)) := by
  refine run_stands stands_start ?_
  rw [← List.take_append_drop i events, orderly_append] at horderly
  exact horderly.1

theorem fits_before (horderly : Orderly ⟨[], .inside⟩ events) (h : events[i]? = some event) :
    event.Fits (Place.run ⟨[], .inside⟩ (events.take i)) := by
  rw [← List.take_append_drop i events, orderly_append] at horderly
  obtain ⟨hi, rfl⟩ := List.getElem?_eq_some_iff.mp h
  rw [List.drop_eq_getElem_cons hi] at horderly
  exact horderly.2.1

/-- Identifiers are met in the order of their numbers. -/
theorem site_lt (horder : (events.filterMap ScopeEvent.site?).Pairwise (·.node < ·.node))
    (hij : i < j) {event' : ScopeEvent} {site site' : Site} (h : events[i]? = some event)
    (h' : events[j]? = some event') (hsite : event.site? = some site)
    (hsite' : event'.site? = some site') : site.node < site'.node := by
  rw [List.pairwise_filterMap, List.pairwise_iff_getElem] at horder
  obtain ⟨hi, rfl⟩ := List.getElem?_eq_some_iff.mp h
  obtain ⟨hj, rfl⟩ := List.getElem?_eq_some_iff.mp h'
  exact horder i j hi hj hij site hsite site' hsite'

theorem before_mentions (events : List ScopeEvent) (h : i ≤ j) :
    (before events i).mentions ⊆ (before events j).mentions := by
  obtain ⟨new, hnew, -⟩ := (before_grows events h).mentions
  rw [hnew]
  exact List.subset_append_left _ _

/-- From each live scope on, the live scopes are the way out of it, also later. -/
theorem ancestors_of_drop {n : Nat} {frame : Frame String} {rest : Chain String}
    (hview : (before events i).chain.drop n = frame :: rest) (hij : i ≤ j) :
    (before events j).tree.ancestors frame.id = Chain.ids (frame :: rest) := by
  have hcoupled := before_coupled events i
  have hmem : frame ∈ (before events i).chain := by
    refine List.mem_of_mem_drop (i := n) ?_
    rw [hview]
    exact List.mem_cons_self
  rw [before_ancestors events hij (hcoupled.opened _ (List.mem_map_of_mem hmem))]
  exact hcoupled.ancestors_eq hview

/-- Live scopes keep their kinds. -/
theorem kind?_of_mem (horderly : Orderly ⟨[], .inside⟩ events) {frame : Frame String}
    (hframe : frame ∈ (before events i).chain) (hij : i ≤ j) :
    (before events j).tree.kind? frame.id = some frame.kind := by
  rw [before_kind? events hij ((before_coupled events i).opened _ (List.mem_map_of_mem hframe))]
  exact (before_stands horderly i).kept.framed frame hframe

/-- The function around a live scope, told from a later state. -/
theorem functionOf?_of_drop (horderly : Orderly ⟨[], .inside⟩ events) {n : Nat}
    {frame function : Frame String} {rest : Chain String}
    (hview : (before events i).chain.drop n = frame :: rest)
    (hfunction : Chain.function? (frame :: rest) = some function) (hij : i ≤ j) :
    (before events j).tree.functionOf? frame.id = some function.id := by
  have hkind {other : Frame String} (hother : other ∈ frame :: rest) :
      (before events j).tree.kind? other.id = some other.kind := by
    rw [← hview] at hother
    exact kind?_of_mem horderly (List.mem_of_mem_drop hother) hij
  obtain ⟨hfound, blocks, outer, hsplit, hblocks⟩ :=
    List.find?_eq_some_iff_append.mp hfunction
  rw [ScopeTree.functionOf?, ancestors_of_drop hview hij, List.find?_eq_some_iff_append]
  refine ⟨?_, Chain.ids blocks, Chain.ids outer, ?_, fun scope hscope => ?_⟩
  · rw [hkind (List.mem_of_find?_eq_some hfunction)]
    simpa using hfound
  · rw [hsplit, Chain.ids, List.map_append]
    rfl
  · obtain ⟨other, hother, rfl⟩ := List.mem_map.mp hscope
    have hnot := hblocks other hother
    rw [hkind (by rw [hsplit]; exact List.mem_append_left _ hother)]
    simpa using hnot

/-! ### Binders at their moments -/

/-- A binder is met as the event with the given number, in a block of a
function. -/
structure BoundAt (events : List ScopeEvent) (i : Nat) (binding : Binding) (name : String)
    (site : Site) (block function : Frame String) (rest : Chain String) : Prop where
  event : events[i]? = some (.bind binding name site)
  view : (before events i).chain.drop binding.skipped = block :: rest
  isBlock : block.kind = .block
  function? : Chain.function? (block :: rest) = some function
  isFunction : function.kind = .function

theorem exists_boundAt (horderly : Orderly ⟨[], .inside⟩ events) {binding : Binding}
    {name : String} {site : Site} (h : events[i]? = some (.bind binding name site)) :
    ∃ block function rest, BoundAt events i binding name site block function rest := by
  have hfits := fits_before horderly h
  obtain ⟨block, function, rest, hview, hblock, hfunction, hkind⟩ :=
    (before_stands horderly i).view hfits.1
  exact ⟨block, function, rest, h, hview, hblock, hfunction, hkind⟩

namespace BoundAt

variable {binding : Binding} {name : String} {site : Site} {block function : Frame String}
  {rest : Chain String}

theorem mem_chain (h : BoundAt events i binding name site block function rest)
    {frame : Frame String} (hframe : frame ∈ block :: rest) :
    frame ∈ (before events i).chain := by
  rw [← h.view] at hframe
  exact List.mem_of_mem_drop hframe

theorem function_mem (h : BoundAt events i binding name site block function rest) :
    function ∈ block :: rest := List.mem_of_find?_eq_some h.function?

theorem opened (h : BoundAt events i binding name site block function rest)
    {frame : Frame String} (hframe : frame ∈ block :: rest) :
    frame.id < (before events i).tree.nextId :=
  (before_coupled events i).opened _ (List.mem_map_of_mem (h.mem_chain hframe))

/-- What becomes of the binder. -/
theorem judged (h : BoundAt events i binding name site block function rest) :
    ∃ verdict, Judged (before events i) (block :: rest) block function name binding verdict ∧
      match verdict with
      | .declares scope => scope ∈ (before events i).chain.ids ∧
          before events (i + 1) =
            ((before events i).declare
              ((before events i).made binding name site scope block.id)).record name site
                (.declared ((before events i).made binding name site scope block.id))
      | .clashes clash first => before events (i + 1) =
          (before events i).record name site (.merged clash binding.kind first) := by
  rw [before_succ h.event]
  exact (before_coupled events i).bind_spec h.view h.function? name site

/-- The block and its way out, told from a later state. -/
theorem ancestors_later (h : BoundAt events i binding name site block function rest)
    (hij : i ≤ j) :
    (before events j).tree.ancestors block.id = Chain.ids (block :: rest) :=
  ancestors_of_drop h.view hij

/-- The kinds of the scopes around, told from a later state. -/
theorem kind?_later (h : BoundAt events i binding name site block function rest)
    (horderly : Orderly ⟨[], .inside⟩ events) (hij : i ≤ j) {frame : Frame String}
    (hframe : frame ∈ block :: rest) :
    (before events j).tree.kind? frame.id = some frame.kind :=
  kind?_of_mem horderly (h.mem_chain hframe) hij

/-- The function, told from a later state. -/
theorem functionOf?_later (h : BoundAt events i binding name site block function rest)
    (horderly : Orderly ⟨[], .inside⟩ events) (hij : i ≤ j) :
    (before events j).tree.functionOf? block.id = some function.id :=
  functionOf?_of_drop horderly h.view h.function? hij

/-- The function was opened before the block. -/
theorem function_lt (h : BoundAt events i binding name site block function rest) :
    function.id < block.id := by
  have horder : (Chain.ids (block :: rest)).Pairwise (· > ·) := by
    rw [← h.view]
    exact (before_coupled events i).order.sublist ((List.drop_sublist _ _).map _)
  rcases List.mem_cons.mp h.function_mem with heq | hmem
  · have hkind := h.isFunction
    rw [heq, h.isBlock] at hkind
    cases hkind
  · exact List.rel_of_pairwise_cons horder (List.mem_map_of_mem hmem)

/-- A binder that clashes has a record that says so. -/
theorem recorded_of_clash (h : BoundAt events i binding name site block function rest)
    {clash : Clash} {first : Declaration} (hstep : before events (i + 1) =
      (before events i).record name site (.merged clash binding.kind first)) (hij : i < j) :
    ∃ scope, (before events i).chain.current? = some scope ∧
      ⟨name, site, scope, .merged clash binding.kind first⟩ ∈ (before events j).mentions := by
  obtain ⟨scope, hscope⟩ := Chain.exists_current h.view
  refine ⟨scope, hscope, before_mentions events hij ?_⟩
  rw [hstep, record, hscope]
  exact List.mem_append_right _ (List.mem_singleton_self _)

/-- Every binder has a record, at the innermost scope around it. -/
theorem recorded (h : BoundAt events i binding name site block function rest) (hij : i < j) :
    ∃ m ∈ (before events j).mentions, m.site = site ∧
      (before events i).chain.current? = some m.scope := by
  obtain ⟨verdict, -, hstep⟩ := h.judged
  cases verdict with
  | clashes clash first =>
    obtain ⟨scope, hscope, hm⟩ := h.recorded_of_clash hstep hij
    exact ⟨_, hm, rfl, hscope⟩
  | declares target =>
    obtain ⟨scope, hscope⟩ := Chain.exists_current h.view
    refine ⟨⟨name, site, scope,
      .declared ((before events i).made binding name site target block.id)⟩,
      before_mentions events hij ?_, rfl, hscope⟩
    rw [hstep.2, record, current?_declare, hscope]
    exact List.mem_append_right _ (List.mem_singleton_self _)

/-- The block of a binder, read off the resolution. -/
theorem blockOf?_eq (h : BoundAt events i binding name site block function rest)
    (hpairs : (start.run events).mentions.Pairwise fun a b => a.site.node ≠ b.site.node) :
    (start.run events).resolution.blockOf? ⟨name, site, some binding⟩ = some block.id := by
  obtain ⟨hi, -⟩ := List.getElem?_eq_some_iff.mp h.event
  rw [← before_length] at hpairs ⊢
  obtain ⟨m, hm, rfl, hcurrent⟩ := h.recorded hi
  have hlookup : (before events events.length).resolution.identifierScopes.lookup m.site.node
      = some m.scope := by
    rw [Resolution.identifierScopes, ← List.filterMap_eq_map]
    exact lookup_mention (fun m => some m.scope) hpairs hm
  -- the record has the innermost scope; the block is `binding.skipped` steps out
  have hancestors : (before events events.length).tree.ancestors m.scope
      = (before events i).chain.ids := by
    cases hchain : (before events i).chain with
    | nil =>
      rw [hchain] at hcurrent
      cases hcurrent
    | cons frame others =>
      rw [hchain] at hcurrent
      have hid : frame.id = m.scope := Option.some_inj.mp hcurrent
      rw [← hid]
      exact ancestors_of_drop (n := 0) hchain (Nat.le_of_lt hi)
  rw [Resolution.blockOf?, hlookup, Option.bind_some]
  change ((before events events.length).tree.ancestors m.scope)[binding.skipped]? = _
  rw [hancestors, Chain.ids, List.getElem?_map, ← List.head?_drop, h.view]
  rfl

end BoundAt

/-- A declaration is made by the binder that is met as the event with the given
number. -/
structure MadeAt (events : List ScopeEvent) (i : Nat) (d : Declaration) (binding : Binding)
    (site : Site) (block function : Frame String) (rest : Chain String) : Prop extends
    BoundAt events i binding d.name site block function rest where
  allowed : Judged (before events i) (block :: rest) block function d.name binding
    (.declares d.scope)
  isMade : d = (before events i).made binding d.name site d.scope block.id
  isLive : d.scope ∈ (before events i).chain.ids
  next : before events (i + 1) = ((before events i).declare d).record d.name site (.declared d)

/-- Every declaration of the program was made at the moment of its binder. -/
theorem made_before (horderly : Orderly ⟨[], .inside⟩ events) {d : Declaration}
    (hd : d ∈ (before events i).declarations) (hhost : d.isHost = false) :
    ∃ k < i, ∃ binding site block function rest,
      MadeAt events k d binding site block function rest := by
  induction i with
  | zero => exact absurd hd List.not_mem_nil
  | succ i ih =>
    have hearlier (hold : d ∈ (before events i).declarations) :
        ∃ k < i + 1, ∃ binding site block function rest,
          MadeAt events k d binding site block function rest := by
      obtain ⟨k, hk, hrest⟩ := ih hold
      exact ⟨k, Nat.lt_succ_of_lt hk, hrest⟩
    cases hevent : events[i]? with
    | none =>
      -- the walk is over
      rw [before, List.take_add_one, hevent, Option.toList_none, List.append_nil] at hd
      exact hearlier hd
    | some event =>
      rw [before_succ hevent] at hd
      cases event with
      | enter kind => exact hearlier hd
      | leave => exact hearlier hd
      | use name site =>
        rw [use_declarations] at hd
        exact hearlier hd
      | predeclare name =>
        rcases (before_coupled events i).predeclare_spec name with ⟨scope, -, -, -, hstep⟩ | hstep
        · rw [hstep] at hd
          rcases List.mem_append.mp hd with hd | hd
          · exact hearlier hd
          · rw [List.mem_singleton.mp hd] at hhost
            cases hhost
        · rw [hstep] at hd
          exact hearlier hd
      | bind binding name site =>
        obtain ⟨block, function, rest, hbound⟩ := exists_boundAt horderly hevent
        obtain ⟨verdict, hjudged, hnext⟩ := hbound.judged
        rw [← before_succ hevent] at hd
        cases verdict with
        | clashes clash first =>
          rw [show before events (i + 1) = _ from hnext, record_declarations] at hd
          exact hearlier hd
        | declares scope =>
          rw [hnext.2, record_declarations] at hd
          rcases List.mem_append.mp hd with hd | hd
          · exact hearlier hd
          · rw [List.mem_singleton] at hd
            subst hd
            exact ⟨i, Nat.lt_succ_self i, binding, site, block, function, rest,
              hbound, hjudged, rfl, hnext.1, hnext.2⟩

namespace MadeAt

variable {d : Declaration} {binding : Binding} {site : Site} {block function : Frame String}
  {rest : Chain String}

theorem kind_eq (h : MadeAt events i d binding site block function rest) :
    d.kind = binding.kind := congrArg Declaration.kind h.isMade

theorem blockScope_eq (h : MadeAt events i d binding site block function rest) :
    d.blockScope = block.id := congrArg Declaration.blockScope h.isMade

theorem scope_eq (h : MadeAt events i d binding site block function rest) :
    d.scope = if binding.isLexical then block.id else function.id := h.allowed.scope_eq

/-- What is declared in a function is not bound in a block. -/
theorem not_lexical (h : MadeAt events i d binding site block function rest)
    (horderly : Orderly ⟨[], .inside⟩ events) {binding' : Binding} {name : String} {site' : Site}
    {block' function' : Frame String} {rest' : Chain String}
    (h' : BoundAt events j binding' name site' block' function' rest')
    (hscope : d.scope = function'.id) : binding.isLexical = false := by
  refine Bool.eq_false_iff.mpr fun hlexical => ?_
  have hblockKind := h.kind?_later horderly (Nat.le_max_left i j) List.mem_cons_self
  have hfunctionKind := h'.kind?_later horderly (Nat.le_max_right i j) h'.function_mem
  rw [h.scope_eq, if_pos hlexical] at hscope
  rw [hscope, hfunctionKind, h.isBlock, h'.isFunction] at hblockKind
  cases hblockKind

/-- The name stands for the declaration right after its binder. -/
theorem lastIn_next (h : MadeAt events i d binding site block function rest) :
    (before events (i + 1)).lastIn d.name d.scope = some d := by
  have hid : d.id = (before events i).declarations.length := congrArg Declaration.id h.isMade
  rw [h.next, lastIn_record, lastIn_declare (before_coupled events i) hid h.isLive,
    if_pos ⟨rfl, rfl⟩]

end MadeAt

/-- In a block, a name stands for its first declaration for good. -/
theorem lastIn_block_later (horderly : Orderly ⟨[], .inside⟩ events) (hij : i ≤ j) {name : String}
    {block : ScopeId} {d : Declaration}
    (hkind : (before events i).tree.kind? block = some .block)
    (hlast : (before events i).lastIn name block = some d) :
    (before events j).lastIn name block = some d := by
  have hopened : block < (before events i).tree.nextId := by
    refine Nat.lt_of_not_le fun hle => ?_
    rw [ScopeTree.kind?, ScopeTree.get?_eq_none _ hle] at hkind
    cases hkind
  induction hij with
  | refl => exact hlast
  | @step j hij ih =>
    cases hevent : events[j]? with
    | none =>
      rw [before, List.take_add_one, hevent, Option.toList_none, List.append_nil]
      exact ih
    | some event =>
      have hstands := before_stands horderly j
      rw [before_succ hevent]
      rcases hstands.lastIn_step (fits_before horderly hevent) ih with
        hsame | ⟨binding, site, inner, function, rest, rfl, hview, -, hfunction, rfl, -⟩
      · exact hsame
      · -- only functions let a name be declared again
        have hmem : function ∈ (before events j).chain := by
          refine List.mem_of_mem_drop (i := binding.skipped) ?_
          rw [hview]
          exact List.mem_of_find?_eq_some hfunction
        have hframed := hstands.kept.framed function hmem
        rw [before_kind? events hij hopened, hkind] at hframed
        have hfound := Chain.kind_of_function? hfunction
        rw [← Option.some_inj.mp hframed] at hfound
        cases hfound

end moments

end Live

/-! ### Whole programs -/

/-- All events of the walk of a program, for resolution with the given
options. -/
structure Program.AllEvents (p : Program) (options : ResolveOptions) (events : List ScopeEvent) :
    Prop where
  resolution : p.resolution options = (Live.start.run events).resolution
  orderly : Orderly ⟨[], .inside⟩ events
  order : (events.filterMap ScopeEvent.site?).Pairwise (·.node < ·.node)
  occurrences : events.filterMap ScopeEvent.occurrence? = p.occurrences
  records : (Live.start.run events).mentions.Pairwise fun a b => a.site.node ≠ b.site.node

theorem Program.allEvents {p : Program} {inner : List ScopeEvent} (hwalked : p.WalkedAs inner)
    (hmet : p.MetAs inner) (options : ResolveOptions) :
    p.AllEvents options
      (openingEvents options.names ++ (inner ++ [ScopeEvent.leave, ScopeEvent.leave])) := by
  have hopening : (openingEvents options.names).filterMap ScopeEvent.occurrence? = [] := by
    rw [List.filterMap_eq_nil_iff]
    intro event hevent
    have hsite := (openingEvents_cases hevent).1
    rw [event.site?_eq, Option.map_eq_none_iff] at hsite
    exact hsite
  refine ⟨hwalked.resolution options, ?_, ?_, ?_, mentions_pairwise options.names hwalked.order⟩
  · rw [← List.append_assoc]
    exact orderly_append.mpr ⟨hmet.orderly options.names, trivial, trivial, trivial⟩
  · rw [List.filterMap_append, sites_openingEvents, List.nil_append, List.filterMap_append]
    rw [show [ScopeEvent.leave, .leave].filterMap ScopeEvent.site? = [] from rfl, List.append_nil]
    exact hwalked.order
  · rw [List.filterMap_append, hopening, List.nil_append, List.filterMap_append, hmet.occurrences]
    exact List.append_nil _

theorem importProgram_allEvents {raw : Json} {file : Option String} {p : Program}
    (h : importProgram raw file = .ok p) (options : ResolveOptions) :
    ∃ events, p.AllEvents options events := by
  obtain ⟨inner, hwalked, hmet⟩ := importProgram_walk h
  exact ⟨_, Program.allEvents hwalked hmet options⟩

namespace Program.AllEvents

variable {p : Program} {options : ResolveOptions} {events : List ScopeEvent}

/-- Every occurrence that binds its name is met as an event. -/
theorem exists_boundAt (h : p.AllEvents options events) {o : Occurrence} (ho : o ∈ p.occurrences)
    {kind : DeclKind} (hkind : o.kind? = some kind) :
    ∃ i binding block function rest, o.binding = some binding ∧ binding.kind = kind ∧
      Live.BoundAt events i binding o.name o.site block function rest := by
  rw [← h.occurrences] at ho
  obtain ⟨event, hevent, hfound⟩ := List.mem_filterMap.mp ho
  obtain ⟨i, hi⟩ := List.mem_iff_getElem?.mp hevent
  cases event with
  | bind binding name site =>
    cases hfound
    obtain ⟨block, function, rest, hbound⟩ := Live.exists_boundAt h.orderly hi
    exact ⟨i, binding, block, function, rest, rfl, Option.some_inj.mp hkind, hbound⟩
  | use name site =>
    cases hfound
    cases hkind
  | enter kind => cases hfound
  | leave => cases hfound
  | predeclare name => cases hfound

/-- Every binder that is met is an occurrence. -/
theorem mem_occurrences (h : p.AllEvents options events) {i : Nat} {binding : Binding}
    {name : String} {site : Site} (hevent : events[i]? = some (.bind binding name site)) :
    ⟨name, site, some binding⟩ ∈ p.occurrences := by
  rw [← h.occurrences]
  exact List.mem_filterMap.mpr ⟨_, List.mem_of_getElem? hevent, rfl⟩

section bound

variable {i : Nat} {binding : Binding} {name : String} {site : Site}
  {block function : Frame String} {rest : Chain String}

theorem blockOf?_eq (h : p.AllEvents options events)
    (hbound : Live.BoundAt events i binding name site block function rest) :
    (p.resolution options).blockOf? ⟨name, site, some binding⟩ = some block.id := by
  rw [h.resolution]
  exact hbound.blockOf?_eq h.records

theorem functionOf?_eq (h : p.AllEvents options events)
    (hbound : Live.BoundAt events i binding name site block function rest) :
    (p.resolution options).functionOf? ⟨name, site, some binding⟩ = some function.id := by
  obtain ⟨hi, -⟩ := List.getElem?_eq_some_iff.mp hbound.event
  rw [Resolution.functionOf?, h.blockOf?_eq hbound, h.resolution, ← Live.before_length]
  exact hbound.functionOf?_later h.orderly (Nat.le_of_lt hi)

theorem scopes_eq (h : p.AllEvents options events) :
    (p.resolution options).scopes = (Live.before events events.length).tree := by
  rw [h.resolution, Live.before_length]
  rfl

/-- The scopes around a binder are those of its live chain. -/
theorem isWithin_iff (h : p.AllEvents options events)
    (hbound : Live.BoundAt events i binding name site block function rest) {outer : ScopeId} :
    (p.resolution options).scopes.isWithin block.id outer = true
      ↔ outer ∈ Chain.ids (block :: rest) := by
  obtain ⟨hi, -⟩ := List.getElem?_eq_some_iff.mp hbound.event
  rw [h.scopes_eq, ScopeTree.isWithin, hbound.ancestors_later (Nat.le_of_lt hi)]
  simp

end bound

end Program.AllEvents

end EsFront
