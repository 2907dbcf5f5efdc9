/-
The outermost scope.

The scope of the program is opened first and closed last. It is a function, all
scopes lie in it, and it is the only one with names of the host
(`Live.Rooted`). Main statement: `Live.run_rooted`.
-/
import EsFront.Proofs.Scope.Moments

namespace EsFront

namespace Live

variable {live : Live String} {place : Place} {n : Nat}

/-- The scope that was opened first is still open, with so many scopes open in
it. -/
structure Rooted (live : Live String) (n : Nat) : Prop where
  ids : ∃ inner, live.chain.ids = inner ++ [0] ∧ inner.length = n
  root : live.tree.kind? 0 = some .function ∧ live.tree.parent? 0 = none
  around : ∀ scope < live.tree.nextId, 0 ∈ live.tree.ancestors scope
  hosts : ∀ d ∈ live.declarations, d.isHost = true → d.scope = 0 ∧ d.blockScope = 0

theorem Rooted.mem_ids (h : live.Rooted n) : 0 ∈ live.chain.ids := by
  obtain ⟨inner, hids, -⟩ := h.ids
  rw [hids]
  exact List.mem_append_right _ (List.mem_singleton_self _)

theorem rooted_enter : ((start : Live String).enter .function).Rooted 0 where
  ids := ⟨[], rfl, rfl⟩
  root := ⟨rfl, rfl⟩
  around := by
    intro scope hscope
    rw [Nat.lt_one_iff.mp hscope, ScopeTree.ancestors]
    exact List.mem_cons_self
  hosts := fun _ h => absurd h List.not_mem_nil

theorem Rooted.record (h : live.Rooted n) (name : String) (site : Site) (outcome : Outcome) :
    (live.record name site outcome).Rooted n where
  ids := by
    rw [record_chain]
    exact h.ids
  root := by
    rw [record_tree]
    exact h.root
  around := by
    rw [record_tree]
    exact h.around
  hosts := by
    rw [record_declarations]
    exact h.hosts

theorem Rooted.declare (h : live.Rooted n) {decl : Declaration}
    (hhost : decl.isHost = true → decl.scope = 0 ∧ decl.blockScope = 0) :
    (live.declare decl).Rooted n where
  ids := by
    rw [show (live.declare decl).chain.ids = live.chain.ids from Chain.ids_bindAt _]
    exact h.ids
  root := ⟨(ScopeTree.kind?_addDeclaration _ _ _ 0).trans h.root.1,
    (ScopeTree.parent?_addDeclaration _ _ _ 0).trans h.root.2⟩
  around := by
    intro scope hscope
    have hsame : (live.declare decl).tree.ancestors scope = live.tree.ancestors scope :=
      ScopeTree.ancestors_congr fun s _ => ScopeTree.parent?_addDeclaration _ _ _ s
    rw [hsame]
    exact h.around scope (Nat.lt_of_lt_of_eq hscope (ScopeTree.nextId_addDeclaration _ _ _))
  hosts := by
    intro d hd
    rcases List.mem_append.mp hd with hold | hnew
    · exact h.hosts d hold
    · rw [List.mem_singleton.mp hnew]
      exact hhost

theorem Rooted.enter (h : live.Rooted n) (hcoupled : live.Coupled) (kind : ScopeKind) :
    (live.enter kind).Rooted (n + 1) := by
  have hids : (live.enter kind).chain.ids = live.tree.nextId :: live.chain.ids := rfl
  have hpos : 0 < live.tree.nextId := hcoupled.opened _ h.mem_ids
  refine ⟨?_, ⟨?_, ?_⟩, fun scope hscope => ?_, h.hosts⟩
  · obtain ⟨inner, hlive, hlength⟩ := h.ids
    exact ⟨live.tree.nextId :: inner, by rw [hids, hlive, List.cons_append],
      congrArg Nat.succ hlength⟩
  · refine (ScopeTree.kind?_add _ _ _ 0).trans ?_
    rw [if_neg (Nat.ne_of_lt hpos), h.root.1]
  · exact (live.tree.parent?_add kind _ hpos).trans h.root.2
  · rcases Nat.lt_or_eq_of_le (Nat.le_of_lt_succ (Nat.lt_of_lt_of_eq hscope
      (ScopeTree.nextId_add _ _ _))) with hold | rfl
    · have hsame : (live.enter kind).tree.ancestors scope = live.tree.ancestors scope :=
        ScopeTree.ancestors_congr fun s hs =>
          live.tree.parent?_add kind _ (Nat.lt_of_le_of_lt hs hold)
      rw [hsame]
      exact h.around scope hold
    · -- the way out of the new scope is the live chain
      have hview : (live.enter kind).chain.drop 0
        = ⟨live.tree.nextId, kind, []⟩ :: live.chain := rfl
      rw [(hcoupled.enter kind).ancestors_eq hview]
      exact List.mem_cons_of_mem _ h.mem_ids

theorem Rooted.leave (h : live.Rooted (n + 1)) : live.leave.Rooted n := by
  refine ⟨?_, h.root, h.around, h.hosts⟩
  obtain ⟨inner, hids, hlength⟩ := h.ids
  cases inner with
  | nil => cases hlength
  | cons scope inner =>
    refine ⟨inner, ?_, Nat.succ.inj hlength⟩
    change Chain.ids live.chain.tail = _
    rw [Chain.ids, List.map_tail]
    exact congrArg List.tail hids

theorem Rooted.step (h : live.Rooted n) (hstands : live.Stands place) {event : ScopeEvent}
    (hfits : event.Fits place) {k : Nat} (hdepth : event.depth? n = some k) :
    (live.step event).Rooted k := by
  cases event with
  | enter kind =>
    cases hdepth
    exact h.enter hstands.kept.coupled kind
  | leave =>
    rw [ScopeEvent.depth?] at hdepth
    split at hdepth
    · rename_i hpos
      obtain ⟨m, rfl⟩ := Nat.exists_eq_succ_of_ne_zero (Nat.ne_of_gt hpos)
      cases hdepth
      exact h.leave
    · cases hdepth
  | predeclare name =>
    cases hdepth
    rcases hstands.kept.coupled.predeclare_spec name with ⟨scope, -, hscope, -, hstep⟩ | hstep
    · -- only the scope of the program is open
      have hone : live.chain.ids.length = 1 := by
        have hkinds := congrArg List.length hstands.kinds
        rw [hfits, Chain.kinds, List.length_map] at hkinds
        rw [Chain.ids, List.length_map]
        exact hkinds
      obtain ⟨inner, hids, -⟩ := h.ids
      rw [hids, List.length_append, List.length_singleton, Nat.add_eq_right,
        List.length_eq_zero_iff] at hone
      rw [hids, hone] at hscope
      have hzero : scope = 0 := List.mem_singleton.mp hscope
      rw [hstep]
      exact h.declare fun _ => ⟨hzero, hzero⟩
    · rw [hstep]
      exact h
  | use name site =>
    cases hdepth
    obtain ⟨outcome, hstep⟩ := live.use_spec name site
    rw [hstep]
    exact h.record _ _ outcome
  | bind binding name site =>
    cases hdepth
    obtain ⟨block, function, rest, hview, -, hfunction, -⟩ := hstands.view hfits.1
    obtain ⟨verdict, -, hstep⟩ := hstands.kept.coupled.bind_spec hview hfunction name site
    cases verdict with
    | clashes clash first =>
      rw [hstep]
      exact h.record _ _ _
    | declares scope =>
      rw [hstep.2]
      exact (h.declare fun hhost => by cases hhost).record _ _ _

/-- The scope that was opened first stays open as long as no more scopes are
closed than were opened in it. -/
theorem run_rooted (h : live.Rooted n) (hstands : live.Stands place) {events : List ScopeEvent}
    (horderly : Orderly place events) {k : Nat}
    (hdepth : events.foldlM ScopeEvent.depth? n = some k) : (live.run events).Rooted k := by
  induction events generalizing live place n with
  | nil =>
    cases hdepth
    exact h
  | cons event events ih =>
    rw [List.foldlM_cons] at hdepth
    obtain ⟨m, hfirst, hrest⟩ := Option.bind_eq_some_iff.mp hdepth
    exact ih (h.step hstands horderly.1 hfirst) (hstands.step horderly.1) horderly.2 hrest

/-- Before the first statement of a program, one block is open in its scope. -/
theorem opening_rooted (names : List String) : (start.run (openingEvents names)).Rooted 1 := by
  have horderly := (orderly_openingEvents names).1
  have hdepth : (names.map ScopeEvent.predeclare ++ [ScopeEvent.enter .block]).foldlM
      ScopeEvent.depth? 0 = some 1 := by
    rw [List.foldlM_append, depth_predeclared]
    rfl
  rw [openingEvents, List.cons_append] at horderly ⊢
  exact run_rooted rooted_enter (stands_start.step horderly.1) horderly.2 hdepth

end Live

/-- When the statements of a program have been walked, the block and the scope
of the program are open. -/
theorem Program.WalkedAs.rooted {p : Program} {inner : List ScopeEvent} (hwalked : p.WalkedAs inner)
    (hmet : p.MetAs inner) (names : List String) :
    (Live.start.run (openingEvents names ++ inner)).Rooted 1 := by
  have horderly := orderly_append.mp (hmet.orderly names)
  rw [Live.run_append]
  exact Live.run_rooted (Live.opening_rooted names)
    (Live.run_stands Live.stands_start horderly.1) horderly.2 (hwalked.nested 1)

end EsFront
