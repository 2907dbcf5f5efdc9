/-
How often a scope lists a name.

A binder declares its name only where the name is free, so most names are
listed once in a scope. There are two exceptions: names of the host give way to
the names of a function, and the own name of a function expression gives way to
a parameter (`Declaration.GivesWay`). Main statements:

* `Live.run_distinct` — along an orderly walk, no name is repeated otherwise;
* `importProgram_disciplined` — what the scopes of an imported program list.
-/
import EsFront.Proofs.Scope.Conflict
import EsFront.Proofs.Scope.Outermost

namespace EsFront

/-- Whether a declaration may be listed in front of another one of its name,
when the sites of the own names of function expressions are given. -/
inductive Declaration.GivesWay (own : Site → Prop) (d d' : Declaration) : Prop where
  | host (hhost : d.isHost = true) (hnew : d'.isHost = false)
  | ownName {site : Site} (hsite : d.site = some site) (hown : own site)
      (hkind : d.kind = .function) (hparameter : d'.kind = .argument)

namespace Live

variable {own : Site → Prop} {live : Live String} {place : Place}

/-! ### Repeated names -/

/-- Declarations of one name are listed in a scope only where one gives way to
the other. -/
def Distinct (own : Site → Prop) (live : Live String) : Prop :=
  ∀ scope, (live.listed scope).Pairwise fun d d' => d.name = d'.name → d.GivesWay own d'

/-- While the header of a function is walked, its only function is its own
name. -/
def Headed (own : Site → Prop) (live : Live String) (place : Place) : Prop :=
  place.phase = .header → ∀ n outer, live.chain.ids = (n + 1) :: n :: outer →
    ∀ d ∈ live.listed n, d.kind = .function → ∃ site, Declaration.site d = some site ∧ own site

/-- A name that is listed stands for the last declaration of it, to which all
others have given way. -/
theorem Distinct.lastIn_of_mem (h : live.Distinct own) {scope : ScopeId} {d : Declaration}
    (hd : d ∈ live.listed scope) :
    ∃ last, live.lastIn d.name scope = some last ∧ (d = last ∨ d.GivesWay own last) := by
  have hmem : d ∈ (live.listed scope).filter (·.name = d.name) :=
    List.mem_filter.mpr ⟨hd, decide_eq_true rfl⟩
  obtain ⟨last, hlast⟩ := Option.isSome_iff_exists.mp
    (List.getLast?_isSome.mpr (List.ne_nil_of_mem hmem))
  refine ⟨last, hlast, ?_⟩
  obtain ⟨init, hsplit⟩ := List.getLast?_eq_some_iff.mp hlast
  have hpairs := (h scope).filter (·.name = d.name)
  rw [hsplit] at hmem hpairs
  rcases List.mem_append.mp hmem with hinit | hsame
  · have hname : last.name = d.name := (mem_listed_of_lastIn hlast).2
    exact .inr ((List.pairwise_append.mp hpairs).2.2 d hinit last List.mem_cons_self hname.symm)
  · exact .inl (List.mem_singleton.mp hsame)

theorem Kept.kind_of_isHost (h : live.Kept) {scope : ScopeId} {d : Declaration}
    (hd : d ∈ live.listed scope) (hhost : d.isHost = true) : d.kind = .var :=
  h.hosts d (mem_of_listed hd) hhost

/-- All that a scope lists of a name gives way to a binder that may declare it
there. -/
theorem Judged.givesWay {view : Chain String} {block function : Frame String} {name : String}
    {binding : Binding} {scope : ScopeId}
    (h : Judged live view block function name binding (.declares scope))
    (hkept : live.Kept) (hdistinct : live.Distinct own)
    (hparameter : binding = .parameter → ∀ d ∈ live.listed function.id, d.isHost = false ∧
      (d.kind = .function → ∃ site, Declaration.site d = some site ∧ own site))
    {d : Declaration} (hd : d ∈ live.listed scope) (hname : d.name = name) (site : Site)
    (blockScope : ScopeId) : d.GivesWay own (live.made binding name site scope blockScope) := by
  subst hname
  obtain ⟨last, hlast, hearlier⟩ := hdistinct.lastIn_of_mem hd
  have hmem : last ∈ live.listed scope := (mem_listed_of_lastIn hlast).1
  cases h with
  | lexical _ hnone =>
    rw [hnone] at hlast
    cases hlast
  | hoisted _ _ _ hfunction =>
    -- the name stands for one of the host, which nothing gives way to
    have hhost := hfunction last hlast
    rcases hearlier with rfl | hgives
    · exact .host hhost rfl
    · cases hgives with
      | host _ hnew =>
        rw [hhost] at hnew
        cases hnew
      | ownName _ _ _ hkind =>
        rw [hkept.kind_of_isHost hmem hhost] at hkind
        cases hkind
  | parameter hfunction =>
    have hkind := hfunction last hlast
    obtain ⟨hhost, hown⟩ := hparameter rfl d hd
    rcases hearlier with rfl | hgives
    · obtain ⟨site, hsite, hown⟩ := hown hkind
      exact .ownName hsite hown hkind rfl
    · cases hgives with
      | host hd =>
        rw [hhost] at hd
        cases hd
      | ownName _ _ _ hargument =>
        rw [hkind] at hargument
        cases hargument

theorem Distinct.record (h : live.Distinct own) (name : String) (site : Site)
    (outcome : Outcome) : (live.record name site outcome).Distinct own := by
  intro scope
  rw [record_listed]
  exact h scope

theorem Distinct.declare (h : live.Distinct own) (hcoupled : live.Coupled) {decl : Declaration}
    (hid : decl.id = live.declarations.length) (hscope : decl.scope ∈ live.chain.ids)
    (hgives : ∀ d ∈ live.listed decl.scope, d.name = decl.name → d.GivesWay own decl) :
    (live.declare decl).Distinct own := by
  intro scope
  rw [listed_declare hcoupled hid (hcoupled.opened _ hscope)]
  split
  · rename_i hsame
    rw [hsame]
    refine List.pairwise_append.mpr ⟨h _, List.pairwise_singleton _ _, ?_⟩
    intro d hd new hnew
    rw [List.mem_singleton.mp hnew]
    exact hgives d hd
  · rw [List.append_nil]
    exact h scope

/-- In its header, a function has its own name and parameters only. -/
theorem Stands.header_listed (h : live.Stands place) (hheaded : live.Headed own place)
    (hheader : place.phase = .header) {block function : Frame String} {rest : Chain String}
    (hview : live.chain = block :: rest) (hblock : block.kind = .block)
    (hfunction : Chain.function? (block :: rest) = some function) :
    ∀ d ∈ live.listed function.id, d.isHost = false ∧
      (d.kind = .function → ∃ site, Declaration.site d = some site ∧ own site) := by
  obtain ⟨hid, -, -, hhosts⟩ := h.header_view hheader hview hblock hfunction
  obtain ⟨n, outer, hids, -⟩ := h.header hheader
  have hn : n = function.id := by
    have hhead : block.id = n + 1 := by
      rw [hview] at hids
      exact (List.cons.inj hids).1
    exact Nat.succ.inj (hhead.symm.trans hid)
  rw [hn] at hids
  exact fun d hd => ⟨hhosts d hd, hheaded hheader _ _ hids d hd⟩

theorem Stands.distinct_step (h : live.Stands place) (hdistinct : live.Distinct own)
    (hheaded : live.Headed own place) {event : ScopeEvent} (hfits : event.Fits place) :
    (live.step event).Distinct own := by
  cases event with
  | enter kind =>
    intro scope
    change ((live.enter kind).listed scope).Pairwise _
    rw [listed_enter]
    exact hdistinct scope
  | leave => exact hdistinct
  | use name site =>
    obtain ⟨outcome, hstep⟩ := live.use_spec name site
    rw [hstep]
    exact hdistinct.record _ _ outcome
  | predeclare name =>
    rcases h.kept.coupled.predeclare_spec name with ⟨scope, -, hscope, hnone, hstep⟩ | hstep
    · rw [hstep]
      refine hdistinct.declare h.kept.coupled rfl hscope fun d hd hname => ?_
      -- a name of the host is declared only where it is not there
      obtain ⟨last, hlast, -⟩ := hdistinct.lastIn_of_mem hd
      rw [hname, hnone] at hlast
      cases hlast
    · rw [hstep]
      exact hdistinct
  | bind binding name site =>
    obtain ⟨block, function, rest, hview, hblock, hfunction, -⟩ := h.view hfits.1
    obtain ⟨verdict, hjudged, hstep⟩ := h.kept.coupled.bind_spec hview hfunction name site
    cases verdict with
    | clashes clash first =>
      rw [hstep]
      exact hdistinct.record _ _ _
    | declares scope =>
      rw [hstep.2]
      refine (hdistinct.declare h.kept.coupled rfl hstep.1 fun d hd hname => ?_).record _ _ _
      refine hjudged.givesWay h.kept hdistinct ?_ hd hname site block.id
      rintro rfl
      exact h.header_listed hheaded (hfits.2 rfl) hview hblock hfunction

theorem Stands.headed_step (h : live.Stands place) (hheaded : live.Headed own place)
    {event : ScopeEvent} (hfits : event.Fits place)
    (hown : ∀ name site, event = .bind .ownName name site → own site) :
    (live.step event).Headed own (place.step event) := by
  intro hheader n outer hids d hd hkind
  cases event with
  | leave => cases hheader
  | predeclare name => cases hheader
  | use name site => cases hheader
  | enter kind =>
    cases kind with
    | function => cases hheader
    | block =>
      -- the function that was opened just before has no names yet
      change (if place.phase = .opened then Phase.header else .inside) = .header at hheader
      split at hheader
      · rename_i hopened
        obtain ⟨m, others, hold, hlast, -, hnone⟩ := h.opened hopened
        have hnew : (live.enter .block).chain.ids = live.tree.nextId :: live.chain.ids := rfl
        rw [show (live.step (.enter .block)).chain.ids = _ from hnew, hold, hlast] at hids
        change d ∈ (live.enter .block).listed n at hd
        rw [listed_enter, ← (List.cons.inj (List.cons.inj hids).2).1, hnone] at hd
        exact absurd hd List.not_mem_nil
      · cases hheader
  | bind binding name site =>
    change (if binding.inHeader then place.phase else .inside) = .header at hheader
    split at hheader
    · rename_i hin
      obtain ⟨block, function, rest, hview, hblock, hfunction, hfunctionKind⟩ := h.view hfits.1
      obtain ⟨verdict, hjudged, hstep⟩ := h.kept.coupled.bind_spec hview hfunction name site
      cases verdict with
      | clashes clash first =>
        rw [hstep, record_chain] at hids
        rw [hstep, record_listed] at hd
        exact hheaded hheader n outer hids d hd hkind
      | declares scope =>
        obtain ⟨hscope, hstep⟩ := hstep
        have hsame (decl : Declaration) : (live.declare decl).chain.ids = live.chain.ids :=
          Chain.ids_bindAt _
        rw [hstep, record_chain, hsame] at hids
        rw [hstep, record_listed] at hd
        rcases mem_listed_declare h.kept.coupled rfl hscope hd with hold | ⟨rfl, hn⟩
        · exact hheaded hheader n outer hids d hold hkind
        · cases binding with
          | ownName => exact ⟨site, rfl, hown name site rfl⟩
          | parameter => cases hkind
          | declarator kind => cases hin
          | catchParameter => cases hin
          | functionName =>
            -- the name of a function declaration belongs outside of its function
            have hplace : scope = function.id := hjudged.scope_eq
            have houter : function.id ∈ outer := by
              have hdrop : Chain.ids (block :: rest) = outer := by
                rw [← hview, Chain.ids, List.map_drop]
                change live.chain.ids.drop 2 = outer
                rw [hids]
                rfl
              rw [← hdrop]
              exact List.mem_map_of_mem (List.mem_of_find?_eq_some hfunction)
            have horder := h.kept.coupled.order
            rw [hids] at horder
            have hlt : n > function.id := List.rel_of_pairwise_cons horder.tail houter
            have hn : n = function.id := hn.trans hplace
            exact absurd hlt (hn ▸ Nat.lt_irrefl _)
    · cases hheader

/-- Along an orderly walk, a scope lists a name again only where the
declarations before give way. -/
theorem run_distinct (h : live.Stands place) (hdistinct : live.Distinct own)
    (hheaded : live.Headed own place) {events : List ScopeEvent} (horderly : Orderly place events)
    (hown : ∀ name site, .bind .ownName name site ∈ events → own site) :
    (live.run events).Distinct own := by
  induction events generalizing live place with
  | nil => exact hdistinct
  | cons event events ih =>
    refine ih (h.step horderly.1) (h.distinct_step hdistinct hheaded horderly.1)
      (h.headed_step hheaded horderly.1 ?_) horderly.2 ?_
    · rintro name site rfl
      exact hown name site List.mem_cons_self
    · exact fun name site hmem => hown name site (List.mem_cons_of_mem _ hmem)

/-! ### Listed declarations -/

/-- Every declaration is listed in its own scope. -/
def Filed (live : Live String) : Prop := ∀ d ∈ live.declarations, d ∈ live.listed d.scope

theorem Filed.record (h : live.Filed) (name : String) (site : Site) (outcome : Outcome) :
    (live.record name site outcome).Filed := by
  intro d hd
  rw [record_declarations] at hd
  rw [record_listed]
  exact h d hd

theorem Filed.declare (h : live.Filed) (hcoupled : live.Coupled) {decl : Declaration}
    (hid : decl.id = live.declarations.length) (hscope : decl.scope ∈ live.chain.ids) :
    (live.declare decl).Filed := by
  intro d hd
  rw [listed_declare hcoupled hid (hcoupled.opened _ hscope)]
  rcases List.mem_append.mp hd with hold | hnew
  · exact List.mem_append_left _ (h d hold)
  · rw [List.mem_singleton.mp hnew, if_pos rfl]
    exact List.mem_append_right _ (List.mem_singleton_self _)

theorem Filed.step (h : live.Filed) (hcoupled : live.Coupled) (event : ScopeEvent) :
    (live.step event).Filed := by
  have henter (kind : ScopeKind) : (live.enter kind).Filed := by
    intro d hd
    rw [listed_enter]
    exact h d hd
  exact step_keeps hcoupled.nodup h henter h (fun _ => h.declare hcoupled)
    (fun _ hnext => hnext.record) event

theorem run_filed (h : live.Filed) (hcoupled : live.Coupled) (events : List ScopeEvent) :
    (live.run events).Filed :=
  hcoupled.run_keeps (fun _ hcoupled hnext => hnext.step hcoupled) h events

end Live

/-! ### Whole programs -/

/-- The declarations of one name that a program makes in a function: at most
one, or the own name of a function expression and a parameter. -/
inductive Program.Unrepeated (p : Program) : List Declaration → Prop where
  | none : Unrepeated p []
  | one (d : Declaration) : Unrepeated p [d]
  | parameter {function argument : Declaration} {o : Occurrence} (ho : o ∈ p.occurrences)
      (hown : o.binding = some .ownName) (hsite : function.site = some o.site)
      (hfunction : function.kind = .function) (hargument : argument.kind = .argument) :
      Unrepeated p [function, argument]

/-- The site of the own name of a function expression. -/
def Program.OwnName (p : Program) (site : Site) : Prop :=
  ∃ o ∈ p.occurrences, o.binding = some .ownName ∧ o.site = site

theorem Program.unrepeated_of_pairwise {p : Program} {l : List Declaration}
    (h : l.Pairwise (Declaration.GivesWay p.OwnName)) (hhosts : ∀ d ∈ l, d.isHost = false) :
    p.Unrepeated l := by
  match l, h, hhosts with
  | [], _, _ => exact .none
  | [d], _, _ => exact .one d
  | d :: d' :: rest, h, hhosts =>
    cases List.rel_of_pairwise_cons h List.mem_cons_self with
    | host hhost =>
      rw [hhosts d List.mem_cons_self] at hhost
      cases hhost
    | ownName hsite hown hkind hparameter =>
      obtain ⟨o, ho, hbinding, rfl⟩ := hown
      match rest, h, hhosts with
      | [], _, _ => exact .parameter ho hbinding hsite hkind hparameter
      | e :: rest, h, hhosts =>
        -- nothing comes after a parameter
        cases List.rel_of_pairwise_cons h.tail List.mem_cons_self with
        | host hhost =>
          rw [hhosts d' (List.mem_cons_of_mem _ List.mem_cons_self)] at hhost
          cases hhost
        | ownName _ _ hfunction =>
          rw [hparameter] at hfunction
          cases hfunction

/-- What the scopes of a resolution list, and where its declarations stand. -/
structure Program.Disciplined (p : Program) (r : Resolution) : Prop where
  /-- The first scope is a function, with no scope around it and all others
  inside. -/
  outermost : r.scopes.kind? 0 = some .function ∧ r.scopes.parent? 0 = none ∧
    ∀ scope < r.scopes.nextId, r.scopes.isWithin scope 0 = true
  /-- Every declaration is listed in its scope, and nowhere else. -/
  listed : ∀ scope d, d ∈ r.scopes.listed r.declarations scope ↔
    d ∈ r.declarations ∧ d.scope = scope
  /-- A block lists what `let`, `const` and catch clauses declare, each name
  once. -/
  blocks : ∀ scope, r.scopes.kind? scope = some .block →
    (∀ d ∈ r.scopes.listed r.declarations scope, d.kind ∈ [.lexical, .const, .caught]) ∧
      ((r.scopes.listed r.declarations scope).map (·.name)).Nodup
  /-- A function lists variables, functions and parameters; of each name one that
  the program declares, or its own name and a parameter. -/
  functions : ∀ scope, r.scopes.kind? scope = some .function →
    (∀ d ∈ r.scopes.listed r.declarations scope, d.kind ∈ [.var, .function, .argument]) ∧
      ∀ name, p.Unrepeated ((r.scopes.listed r.declarations scope).filter fun d =>
        d.name = name ∧ d.isHost = false)
  /-- Names of the host are declared in the outermost scope, -/
  hosts : ∀ d ∈ r.declarations, d.isHost = true → d.scope = 0
  /-- each once. -/
  hostNames : (((r.scopes.listed r.declarations 0).filter (·.isHost)).map (·.name)).Nodup
  /-- Every binder stands inside the scope that lists its name. -/
  within : ∀ d ∈ r.declarations, r.scopes.isWithin d.blockScope d.scope = true

section lists

variable {own : Site → Prop} {live : Live String} {scope : ScopeId}

/-- A block does not repeat names. -/
theorem Live.Kept.names_nodup (h : live.Kept) (hdistinct : live.Distinct own)
    (hkind : live.tree.kind? scope = some .block) :
    ((live.listed scope).map (·.name)).Nodup := by
  refine List.pairwise_map.mpr ((hdistinct scope).imp_of_mem fun {d d'} hd _ hgives hname => ?_)
  have hscoped := (h.sorted scope d hd).mpr hkind
  cases hgives hname with
  | host hhost =>
    rw [h.kind_of_isHost hd hhost] at hscoped
    cases hscoped
  | ownName _ _ hfunction =>
    rw [hfunction] at hscoped
    cases hscoped

/-- No scope repeats a name of the host. -/
theorem Live.Distinct.hostNames_nodup (h : live.Distinct own) (scope : ScopeId) :
    (((live.listed scope).filter (·.isHost)).map (·.name)).Nodup := by
  refine List.pairwise_map.mpr (((h scope).filter (·.isHost)).imp_of_mem
    fun {d d'} hd hd' hgives hname => ?_)
  have hhost := (List.mem_filter.mp hd).2
  have hhost' := (List.mem_filter.mp hd').2
  cases hgives hname with
  | host _ hnew =>
    rw [hhost'] at hnew
    cases hnew
  | ownName hsite =>
    rw [Declaration.isHost, hsite] at hhost
    cases hhost

theorem Live.Distinct.unrepeated {p : Program} (h : live.Distinct p.OwnName) (scope : ScopeId)
    (name : String) :
    p.Unrepeated ((live.listed scope).filter fun d => d.name = name ∧ d.isHost = false) := by
  refine Program.unrepeated_of_pairwise ?_ ?_
  · refine ((h scope).filter _).imp_of_mem fun {d d'} hd hd' hgives => hgives ?_
    have hname := (of_decide_eq_true (List.mem_filter.mp hd).2).1
    have hname' := (of_decide_eq_true (List.mem_filter.mp hd').2).1
    exact hname.trans hname'.symm
  · exact fun d hd => (of_decide_eq_true (List.mem_filter.mp hd).2).2

/-- Blocks list what is bound in blocks, and functions all else. -/
theorem Live.Kept.kind_mem (h : live.Kept) {d : Declaration} (hd : d ∈ live.listed scope) :
    (live.tree.kind? scope = some .block → d.kind ∈ [.lexical, .const, .caught]) ∧
      (live.tree.kind? scope = some .function → d.kind ∈ [.var, .function, .argument]) := by
  have hsorted := h.sorted scope d hd
  constructor
  · intro hkind
    have hscoped := hsorted.mpr hkind
    revert hscoped
    cases d.kind <;> decide
  · intro hkind
    have hscoped : ¬ d.kind.isBlockScoped = true := by
      rw [hsorted, hkind]
      decide
    revert hscoped
    cases d.kind <;> decide

end lists

/-- Every binder of a program stands inside the scope that lists its name. -/
theorem Program.AllEvents.within {p : Program} {options : ResolveOptions}
    {events : List ScopeEvent} (h : p.AllEvents options events)
    (hhosts : ∀ d ∈ (Live.start.run events).declarations, d.isHost = true →
      d.scope = 0 ∧ d.blockScope = 0) :
    ∀ d ∈ (p.resolution options).declarations,
      (p.resolution options).scopes.isWithin d.blockScope d.scope = true := by
  intro d hd
  rw [show (p.resolution options).declarations = (Live.start.run events).declarations from
    congrArg Resolution.declarations h.resolution] at hd
  cases hhost : d.isHost with
  | true =>
    obtain ⟨hscope, hblock⟩ := hhosts d hd hhost
    rw [hscope, hblock]
    exact Live.isWithin_self _ _
  | false =>
    rw [← Live.before_length] at hd
    obtain ⟨i, -, binding, site, block, function, rest, hmade⟩ :=
      Live.made_before h.orderly hd hhost
    rw [hmade.blockScope_eq, h.isWithin_iff hmade.toBoundAt, hmade.scope_eq]
    split
    · exact List.mem_cons_self
    · exact List.mem_map_of_mem hmade.function_mem

/-- The lists of an imported program keep to the rules, whatever names are there
before it. -/
theorem importProgram_disciplined {raw : Json} {file : Option String} {p : Program}
    (h : importProgram raw file = .ok p) (options : ResolveOptions) :
    p.Disciplined (p.resolution options) := by
  obtain ⟨inner, hwalked, hmet⟩ := importProgram_walk h
  have hall := Program.allEvents hwalked hmet options
  have horderly := hmet.orderly options.names
  have hrooted := hwalked.rooted hmet options.names
  -- closing the last two scopes changes no list
  generalize hlive : Live.start.run (openingEvents options.names ++ inner) = live at hrooted
  have hend : Live.start.run (openingEvents options.names ++ (inner ++ [.leave, .leave]))
      = live.leave.leave := by
    rw [← List.append_assoc, Live.run_append, hlive]
    rfl
  have hresolution : p.resolution options = live.resolution := by
    rw [hall.resolution, hend]
    rfl
  have hkept : live.Kept := by
    rw [← hlive]
    exact (Live.run_stands Live.stands_start horderly).kept
  have hdistinct : live.Distinct p.OwnName := by
    rw [← hlive]
    refine Live.run_distinct Live.stands_start ?_ ?_ horderly fun name site hmem => ?_
    · exact fun scope => List.Pairwise.nil
    · exact fun hheader => by cases hheader
    · obtain ⟨i, hi⟩ := List.mem_iff_getElem?.mp (List.mem_append_left [.leave, .leave] hmem)
      rw [List.append_assoc] at hi
      exact ⟨_, hall.mem_occurrences hi, rfl, rfl⟩
  have hfiled : live.Filed := by
    rw [← hlive]
    exact Live.run_filed (fun _ hd => absurd hd List.not_mem_nil) Live.coupled_start _
  have hwithin := hall.within (by rw [hend]; exact hrooted.hosts)
  rw [hresolution] at hwithin ⊢
  exact {
    outermost := ⟨hrooted.root.1, hrooted.root.2, fun scope hscope =>
      List.any_eq_true.mpr ⟨0, hrooted.around scope hscope, decide_eq_true rfl⟩⟩
    listed := fun scope d => ⟨fun hd => ⟨Live.mem_of_listed hd, hkept.placed scope d hd⟩,
      fun hd => hd.2 ▸ hfiled d hd.1⟩
    blocks := fun scope hkind => ⟨fun d hd => (hkept.kind_mem hd).1 hkind,
      hkept.names_nodup hdistinct hkind⟩
    functions := fun scope hkind => ⟨fun d hd => (hkept.kind_mem hd).2 hkind,
      hdistinct.unrepeated scope⟩
    hosts := fun d hd hhost => (hrooted.hosts d hd hhost).1
    hostNames := hdistinct.hostNames_nodup 0
    within := hwithin }

/-- A function expression whose parameter has its own name, beside a variable
named like one of the host. -/
def repeatedOwnName : Json :=
  let x : Json := .object [("type", .string "Identifier"), ("name", .string "x")]
  programWith [
    .object [("type", .string "VariableDeclaration"), ("kind", .string "var"),
      ("declarations", .array [.object [("type", .string "VariableDeclarator"),
        ("id", .object [("type", .string "Identifier"), ("name", .string "print")]),
        ("init", .null)]])],
    .object [("type", .string "ExpressionStatement"),
      ("expression", .object [("type", .string "FunctionExpression"), ("id", x),
        ("params", .array [x]), ("body", blockWith [])])]]

/-- The function lists its own name and the parameter. -/
theorem repeatedOwnName_disciplined :
    ∃ p, importProgram repeatedOwnName none = .ok p ∧ p.Disciplined (p.resolution {}) ∧
      ((p.resolution {}).scopes.listed (p.resolution {}).declarations 2).map (fun d =>
        (d.name, d.kind)) = [("x", .function), ("x", .argument)] := by
  have hlisted : (importProgram repeatedOwnName none).toOption.map (fun p =>
      ((p.resolution {}).scopes.listed (p.resolution {}).declarations 2).map fun d =>
        (d.name, d.kind)) = some [("x", .function), ("x", .argument)] := by decide +kernel
  obtain ⟨p, hp, hlisted⟩ := Option.map_eq_some_iff.mp hlisted
  have himport := importProgram_of_toOption hp
  exact ⟨p, himport, importProgram_disciplined himport {}, hlisted⟩

end EsFront
