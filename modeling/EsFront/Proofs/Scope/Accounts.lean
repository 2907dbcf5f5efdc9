/-
Every identifier is accounted for.

A walked identifier that binds its name makes one declaration, or makes none,
is merged into an earlier declaration of that name, and is reported once; any
other names a declaration, or is reported once as undefined. There are no other
declarations of the program, references or reports. Main statement:
`importProgram_accounts`.

The report of a merged binder is an error in exactly two cases: one of the two
declarations is by `const`, or one of them is bound in a block and the other in
a function (`Live.Stands.clash_spec`). This rests on what blocks and functions can
list.
-/
import EsFront.Proofs.Scope.Occurrences

namespace EsFront

/-- What became of an identifier: the declaration it made, the one it names, and
what was reported about it. -/
structure Account where
  identifier : Occurrence
  created : Option Declaration
  named : Option DeclId
  report : Option Diagnostic

namespace Account

/-- The entry of the identifier among the references. -/
def reference? (a : Account) : Option (NodeId × DeclId) :=
  a.named.map fun decl => (a.identifier.site.node, decl)

/-- The accounts that are in order, given all declarations. -/
inductive Sound (declarations : List Declaration) : Account → Prop where
  | declared {o : Occurrence} {binding : Binding} {d : Declaration}
      (hbinding : o.binding = some binding) (hsite : d.site = some o.site)
      (hname : d.name = o.name) (hkind : d.kind = binding.kind) :
      Sound declarations ⟨o, some d, some d.id, none⟩
  | merged {o : Occurrence} {binding : Binding} {first : Declaration} {site : Site}
      {report : Diagnostic} (hbinding : o.binding = some binding)
      (hfirst : first ∈ declarations) (hname : first.name = o.name)
      (hsite : first.site = some site) (hearlier : site.node < o.site.node)
      (hcode : report.code ∈ [2001, 2002, 2003])
      (herror : report.isError = true ↔ (first.kind = .const ∨ binding.kind = .const) ∨
        first.kind.isBlockScoped ≠ binding.kind.isBlockScoped)
      (hplace : report.loc = o.site.loc)
      (hrelated : report.related.head?.map (·.loc) = some first.loc) :
      Sound declarations ⟨o, none, some first.id, some report⟩
  | resolved {o : Occurrence} {d : Declaration} (hbinding : o.binding = none)
      (hd : d ∈ declarations) (hname : d.name = o.name) :
      Sound declarations ⟨o, none, some d.id, none⟩
  | undefined {o : Occurrence} {report : Diagnostic} (hbinding : o.binding = none)
      (hcode : report.code = 2004) (hplace : report.loc = o.site.loc) :
      Sound declarations ⟨o, none, none, some report⟩

theorem Sound.mono {declarations more : List Declaration} {a : Account}
    (h : a.Sound declarations) (hsub : declarations ⊆ more) : a.Sound more := by
  cases h with
  | declared hbinding hsite hname hkind => exact .declared hbinding hsite hname hkind
  | merged hbinding hfirst hname hsite hearlier hcode herror hplace hrelated =>
    exact .merged hbinding (hsub hfirst) hname hsite hearlier hcode herror hplace hrelated
  | resolved hbinding hd hname => exact .resolved hbinding (hsub hd) hname
  | undefined hbinding hcode hplace => exact .undefined hbinding hcode hplace

theorem Sound.site_of_created {declarations : List Declaration} {a : Account} {d : Declaration}
    (h : a.Sound declarations) (hd : a.created = some d) : d.site = some a.identifier.site := by
  cases h with
  | declared _ hsite =>
    cases hd
    exact hsite
  | merged => cases hd
  | resolved => cases hd
  | undefined => cases hd

end Account

/-- What a clash is called tells how severe it is. -/
theorem Clash.message_spec (clash : Clash) (first second : DeclKind) :
    (clash.message first second).code ∈ [2001, 2002, 2003] ∧
      ((clash.message first second).category = .error ↔
        (first = .const ∨ second = .const) ∨ clash = .conflict) := by
  unfold Clash.message DeclKind.isConst
  by_cases hconst : first = .const ∨ second = .const
  · rw [if_pos (by simpa using hconst)]
    exact ⟨by decide, fun _ => .inl hconst, fun _ => rfl⟩
  · rw [if_neg (by simpa using hconst)]
    cases clash with
    | redeclaration => exact ⟨by decide, by simp [hconst, Message.variableDefinedTwice]⟩
    | conflict => exact ⟨by decide, fun _ => .inr rfl, fun _ => rfl⟩

namespace Mention

/-- The declaration that the identifier made. -/
def created? (m : Mention) : Option Declaration :=
  match m.outcome with
  | .declared decl => some decl
  | .merged _ _ _ | .resolved _ | .undefined => none

/-- The account of an identifier with this record. -/
def account (m : Mention) (o : Occurrence) : Account :=
  ⟨o, m.created?, m.target?.map (·.id), m.diagnostic?⟩

theorem reference?_account {m : Mention} {o : Occurrence} (h : m.site = o.site) :
    (m.account o).reference? = m.target?.map fun d => (m.site.node, d.id) := by
  rw [Account.reference?, account, Option.map_map, h]
  rfl

end Mention

namespace Live

variable {live : Live String} {place : Place}

/-! ### Clashes -/

/-- What a binder clashes with is a declaration of the program. They are called a
conflict exactly when one is bound in a block and the other in a function. -/
theorem Stands.clash_spec (h : live.Stands place) {block function : Frame String}
    {rest : Chain String} {binding : Binding} {name : String} {site : Site} {clash : Clash}
    {first : Declaration} (hfits : (ScopeEvent.bind binding name site).Fits place)
    (hview : live.chain.drop binding.skipped = block :: rest) (hblock : block.kind = .block)
    (hfunction : Chain.function? (block :: rest) = some function)
    (hkind : function.kind = .function)
    (hjudged : Judged live (block :: rest) block function name binding (.clashes clash first)) :
    (clash = .conflict ↔ first.kind.isBlockScoped ≠ binding.kind.isBlockScoped) ∧
      first ∈ live.declarations ∧ first.name = name ∧ first.isHost = false := by
  -- the kind of a live scope tells how the names in it were bound
  have hlisted : ∀ frame ∈ block :: rest, live.lastIn name frame.id = some first →
      (first.kind.isBlockScoped = true ↔ frame.kind = .block) ∧
        first ∈ live.declarations ∧ first.name = name := by
    intro frame hframe hlast
    obtain ⟨hmem, hname⟩ := mem_listed_of_lastIn hlast
    have hlive : frame ∈ live.chain := by
      rw [← hview] at hframe
      exact List.mem_of_mem_drop hframe
    refine ⟨?_, mem_of_listed hmem, hname⟩
    rw [h.kept.sorted _ _ hmem, h.kept.framed frame hlive, Option.some_inj]
  have hinner := hlisted block List.mem_cons_self
  have houter := hlisted function (List.mem_of_find?_eq_some hfunction)
  -- the names of the host are declared like variables
  have hown : first ∈ live.declarations → first.kind ≠ .var → first.isHost = false := by
    intro hmem hvar
    refine Bool.eq_false_iff.mpr ?_
    exact fun hhost => hvar (h.kept.hosts _ hmem hhost)
  have hlexicalKind : first.kind.isBlockScoped = true → first.kind ≠ .var := by
    intro hscoped hvar
    rw [hvar] at hscoped
    cases hscoped
  have houterKind : live.lastIn name function.id = some first →
      first.kind.isBlockScoped = false := by
    intro hlast
    refine Bool.eq_false_iff.mpr fun hscoped => ?_
    have hcontra := (houter hlast).1.mp hscoped
    rw [hkind] at hcontra
    cases hcontra
  cases hjudged with
  | repeated hlexical hlast =>
    obtain ⟨hscoped, hmem, hname⟩ := hinner hlast
    have hscoped := hscoped.mpr hblock
    refine ⟨?_, hmem, hname, hown hmem (hlexicalKind hscoped)⟩
    rw [hscoped, show binding.kind.isBlockScoped = true from hlexical]
    simp
  | covered hlexical _ hlast hhost =>
    refine ⟨?_, (houter hlast).2.1, (houter hlast).2.2, hhost⟩
    rw [houterKind hlast, show binding.kind.isBlockScoped = true from hlexical]
    simp
  | @crossed _ _ frame hlexical _ hframe hlast hconst =>
    have hmem : frame ∈ block :: rest := (List.takeWhile_sublist _).subset hframe
    have hframeKind : frame.kind = .block := Chain.kind_of_mem_blocks hframe
    obtain ⟨hscoped, hdecl, hname⟩ := hlisted frame hmem hlast
    have hscoped := hscoped.mpr hframeKind
    refine ⟨?_, hdecl, hname, hown hdecl (hlexicalKind hscoped)⟩
    rw [hscoped, show binding.kind.isBlockScoped = false from hlexical]
    simp
  | merged hlexical _ _ hlast hhost =>
    refine ⟨?_, (houter hlast).2.1, (houter hlast).2.2, hhost⟩
    rw [houterKind hlast, show binding.kind.isBlockScoped = false from hlexical]
    simp
  | parameterRepeated hlast =>
    -- the host has no names in a function whose header is being walked
    obtain ⟨-, -, -, hhosts⟩ := h.header_view (hfits.2 rfl) hview hblock hfunction
    refine ⟨?_, (houter hlast).2.1, (houter hlast).2.2,
      hhosts _ (mem_listed_of_lastIn hlast).1⟩
    rw [houterKind hlast]
    simp [Binding.kind, DeclKind.isBlockScoped]

/-! ### One event -/

/-- The event is that of an identifier, and settles its account. -/
structure Settles (live : Live String) (o : Occurrence) (m : Mention) (next : Live String) :
    Prop where
  site : m.site = o.site
  mentions : next.mentions = live.mentions ++ [m]
  declarations : next.declarations = live.declarations ++ m.created?.toList
  sound : (m.account o).Sound next.declarations

theorem Stands.settles_bind (h : live.Stands place) {binding : Binding} {name : String}
    {site : Site} (hfits : (ScopeEvent.bind binding name site).Fits place)
    (hearlier : ∀ d ∈ live.declarations, ∀ other, Declaration.site d = some other →
      other.node < site.node) :
    ∃ m, live.Settles ⟨name, site, some binding⟩ m (live.step (.bind binding name site)) := by
  obtain ⟨block, function, rest, hview, hblock, hfunction, hkind⟩ := h.view hfits.1
  obtain ⟨verdict, hjudged, hstep⟩ := h.kept.coupled.bind_spec hview hfunction name site
  obtain ⟨current, hcurrent⟩ := Chain.exists_current hview
  cases verdict with
  | declares scope =>
    obtain ⟨hscope, hstep⟩ := hstep
    generalize hmade : live.made binding name site scope block.id = decl at hstep
    refine ⟨⟨name, site, current, .declared decl⟩, rfl, ?_, ?_, ?_⟩
    · rw [hstep, Live.record, current?_declare, hcurrent]
      rfl
    · rw [hstep, record_declarations]
      rfl
    · rw [← hmade]
      exact .declared rfl rfl rfl rfl
  | clashes clash first =>
    obtain ⟨hconflict, hmem, hname, hhost⟩ :=
      h.clash_spec hfits hview hblock hfunction hkind hjudged
    -- a name of the host is in nobody's way, so the first binder has a site
    obtain ⟨other, hother⟩ : ∃ other, first.site = some other := by
      rw [Declaration.isHost] at hhost
      cases hsite : first.site with
      | none => rw [hsite] at hhost; cases hhost
      | some other => exact ⟨other, rfl⟩
    obtain ⟨hcode, hcategory⟩ := clash.message_spec first.kind binding.kind
    refine ⟨⟨name, site, current, .merged clash binding.kind first⟩, rfl, ?_, ?_, ?_⟩
    · rw [hstep, Live.record, hcurrent]
    · rw [hstep, record_declarations]
      exact (List.append_nil _).symm
    · rw [hstep, record_declarations]
      refine .merged rfl hmem hname hother (hearlier first hmem other hother) hcode ?_ rfl rfl
      rw [← hconflict, ← hcategory]
      exact decide_eq_true_iff

theorem Stands.settles_use (h : live.Stands place) {name : String} {site : Site}
    (hfits : (ScopeEvent.use name site).Fits place) :
    ∃ m, live.Settles ⟨name, site, none⟩ m (live.step (.use name site)) := by
  obtain ⟨block, function, rest, hview, -⟩ := h.view (n := 0) hfits
  have hcurrent : live.chain.current? = some block.id := by
    rw [show live.chain = block :: rest from hview]
    rfl
  have hmentions := use_mentions h.kept.coupled hcurrent name site
  have hsame := live.use_declarations name site
  refine ⟨_, ⟨?_, hmentions, ?_, ?_⟩⟩
  · rfl
  · rw [hsame]
    split
    · exact (List.append_nil _).symm
    · exact (List.append_nil _).symm
  · rw [hsame]
    split
    · rename_i d hfound
      obtain ⟨scope, -, hlast⟩ := List.exists_of_findSome?_eq_some hfound
      obtain ⟨hmem, hname⟩ := mem_listed_of_lastIn hlast
      exact .resolved rfl (mem_of_listed hmem) hname
    · exact .undefined rfl rfl rfl

/-! ### Whole walks -/

/-- All that the later state has more is on the accounts. -/
structure Accounted (live : Live String) (accounts : List Account) (next : Live String) : Prop where
  declarations : next.declarations = live.declarations ++ accounts.filterMap (·.created)
  mentions : ∃ new, next.mentions = live.mentions ++ new ∧
    (new.filterMap fun m => m.target?.map fun d => (m.site.node, d.id))
      = accounts.filterMap Account.reference? ∧
    new.filterMap Mention.diagnostic? = accounts.filterMap (·.report)
  sound : ∀ a ∈ accounts, a.Sound next.declarations

theorem Accounted.nil (live : Live String) : live.Accounted [] live where
  declarations := (List.append_nil _).symm
  mentions := ⟨[], (List.append_nil _).symm, rfl, rfl⟩
  sound := fun _ h => absurd h List.not_mem_nil

theorem Accounted.append {next last : Live String} {accounts more : List Account}
    (h : live.Accounted accounts next) (h' : next.Accounted more last) :
    live.Accounted (accounts ++ more) last where
  declarations := by
    rw [h'.declarations, h.declarations, List.filterMap_append, List.append_assoc]
  mentions := by
    obtain ⟨new, hnew, hentries, hreports⟩ := h.mentions
    obtain ⟨new', hnew', hentries', hreports'⟩ := h'.mentions
    refine ⟨new ++ new', by rw [hnew', hnew, List.append_assoc], ?_, ?_⟩
    · rw [List.filterMap_append, List.filterMap_append, hentries, hentries']
    · rw [List.filterMap_append, List.filterMap_append, hreports, hreports']
  sound := by
    intro a ha
    rcases List.mem_append.mp ha with ha | ha
    · refine (h.sound a ha).mono ?_
      rw [h'.declarations]
      exact List.subset_append_left _ _
    · exact h'.sound a ha

theorem Settles.accounted {o : Occurrence} {m : Mention} {next : Live String}
    (h : live.Settles o m next) : live.Accounted [m.account o] next where
  declarations := by
    rw [h.declarations, filterMap_cons_toList, List.filterMap_nil, List.append_nil]
    rfl
  mentions := by
    refine ⟨[m], h.mentions, ?_, ?_⟩
    · rw [filterMap_cons_toList, filterMap_cons_toList, Mention.reference?_account h.site]
      rfl
    · rw [filterMap_cons_toList, filterMap_cons_toList]
      rfl
  sound := by
    intro a ha
    rw [List.mem_singleton.mp ha]
    exact h.sound

/-- What is declared before some events has smaller numbers than what they are
about. -/
def Earlier (live : Live String) (events : List ScopeEvent) : Prop :=
  ∀ d ∈ live.declarations, ∀ site, Declaration.site d = some site →
    ∀ later ∈ events.filterMap ScopeEvent.site?, site.node < later.node

/-- One event inside a program is on the account of its identifier, if it has
one. -/
theorem Stands.accounted_step (h : live.Stands place) {event : ScopeEvent}
    (hfits : event.Fits place) {walked : List AnyNode} (hwithin : event.Within walked)
    (hearlier : live.Earlier [event]) :
    ∃ accounts, accounts.map (·.identifier) = event.occurrence?.toList ∧
      live.Accounted accounts (live.step event) := by
  cases event with
  | enter kind =>
    have hsame := Accounted.nil live
    exact ⟨[], rfl, hsame.declarations, hsame.mentions, hsame.sound⟩
  | leave =>
    have hsame := Accounted.nil live
    exact ⟨[], rfl, hsame.declarations, hsame.mentions, hsame.sound⟩
  | predeclare name => exact hwithin.elim
  | bind binding name site =>
    obtain ⟨m, hm⟩ := h.settles_bind hfits fun d hd other hother =>
      hearlier d hd other hother site List.mem_cons_self
    exact ⟨[m.account _], rfl, hm.accounted⟩
  | use name site =>
    obtain ⟨m, hm⟩ := h.settles_use hfits
    exact ⟨[m.account _], rfl, hm.accounted⟩

theorem Earlier.mono {events more : List ScopeEvent} (h : live.Earlier more)
    (hsub : events ⊆ more) : live.Earlier events := by
  intro d hd site hsite later hlater
  obtain ⟨event, hevent, hfound⟩ := List.mem_filterMap.mp hlater
  exact h d hd site hsite later (List.mem_filterMap.mpr ⟨event, hsub hevent, hfound⟩)

theorem Earlier.step {event : ScopeEvent} {events : List ScopeEvent} {accounts : List Account}
    {next : Live String} (h : live.Earlier (event :: events))
    (haccounts : live.Accounted accounts next)
    (hidentifiers : accounts.map (·.identifier) = event.occurrence?.toList)
    (horder : ((event :: events).filterMap ScopeEvent.site?).Pairwise (·.node < ·.node)) :
    next.Earlier events := by
  intro d hd site hsite later hlater
  rw [haccounts.declarations, List.mem_append] at hd
  rcases hd with hd | hd
  · exact h.mono (List.subset_cons_self _ _) d hd site hsite later hlater
  · -- a new declaration is made by the identifier of the event
    obtain ⟨a, ha, hcreated⟩ := List.mem_filterMap.mp hd
    have hown := (haccounts.sound a ha).site_of_created hcreated
    have hmem : a.identifier ∈ event.occurrence?.toList := by
      rw [← hidentifiers]
      exact List.mem_map_of_mem ha
    have hevent : event.site? = some site := by
      rw [event.site?_eq, Option.mem_toList.mp hmem, ← hsite, hown]
      rfl
    rw [filterMap_cons_toList, List.pairwise_append] at horder
    exact horder.2.2 site (Option.mem_toList.mpr hevent) later hlater

/-- Inside a program, every identifier is on an account. -/
theorem Stands.accounted (h : live.Stands place) {events : List ScopeEvent}
    (horderly : Orderly place events) {walked : List AnyNode}
    (hwithin : ∀ event ∈ events, event.Within walked) (hearlier : live.Earlier events)
    (horder : (events.filterMap ScopeEvent.site?).Pairwise (·.node < ·.node)) :
    ∃ accounts, accounts.map (·.identifier) = events.filterMap ScopeEvent.occurrence? ∧
      live.Accounted accounts (live.run events) := by
  induction events generalizing live place with
  | nil => exact ⟨[], rfl, .nil live⟩
  | cons event events ih =>
    rw [List.forall_mem_cons] at hwithin
    have hone : live.Earlier [event] :=
      hearlier.mono (List.cons_subset_cons event (List.nil_subset events))
    obtain ⟨accounts, hidentifiers, haccounts⟩ := h.accounted_step horderly.1 hwithin.1 hone
    have hrest : (events.filterMap ScopeEvent.site?).Pairwise (·.node < ·.node) := by
      rw [filterMap_cons_toList, List.pairwise_append] at horder
      exact horder.2.1
    obtain ⟨more, hmore, hmoreAccounts⟩ := ih (h.step horderly.1) horderly.2 hwithin.2
      (hearlier.step haccounts hidentifiers horder) hrest
    refine ⟨accounts ++ more, ?_, haccounts.append hmoreAccounts⟩
    rw [List.map_append, hidentifiers, hmore, filterMap_cons_toList]

end Live

/-! ### Whole programs -/

/-- Before the statements of a program are walked, there are only the names of
the host. -/
theorem openingEvents_hosts (names : List String) :
    (Live.start.run (openingEvents names)).mentions = [] ∧
      ∀ d ∈ (Live.start.run (openingEvents names)).declarations, d.isHost = true := by
  have hmentions : (Live.start.run (openingEvents names)).mentions = [] := by
    obtain ⟨new, hnew, hsites⟩ :=
      (Live.run_grows Live.coupled_start (openingEvents names)).mentions
    rw [sites_openingEvents, List.sublist_nil, List.map_eq_nil_iff] at hsites
    rw [hnew, hsites]
    rfl
  refine ⟨hmentions, fun d hd => ?_⟩
  -- every other declaration has a record
  rw [Declaration.isHost]
  cases hsite : d.site with
  | none => rfl
  | some site =>
    have hrecorded : (Live.start.run (openingEvents names)).Recorded :=
      Live.run_recorded (fun _ h => absurd h List.not_mem_nil) Live.coupled_start _
    obtain ⟨m, hm, -⟩ := hrecorded d hd site hsite
    rw [hmentions] at hm
    exact absurd hm List.not_mem_nil

/-- Every walked identifier of an imported program is on one account, in order;
all declarations of the program, all references and all reports are on these
accounts. -/
theorem importProgram_accounts {raw : Json} {file : Option String} {p : Program}
    (h : importProgram raw file = .ok p) (options : ResolveOptions) :
    p.walked.filterMap AnyNode.marked? = p.occurrences.map (·.marked) ∧
      p.occurrences.Pairwise (·.site.node < ·.site.node) ∧
      ∃ accounts : List Account, accounts.map (·.identifier) = p.occurrences ∧
        (∀ a ∈ accounts, a.Sound (p.resolution options).declarations) ∧
        (p.resolution options).programDeclarations = accounts.filterMap (·.created) ∧
        (p.resolution options).references = accounts.filterMap Account.reference? ∧
        (p.resolution options).diagnostics = accounts.filterMap (·.report) := by
  obtain ⟨inner, hwalked, hmet⟩ := importProgram_walk h
  have horder : p.occurrences.Pairwise (·.site.node < ·.site.node) := by
    have hsites : inner.filterMap ScopeEvent.site? = p.occurrences.map (·.site) := by
      rw [← hmet.occurrences, List.map_filterMap]
      exact List.filterMap_congr fun event _ => event.site?_eq
    have horder := hwalked.order
    rw [hsites, List.pairwise_map] at horder
    exact horder
  refine ⟨hmet.marked, horder, ?_⟩
  obtain ⟨hnone, hhosts⟩ := openingEvents_hosts options.names
  have horderly := orderly_append.mp (hmet.orderly options.names)
  have hstands := Live.run_stands Live.stands_start horderly.1
  have hearlier : (Live.start.run (openingEvents options.names)).Earlier inner := by
    intro d hd site hsite
    have hhost := hhosts d hd
    rw [Declaration.isHost, hsite] at hhost
    cases hhost
  obtain ⟨accounts, hidentifiers, haccounts⟩ :=
    hstands.accounted horderly.2 hwalked.within hearlier hwalked.order
  obtain ⟨new, hnew, hentries, hreports⟩ := haccounts.mentions
  have hdeclarations := haccounts.declarations
  have hsound := haccounts.sound
  rw [hnone, List.nil_append] at hnew
  -- the last two scopes are closed with nothing declared or recorded
  have hresolution : (p.resolution options).declarations
        = ((Live.start.run (openingEvents options.names)).run inner).declarations ∧
      (p.resolution options).mentions
        = ((Live.start.run (openingEvents options.names)).run inner).mentions := by
    rw [hwalked.resolution, walkedState, Live.run_append, Live.run_append]
    exact ⟨rfl, rfl⟩
  rw [← hresolution.1] at hdeclarations hsound
  rw [← hresolution.2] at hnew
  refine ⟨accounts, hidentifiers.trans hmet.occurrences, hsound, ?_, ?_, ?_⟩
  · have hold : (Live.start.run (openingEvents options.names)).declarations.filter (!·.isHost)
        = [] := by
      rw [List.filter_eq_nil_iff]
      intro d hd
      rw [hhosts d hd]
      exact Bool.false_ne_true
    have hmade : (accounts.filterMap (·.created)).filter (!·.isHost)
        = accounts.filterMap (·.created) := by
      rw [List.filter_eq_self]
      intro d hd
      obtain ⟨a, ha, hcreated⟩ := List.mem_filterMap.mp hd
      rw [Declaration.isHost, (hsound a ha).site_of_created hcreated]
      rfl
    rw [Resolution.programDeclarations, hdeclarations, List.filter_append, hold, hmade,
      List.nil_append]
  · rw [Resolution.references, hnew, hentries]
  · rw [Resolution.diagnostics, hnew, hreports]

/-- A name that is declared twice, then used beside one that is not declared. -/
def repeatedVariable : Json :=
  let name (text : String) : Json :=
    .object [("type", .string "Identifier"), ("name", .string text)]
  let declaration (keyword : String) : Json :=
    .object [("type", .string "VariableDeclaration"), ("kind", .string keyword),
      ("declarations", .array [.object [("type", .string "VariableDeclarator"), ("id", name "x"),
        ("init", .null)]])]
  let use (text : String) : Json :=
    .object [("type", .string "ExpressionStatement"), ("expression", name text)]
  .object [("type", .string "Program"),
    ("body", .array [declaration "let", declaration "var", use "x", use "y"])]

theorem repeatedVariable_accounts :
    ∃ p, importProgram repeatedVariable none = .ok p ∧
      (p.resolution {}).diagnostics.map (fun d => (d.code, d.isError))
        = [(2003, true), (2004, false)] ∧
      ∃ accounts : List Account, accounts.map (·.identifier) = p.occurrences ∧
        (∀ a ∈ accounts, a.Sound (p.resolution {}).declarations) ∧
        (p.resolution {}).diagnostics = accounts.filterMap (·.report) := by
  have hcodes : (importProgram repeatedVariable none).toOption.map (fun p =>
      (p.resolution {}).diagnostics.map fun d => (d.code, d.isError))
      = some [(2003, true), (2004, false)] := by decide +kernel
  obtain ⟨p, hp, hcodes⟩ := Option.map_eq_some_iff.mp hcodes
  have himport := importProgram_of_toOption hp
  obtain ⟨-, -, accounts, hidentifiers, hsound, -, -, hreports⟩ :=
    importProgram_accounts himport {}
  exact ⟨p, himport, hcodes, accounts, hidentifiers, hsound, hreports⟩

end EsFront
