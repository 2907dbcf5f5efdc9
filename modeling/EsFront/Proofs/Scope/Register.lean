/-
Records and identifiers.

A walk leaves one record for each identifier, in order, and what a record refers
to is one of the declarations (`Live.Registered`). So what an identifier is
resolved to can be read off the references and the declarations
(`Resolution.declarationOf?`). Main statements:

* `Live.run_registered` — along every orderly walk;
* `Live.Registered.declarationOf?_eq` — the references tell what the records do.
-/
import EsFront.Proofs.Scope.Accounts
import EsFront.Proofs.Scope.Moments

namespace EsFront

/-- The declaration that the identifier with the given number is resolved to. -/
def Resolution.declarationOf? (r : Resolution) (node : NodeId) : Option Declaration :=
  (r.references.lookup node).bind (r.declarations[·]?)

/-- The record is that of the identifier: only a use is undefined, and what the
record refers to is one of the declarations. -/
structure Mention.Registers (declarations : List Declaration) (m : Mention) (o : Occurrence) :
    Prop where
  name : m.name = o.name
  site : m.site = o.site
  undefined : m.outcome = .undefined → o.binding = none
  known : ∀ d, m.target? = some d → d ∈ declarations

theorem Mention.Registers.mono {declarations more : List Declaration} {m : Mention}
    {o : Occurrence} (h : m.Registers declarations o) (hsub : declarations ⊆ more) :
    m.Registers more o := ⟨h.name, h.site, h.undefined, fun d hd => hsub (h.known d hd)⟩

namespace Live

variable {live : Live String} {place : Place} {os : List Occurrence}

/-- The records are those of the given identifiers, in order. -/
def Registered (live : Live String) (os : List Occurrence) : Prop :=
  List.Forall₂ (Mention.Registers live.declarations) live.mentions os

theorem record_eq {scope : ScopeId} (hscope : live.chain.current? = some scope) (name : String)
    (site : Site) (outcome : Outcome) : live.record name site outcome
      = { live with mentions := live.mentions ++ [⟨name, site, scope, outcome⟩] } := by
  rw [record, hscope]

/-- One more record, after declarations may have been added. -/
theorem Registered.concat (h : live.Registered os) {next : Live String} {m : Mention}
    {o : Occurrence} (hmentions : next.mentions = live.mentions ++ [m])
    (hsub : live.declarations ⊆ next.declarations) (hm : m.Registers next.declarations o) :
    next.Registered (os ++ [o]) := by
  rw [Registered, hmentions]
  exact List.rel_append (h.imp fun _ _ hold => hold.mono hsub) (.cons hm .nil)

theorem Registered.bind (h : live.Registered os) (hstands : live.Stands place) {binding : Binding}
    {name : String} {site : Site} (hfits : (ScopeEvent.bind binding name site).Fits place) :
    (live.step (.bind binding name site)).Registered (os ++ [⟨name, site, some binding⟩]) := by
  obtain ⟨block, function, rest, hview, hblock, hfunction, hkind⟩ := hstands.view hfits.1
  obtain ⟨verdict, hjudged, hstep⟩ := hstands.kept.coupled.bind_spec hview hfunction name site
  obtain ⟨current, hcurrent⟩ := Chain.exists_current hview
  cases verdict with
  | declares scope =>
    obtain ⟨-, hstep⟩ := hstep
    generalize live.made binding name site scope block.id = decl at hstep
    have hnew : (live.declare decl).chain.current? = some current := by
      rw [current?_declare, hcurrent]
    have hsub : live.declarations ⊆ live.declarations ++ [decl] := List.subset_append_left _ _
    rw [hstep, record_eq hnew]
    refine h.concat rfl hsub ⟨rfl, rfl, (nomatch ·), ?_⟩
    rintro d ⟨⟩
    exact List.mem_append_right _ (List.mem_singleton_self _)
  | clashes clash first =>
    obtain ⟨-, hmem, -, -⟩ := hstands.clash_spec hfits hview hblock hfunction hkind hjudged
    rw [hstep, record_eq hcurrent]
    refine h.concat rfl (List.Subset.refl _) ⟨rfl, rfl, (nomatch ·), ?_⟩
    rintro d ⟨⟩
    exact hmem

theorem Registered.use (h : live.Registered os) (hstands : live.Stands place) {name : String}
    {site : Site} (hfits : (ScopeEvent.use name site).Fits place) :
    (live.step (.use name site)).Registered (os ++ [⟨name, site, none⟩]) := by
  obtain ⟨block, function, rest, hview, -⟩ := hstands.view (n := 0) hfits
  obtain ⟨current, hcurrent⟩ := Chain.exists_current hview
  have hsame := live.use_declarations name site
  refine h.concat (use_mentions hstands.kept.coupled hcurrent name site)
    (hsame ▸ List.Subset.refl _) ⟨rfl, rfl, fun _ => rfl, fun d hd => ?_⟩
  rw [hsame]
  cases hfound : (live.tree.ancestors current).findSome? (live.lastIn name) with
  | none =>
    rw [hfound] at hd
    cases hd
  | some found =>
    rw [hfound] at hd
    cases hd
    obtain ⟨scope, -, hlast⟩ := List.exists_of_findSome?_eq_some hfound
    exact mem_of_listed (mem_listed_of_lastIn hlast).1

theorem Registered.step (h : live.Registered os) (hstands : live.Stands place)
    {event : ScopeEvent} (hfits : event.Fits place) :
    (live.step event).Registered (os ++ event.occurrence?.toList) := by
  cases event with
  | enter kind =>
    rw [show (ScopeEvent.enter kind).occurrence?.toList = [] from rfl, List.append_nil]
    exact h
  | leave =>
    rw [show ScopeEvent.leave.occurrence?.toList = [] from rfl, List.append_nil]
    exact h
  | predeclare name =>
    rw [show (ScopeEvent.predeclare name).occurrence?.toList = [] from rfl, List.append_nil]
    rcases hstands.kept.coupled.predeclare_spec name with ⟨scope, -, -, -, hstep⟩ | hstep
    · rw [hstep]
      exact h.imp fun _ _ hold => hold.mono (List.subset_append_left _ _)
    · rw [hstep]
      exact h
  | bind binding name site => exact h.bind hstands hfits
  | use name site => exact h.use hstands hfits

/-- Every identifier leaves one record. -/
theorem run_registered (h : live.Registered os) (hstands : live.Stands place)
    {events : List ScopeEvent} (horderly : Orderly place events) :
    (live.run events).Registered (os ++ events.filterMap ScopeEvent.occurrence?) := by
  induction events generalizing live place os with
  | nil =>
    rw [List.filterMap_nil, List.append_nil]
    exact h
  | cons event events ih =>
    rw [filterMap_cons_toList, ← List.append_assoc]
    exact ih (h.step hstands horderly.1) (hstands.step horderly.1) horderly.2

namespace Registered

/-- Each record is that of an identifier. -/
theorem exists_occurrence (h : live.Registered os) {m : Mention} (hm : m ∈ live.mentions) :
    ∃ o ∈ os, m.Registers live.declarations o := by
  obtain ⟨i, hi, rfl⟩ := List.mem_iff_getElem.mp hm
  have hj : i < os.length := h.length_eq ▸ hi
  exact ⟨os[i], List.getElem_mem hj, h.get hi hj⟩

/-- Each identifier has a record. -/
theorem exists_mention (h : live.Registered os) {o : Occurrence} (ho : o ∈ os) :
    ∃ m ∈ live.mentions, m.Registers live.declarations o := by
  obtain ⟨i, hi, rfl⟩ := List.mem_iff_getElem.mp ho
  have hj : i < live.mentions.length := h.length_eq.symm ▸ hi
  exact ⟨live.mentions[i], List.getElem_mem hj, h.get hj hi⟩

/-- What an identifier is resolved to is what its record refers to. -/
theorem declarationOf?_eq (h : live.Registered os) (hcoupled : live.Coupled)
    (hpairs : live.mentions.Pairwise fun a b => a.site.node ≠ b.site.node) (node : NodeId) :
    live.resolution.declarationOf? node = (live.resolution.mention? node).bind (·.target?) := by
  rw [Resolution.declarationOf?, Resolution.mention?]
  change (live.resolution.references.lookup node).bind (live.declarations[·]?)
    = (live.mentions.find? (·.site.node = node)).bind (·.target?)
  cases hfind : live.mentions.find? (·.site.node = node) with
  | none =>
    have hnone : live.resolution.references.lookup node = none := by
      rw [List.lookup_eq_none_iff]
      intro entry hentry
      obtain ⟨m, hm, hread⟩ := List.mem_filterMap.mp hentry
      obtain ⟨d, -, rfl⟩ := Option.map_eq_some_iff.mp hread
      have hnot := List.find?_eq_none.mp hfind m hm
      rw [decide_eq_true_eq] at hnot
      exact bne_iff_ne.mpr (Ne.symm hnot)
    rw [hnone]
    rfl
  | some m =>
    have hm := List.mem_of_find?_eq_some hfind
    have hnode := List.find?_some hfind
    rw [decide_eq_true_eq] at hnode
    have hlookup := lookup_mention (fun m => m.target?.map (·.id)) hpairs hm
    simp only [Option.map_map] at hlookup
    have hreferences : live.resolution.references.lookup node = m.target?.map (·.id) := by
      rw [← hnode]
      exact hlookup
    rw [hreferences, Option.bind_some]
    cases htarget : m.target? with
    | none => rfl
    | some d =>
      -- what is declared is found under its number
      obtain ⟨o, -, hregisters⟩ := h.exists_occurrence hm
      obtain ⟨i, hi⟩ := List.mem_iff_getElem?.mp (hregisters.known d htarget)
      rw [Option.map_some, Option.bind_some, hcoupled.ids i d hi]
      exact hi

end Registered

end Live

/-! ### Whole programs -/

namespace Program.AllEvents

variable {p : Program} {options : ResolveOptions} {events : List ScopeEvent}

theorem registered (h : p.AllEvents options events) :
    (Live.start.run events).Registered p.occurrences := by
  have hstart : (Live.start : Live String).Registered [] := List.Forall₂.nil
  have hwalk := Live.run_registered hstart Live.stands_start h.orderly
  rw [h.occurrences, List.nil_append] at hwalk
  exact hwalk

/-- What the identifiers of a program are resolved to is what their records refer
to. -/
theorem declarationOf?_eq (h : p.AllEvents options events) (node : NodeId) :
    (p.resolution options).declarationOf? node
      = ((p.resolution options).mention? node).bind (·.target?) := by
  rw [h.resolution]
  exact h.registered.declarationOf?_eq (Live.run_coupled Live.coupled_start _) h.records node

end Program.AllEvents

end EsFront
