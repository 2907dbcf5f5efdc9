/-
What one more name of the host changes in a resolution.

The reports about this name are gone, and what they were about is resolved to the
host. Everything else stays: all other reports, what was resolved before, the
declarations of the program, and the scopes (`Program.Silences`). Main statement:
`importProgram_silences`.
-/
import EsFront.Proofs.Diagnostic.Message
import EsFront.Proofs.Scope.Globals
import EsFront.Proofs.Scope.Outline
import EsFront.Proofs.Scope.Register

namespace EsFront

/-! ### Reports -/

/-- Whether a diagnostic says that the name is undefined. -/
def Diagnostic.reportsUndefined (d : Diagnostic) (name : String) : Bool :=
  d.code = Message.undefinedIdentifier.code &&
    d.message = formatMessage Message.undefinedIdentifier.template [name]

theorem reportsUndefined_located (loc : Option SourceLocation) (name other : String) :
    (Diagnostic.located loc .undefinedIdentifier [name]).reportsUndefined other
      = decide (name = other) := by
  change (decide (Message.undefinedIdentifier.code = _) && decide (formatMessage _ [name] = _)) = _
  rw [decide_eq_true rfl, Bool.true_and, decide_eq_decide, ← String.toList_inj,
    formatMessage_undefinedIdentifier, formatMessage_undefinedIdentifier, List.append_right_inj,
    List.append_left_inj, String.toList_inj]

namespace Mention

variable (k : DeclId) (g : String) (m : Mention)

/-- The new name takes away its own reports. -/
theorem diagnostic?_withHost : (m.withHost k g).diagnostic?
    = m.diagnostic?.filter fun d => !d.reportsUndefined g := by
  obtain ⟨name, site, scope, outcome⟩ := m
  cases outcome with
  | declared d => rfl
  | resolved d => rfl
  | merged clash kind first =>
    -- the report of a clash has another code
    have hcode : (clash.message first.kind kind).code ≠ Message.undefinedIdentifier.code := by
      intro heq
      have hmem := (clash.message_spec first.kind kind).1
      rw [heq] at hmem
      exact absurd hmem (by decide)
    have hnot : (Mention.clashReport ⟨name, site, scope, .merged clash kind first⟩ clash kind
        first).reportsUndefined g = false := by
      change (decide ((clash.message first.kind kind).code = _) && _) = false
      rw [decide_eq_false hcode, Bool.false_and]
    change _ = (some _).filter _
    rw [Option.filter_some, hnot]
    rfl
  | undefined =>
    change Mention.diagnostic? ⟨name, site, scope, if name = g then _ else _⟩ = (some _).filter _
    rw [Option.filter_some, reportsUndefined_located]
    by_cases hname : name = g
    · rw [if_pos hname, decide_eq_true hname]
      rfl
    · rw [if_neg hname, decide_eq_false hname]
      rfl

theorem target?_withHost_of_some {d : Declaration} (h : m.target? = some d) :
    (m.withHost k g).target? = some (d.moved k) := by
  obtain ⟨name, site, scope, outcome⟩ := m
  cases outcome with
  | undefined => cases h
  | _ =>
    cases h
    rfl

theorem target?_withHost_of_none (h : m.target? = none) : (m.withHost k g).target?
    = if m.name = g then some (.global k g) else none := by
  obtain ⟨name, site, scope, outcome⟩ := m
  cases outcome with
  | undefined =>
    change Mention.target? ⟨name, site, scope, if name = g then _ else _⟩ = _
    split <;> rfl
  | _ => cases h

theorem undefined_of_target? (h : m.target? = none) : m.outcome = .undefined := by
  obtain ⟨name, site, scope, outcome⟩ := m
  cases outcome with
  | undefined => rfl
  | _ => cases h

end Mention

/-! ### Whole programs -/

/-- The options with one more name. -/
def ResolveOptions.withGlobal (options : ResolveOptions) (g : String) : ResolveOptions :=
  { options with globals := options.globals ++ [g] }

theorem ResolveOptions.names_withGlobal (options : ResolveOptions) (g : String) :
    (options.withGlobal g).names = options.names ++ [g] := (List.append_assoc _ _ _).symm

/-- The identifier with the given number uses a name. -/
def Program.Uses (p : Program) (name : String) (node : NodeId) : Prop :=
  ∃ o ∈ p.occurrences, o.site.node = node ∧ o.name = name ∧ o.binding = none

/-- What becomes of the resolution `r` of a program when the host has the name `g`
as well, with the declaration `host`. -/
structure Program.Silences (p : Program) (g : String) (host : Declaration) (r r' : Resolution) :
    Prop where
  declared : host ∈ r'.declarations ∧ host.unnumbered = .global 0 g
  /-- Nothing new is reported, and only reports about `g` are gone. -/
  diagnostics : r'.diagnostics = r.diagnostics.filter fun d => !d.reportsUndefined g
  /-- What was resolved is resolved to the same declaration, -/
  resolved : ∀ node d, r.declarationOf? node = some d →
    ∃ d', r'.declarationOf? node = some d' ∧ d'.unnumbered = d.unnumbered
  /-- uses of `g` that were not are resolved to the host, -/
  gained : ∀ node, r.declarationOf? node = none → p.Uses g node →
    r'.declarationOf? node = some host
  /-- and nothing else is. -/
  rest : ∀ node, r.declarationOf? node = none → ¬ p.Uses g node →
    r'.declarationOf? node = none
  programDeclarations :
    r'.programDeclarations.map (·.unnumbered) = r.programDeclarations.map (·.unnumbered)
  nesting : r'.scopes.nesting = r.scopes.nesting
  identifierScopes : r'.identifierScopes = r.identifierScopes

namespace Live.Extends

variable {k : DeclId} {g : String} {live more : Live String}

theorem diagnostics_eq (h : live.Extends k g more) : more.resolution.diagnostics
    = live.resolution.diagnostics.filter fun d => !d.reportsUndefined g := by
  change more.mentions.filterMap (·.diagnostic?)
    = (live.mentions.filterMap (·.diagnostic?)).filter _
  rw [h.mentions, List.filterMap_map, List.filter_filterMap]
  exact List.filterMap_congr fun m _ => m.diagnostic?_withHost k g

theorem mention?_eq (h : live.Extends k g more) (node : NodeId) :
    more.resolution.mention? node = (live.resolution.mention? node).map (·.withHost k g) := by
  change more.mentions.find? (·.site.node = node)
    = (live.mentions.find? (·.site.node = node)).map _
  rw [h.mentions, List.find?_map]
  rfl

/-- What an identifier was resolved to, it is resolved to. -/
theorem resolved (h : live.Extends k g more) {node : NodeId} {d : Declaration}
    (hold : (live.resolution.mention? node).bind (·.target?) = some d) :
    (more.resolution.mention? node).bind (·.target?) = some (d.moved k) := by
  obtain ⟨m, hm, hd⟩ := Option.bind_eq_some_iff.mp hold
  rw [h.mention?_eq, hm, Option.map_some, Option.bind_some, m.target?_withHost_of_some k g hd]

/-- A use of the new name is resolved to the host, if it was not resolved. -/
theorem gained (h : live.Extends k g more) {os : List Occurrence} (hregistered : live.Registered os)
    (hpairs : live.mentions.Pairwise fun a b => a.site.node ≠ b.site.node) {o : Occurrence}
    (ho : o ∈ os) (hname : o.name = g)
    (hold : (live.resolution.mention? o.site.node).bind (·.target?) = none) :
    (more.resolution.mention? o.site.node).bind (·.target?) = some (.global k g) := by
  obtain ⟨m, hm, hregisters⟩ := hregistered.exists_mention ho
  have hfind : live.resolution.mention? o.site.node = some m := by
    rw [← hregisters.site]
    exact find?_mention hpairs hm
  rw [hfind, Option.bind_some] at hold
  rw [h.mention?_eq, hfind, Option.map_some, Option.bind_some, m.target?_withHost_of_none k g hold,
    if_pos (hregisters.name.trans hname)]

/-- Nothing else that was not resolved is resolved. -/
theorem unresolved (h : live.Extends k g more) {os : List Occurrence}
    (hregistered : live.Registered os) {node : NodeId}
    (huse : ¬ ∃ o ∈ os, o.site.node = node ∧ o.name = g ∧ o.binding = none)
    (hold : (live.resolution.mention? node).bind (·.target?) = none) :
    (more.resolution.mention? node).bind (·.target?) = none := by
  rw [h.mention?_eq]
  cases hfind : live.resolution.mention? node with
  | none => rfl
  | some m =>
    rw [hfind, Option.bind_some] at hold
    rw [Option.map_some, Option.bind_some, m.target?_withHost_of_none k g hold, if_neg]
    -- an undefined record is that of a use
    rintro rfl
    obtain ⟨o, ho, hregisters⟩ := hregistered.exists_occurrence (List.mem_of_find?_eq_some hfind)
    have hnode := List.find?_some hfind
    rw [decide_eq_true_eq] at hnode
    exact huse ⟨o, ho, by rw [← hregisters.site, hnode], hregisters.name.symm,
      hregisters.undefined (m.undefined_of_target? hold)⟩

theorem programDeclarations_eq (h : live.Extends k g more) :
    more.resolution.programDeclarations.map (·.unnumbered)
      = live.resolution.programDeclarations.map (·.unnumbered) := by
  obtain ⟨hosts, made, -, hall, hold, hnew⟩ := h.declarations
  change (more.declarations.filter (!·.isHost)).map _ = (live.declarations.filter (!·.isHost)).map _
  have hnone : hosts.filter (!·.isHost) = [] := by
    rw [List.filter_eq_nil_iff]
    intro d hd
    rw [hall d hd]
    exact Bool.false_ne_true
  have hglobal : (Declaration.global k g).isHost = true := rfl
  have hmade : (made.map (·.moved k)).filter (!·.isHost)
      = (made.filter (!·.isHost)).map (·.moved k) := by
    rw [List.filter_map]
    rfl
  rw [hold, hnew, List.filter_append, List.filter_append, hnone, List.filter_cons, hglobal,
    hmade, List.nil_append, List.nil_append]
  change List.map _ (List.map _ _) = _
  rw [List.map_map]
  rfl

theorem identifierScopes_eq (h : live.Extends k g more) :
    more.resolution.identifierScopes = live.resolution.identifierScopes := by
  change more.mentions.map _ = live.mentions.map _
  rw [h.mentions, List.map_map]
  rfl

end Live.Extends

/-- The scopes of an imported program do not depend on the names of the host. -/
theorem importProgram_nesting_congr {raw : Json} {file : Option String} {p : Program}
    (h : importProgram raw file = .ok p) (options options' : ResolveOptions) :
    (p.resolution options).scopes.nesting = (p.resolution options').scopes.nesting := by
  obtain ⟨data, comments, index, fields, rfl, -, hwalked, hmet⟩ := importProgram_statements h
  have hshape (options : ResolveOptions) :
      ((Program.resolution options (.mk data (.program comments index) fields)).scopes.nesting)
        = ((⟨[], [], []⟩ : Shape).run (Program.scopeEvents options.names
          (.mk data (.program comments index) fields))).records := by
    have horderly := (Program.allEvents hwalked hmet options).orderly
    rw [← scopeEvents_eq options.names data (.program comments index) fields] at horderly
    exact congrArg Shape.records (Live.run_shape Live.stands_start horderly)
  rw [hshape, hshape, Program.draws, Program.draws]

/-- One more name of the host takes away the reports about this name, resolves its
undefined uses to it, and changes nothing else. -/
theorem importProgram_silences {raw : Json} {file : Option String} {p : Program}
    (h : importProgram raw file = .ok p) (options : ResolveOptions) {g : String}
    (hnew : g ∉ options.names) :
    ∃ host, p.Silences g host (p.resolution options) (p.resolution (options.withGlobal g)) := by
  have hnesting := importProgram_nesting_congr h (options.withGlobal g) options
  obtain ⟨inner, hwalked, hmet⟩ := importProgram_walk h
  have hold := Program.allEvents hwalked hmet options
  have hmore := Program.allEvents hwalked hmet (options.withGlobal g)
  obtain ⟨k, hextends⟩ := hwalked.extends hmet hnew
  have hresolution := hwalked.resolution options
  have hresolution' := hwalked.resolution (options.withGlobal g)
  rw [options.names_withGlobal] at hresolution'
  have hregistered : (walkedState options.names inner).Registered p.occurrences := hold.registered
  have htarget (node : NodeId) := hold.declarationOf?_eq node
  have htarget' (node : NodeId) := hmore.declarationOf?_eq node
  have hpairs : (walkedState options.names inner).mentions.Pairwise
    fun a b => a.site.node ≠ b.site.node := hold.records
  rw [hresolution] at htarget hnesting ⊢
  rw [hresolution'] at htarget' hnesting ⊢
  -- both walks end in states that differ by one name of the host
  generalize walkedState options.names inner = live at *
  generalize walkedState (options.names ++ [g]) inner = more at *
  refine ⟨.global k g, ?_, hextends.diagnostics_eq, ?_, ?_, ?_, hextends.programDeclarations_eq,
    hnesting, hextends.identifierScopes_eq⟩
  · exact ⟨Live.mem_of_listed hextends.listed, rfl⟩
  · intro node d hd
    rw [htarget] at hd
    exact ⟨d.moved k, (htarget' node).trans (hextends.resolved hd), d.unnumbered_moved k⟩
  · rintro node hnone ⟨o, ho, rfl, hname, -⟩
    rw [htarget] at hnone
    exact (htarget' _).trans (hextends.gained hregistered hpairs ho hname hnone)
  · intro node hnone huse
    rw [htarget] at hnone
    exact (htarget' node).trans (hextends.unresolved hregistered huse hnone)

/-- The name that is used and not declared. -/
theorem repeatedVariable_silences :
    "y" ∉ ({} : ResolveOptions).names ∧
      ∃ p host, importProgram repeatedVariable none = .ok p ∧
        p.Silences "y" host (p.resolution {}) (p.resolution (ResolveOptions.withGlobal {} "y")) ∧
        (p.resolution {}).diagnostics.map (·.code) = [2003, 2004] ∧
        (p.resolution (ResolveOptions.withGlobal {} "y")).diagnostics.map (·.code) = [2003] := by
  have hnew : "y" ∉ ({} : ResolveOptions).names := by decide
  have hcodes : (importProgram repeatedVariable none).toOption.map (fun p =>
      ((p.resolution {}).diagnostics.map (·.code),
        (p.resolution (ResolveOptions.withGlobal {} "y")).diagnostics.map (·.code)))
      = some ([2003, 2004], [2003]) := by decide +kernel
  obtain ⟨p, hp, hcodes⟩ := Option.map_eq_some_iff.mp hcodes
  obtain ⟨hbefore, hafter⟩ := Prod.mk.inj hcodes
  have himport := importProgram_of_toOption hp
  obtain ⟨host, hsilences⟩ := importProgram_silences himport {} hnew
  exact ⟨hnew, p, host, himport, hsilences, hbefore, hafter⟩

end EsFront
