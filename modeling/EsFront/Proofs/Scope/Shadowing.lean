/-
What stands between a use and its declaration.

A declaration that an identifier refers to is in one of the scopes around it. A
nearer scope may have a declaration of the same name, but then its binder comes
after the identifier, which could not see it (`importProgram_unshadowed`). Such
a declaration can indeed be there: names are declared when their binders are
reached (`earlyUse_shadowed`).
-/
import EsFront.Proofs.Scope.Occurrences

namespace EsFront

/-- A declaration that cannot be seen is one of the program, and its binder does
not come before. -/
theorem Declaration.not_visibleTo {d : Declaration} {name : String} {use : NodeId}
    (h : d.visibleTo name use = false) (hname : d.name = name) :
    ∃ site, d.site = some site ∧ use ≤ site.node := by
  rw [visibleTo, decide_eq_true hname, Bool.true_and, isHost] at h
  cases hsite : d.site with
  | none =>
    rw [hsite] at h
    cases h
  | some site =>
    rw [hsite] at h
    exact ⟨site, rfl, Nat.le_of_not_lt (by simpa using h)⟩

/-- The scope that decides what a name refers to, and the scopes that are passed
on the way out to it. -/
theorem Resolution.nearest?_split {r : Resolution} {name : String} {use : NodeId}
    {scope : ScopeId} {d : Declaration} (h : r.nearest? name use scope = some d) :
    ∃ near target far, r.scopes.ancestors scope = near ++ target :: far ∧
      d ∈ r.scopes.listed r.declarations target ∧ d.name = name ∧
      ∀ s ∈ near, ∀ e ∈ r.scopes.listed r.declarations s, e.visibleTo name use = false := by
  obtain ⟨near, target, far, hancestors, hlast, hnear⟩ := List.findSome?_eq_some_iff.mp h
  have hd := List.mem_filter.mp (List.mem_of_getLast? hlast)
  have hname : d.name = name := by
    have hvisible := hd.2
    rw [Declaration.visibleTo, Bool.and_eq_true] at hvisible
    exact of_decide_eq_true hvisible.1
  refine ⟨near, target, far, hancestors, hd.1, hname, fun s hs e he => ?_⟩
  have hnone := List.getLast?_eq_none_iff.mp (hnear s hs)
  exact Bool.eq_false_iff.mpr (List.filter_eq_nil_iff.mp hnone e he)

/-- In an imported program, a declaration that an identifier refers to is in one
of the scopes around it; where a nearer scope has a declaration of the same name,
the binder of that declaration comes after the identifier. -/
theorem importProgram_unshadowed {raw : Json} {file : Option String} {p : Program}
    (h : importProgram raw file = .ok p) (options : ResolveOptions) {u : AnyNode}
    (hu : u ∈ p.walked) {found : IdentifierView} (hfound : u.identifier? = some found)
    (huse : found.isBinder = false) {d : Declaration}
    (hd : d ∈ (p.resolution options).declarations)
    (hreference : (p.resolution options).references.lookup u.node.id = some d.id) :
    ∃ scope near far, (p.resolution options).identifierScopes.lookup u.node.id = some scope ∧
      (p.resolution options).scopes.ancestors scope = near ++ d.scope :: far ∧
      d.name = found.name ∧
      ∀ s ∈ near, ∀ e ∈ (p.resolution options).scopes.listed (p.resolution options).declarations s,
        e.name = found.name → ∃ site, e.site = some site ∧ u.node.id < site.node := by
  obtain ⟨inner, hwalked, hmet⟩ := importProgram_walk h
  have hevent := hwalked.uses u hu found hfound huse
  obtain ⟨scope, hm⟩ := @use_recorded options.names _ _ hwalked.nested hwalked.within
    hwalked.order _ _ hevent
  have hpairs := mentions_pairwise options.names hwalked.order
  have hkept := hmet.kept options.names
  rw [hwalked.resolution options] at hd hreference ⊢
  have hscope : (walkedState options.names inner).resolution.identifierScopes.lookup u.node.id
      = some scope := by
    rw [Resolution.identifierScopes, ← List.filterMap_eq_map]
    exact lookup_mention (fun m => some m.scope) hpairs hm
  have hentry := lookup_mention (fun m => m.target?.map (·.id)) hpairs hm
  simp only [Option.map_map] at hentry
  have hlookup := hreference.symm.trans hentry
  cases hnearest : (walkedState options.names inner).resolution.nearest? found.name
      u.site.node scope with
  | none =>
    rw [hnearest] at hlookup
    cases hlookup
  | some target =>
    rw [hnearest] at hlookup hm
    -- declarations with the same number are the same
    have hsame : target = d := by
      obtain ⟨i, hi⟩ := List.mem_iff_getElem?.mp hd
      obtain ⟨j, hj⟩ := List.mem_iff_getElem?.mp (Resolution.mem_of_nearest? hnearest)
      have hid : d.id = target.id := Option.some_inj.mp hlookup
      have hindex : i = j := by
        rw [← hkept.coupled.ids i d hi, ← hkept.coupled.ids j target hj, hid]
      rw [hindex, hj] at hi
      exact Option.some_inj.mp hi
    subst hsame
    obtain ⟨near, place, far, hancestors, hlisted, hname, hnear⟩ :=
      Resolution.nearest?_split hnearest
    have hplace : target.scope = place := hkept.placed place target hlisted
    rw [← hplace] at hancestors
    refine ⟨scope, near, far, hscope, hancestors, hname, fun s hs e he hsameName => ?_⟩
    obtain ⟨site, hsite, hle⟩ := Declaration.not_visibleTo (hnear s hs e he) hsameName
    refine ⟨site, hsite, Nat.lt_of_le_of_ne hle fun heq => ?_⟩
    -- the identifier itself made no declaration
    obtain ⟨m, hm', hmsite, houtcome, -⟩ :=
      binder_recorded hwalked.within (Live.mem_of_listed he) hsite
    have hfirst := find?_mention hpairs hm
    have hsecond := find?_mention hpairs hm'
    rw [hmsite, ← heq] at hsecond
    have hrecord := Option.some_inj.mp (hfirst.symm.trans hsecond)
    rw [← hrecord] at houtcome
    cases houtcome

/-- A function that uses a name and declares it afterwards, in a program that has
declared it before. -/
def earlyUse : Json :=
  let name (text : String) : Json :=
    .object [("type", .string "Identifier"), ("name", .string text)]
  let declaration : Json :=
    .object [("type", .string "VariableDeclaration"), ("kind", .string "var"),
      ("declarations", .array [.object [("type", .string "VariableDeclarator"), ("id", name "x"),
        ("init", .null)]])]
  let body : Json :=
    .object [("type", .string "BlockStatement"),
      ("body", .array [.object [("type", .string "ExpressionStatement"),
        ("expression", name "x")], declaration])]
  .object [("type", .string "Program"),
    ("body", .array [declaration,
      .object [("type", .string "FunctionDeclaration"), ("id", name "f"), ("params", .array []),
        ("body", body)]])]

/-- The use stands in scope 3, inside the function with scope 2, and refers to
the declaration in scope 0. -/
theorem earlyUse_resolution :
    ∃ p u d, importProgram earlyUse none = .ok p ∧ u ∈ p.walked ∧
      u.identifier? = some ⟨"x", false, .unresolved⟩ ∧
      (p.resolution { hostGlobals := false }).declarations.head? = some d ∧ d.scope = 0 ∧
      (p.resolution { hostGlobals := false }).references.lookup u.node.id = some d.id ∧
      (p.resolution { hostGlobals := false }).identifierScopes.lookup u.node.id = some 3 ∧
      (p.resolution { hostGlobals := false }).scopes.ancestors 3 = [3, 2, 1, 0] ∧
      ((p.resolution { hostGlobals := false }).scopes.listed
        (p.resolution { hostGlobals := false }).declarations 2).map (·.name) = ["x"] := by
  have hfacts : ((importProgram earlyUse none).toOption.bind fun p =>
      let r := p.resolution { hostGlobals := false }
      (p.walked.find? (·.node.id = 8)).bind fun u => r.declarations.head?.map fun d =>
        decide (u.identifier? = some ⟨"x", false, .unresolved⟩ ∧ d.scope = 0 ∧
          r.references.lookup u.node.id = some d.id ∧
          r.identifierScopes.lookup u.node.id = some 3 ∧ r.scopes.ancestors 3 = [3, 2, 1, 0] ∧
          (r.scopes.listed r.declarations 2).map (·.name) = ["x"])) = some true := by
    decide +kernel
  obtain ⟨p, hp, hfacts⟩ := Option.bind_eq_some_iff.mp hfacts
  obtain ⟨u, hu, hfacts⟩ := Option.bind_eq_some_iff.mp hfacts
  obtain ⟨d, hd, hfacts⟩ := Option.map_eq_some_iff.mp hfacts
  exact ⟨p, u, d, importProgram_of_toOption hp, List.mem_of_find?_eq_some hu,
    (of_decide_eq_true hfacts).1, hd, (of_decide_eq_true hfacts).2⟩

/-- A nearer scope has a declaration of the same name. -/
theorem earlyUse_shadowed :
    ∃ p u d e scope near far, importProgram earlyUse none = .ok p ∧ u ∈ p.walked ∧
      u.identifier? = some ⟨"x", false, .unresolved⟩ ∧
      d ∈ (p.resolution { hostGlobals := false }).declarations ∧
      (p.resolution { hostGlobals := false }).references.lookup u.node.id = some d.id ∧
      (p.resolution { hostGlobals := false }).identifierScopes.lookup u.node.id = some scope ∧
      (p.resolution { hostGlobals := false }).scopes.ancestors scope = near ++ d.scope :: far ∧
      ∃ s ∈ near, e ∈ (p.resolution { hostGlobals := false }).scopes.listed
        (p.resolution { hostGlobals := false }).declarations s ∧ e.name = "x" := by
  obtain ⟨p, u, d, himport, hu, hfound, hd, hplace, hreference, hscope, hancestors, hnames⟩ :=
    earlyUse_resolution
  have hmem := List.mem_singleton_self "x"
  rw [← hnames] at hmem
  obtain ⟨e, he, hname⟩ := List.mem_map.mp hmem
  refine ⟨p, u, d, e, 3, [3, 2, 1], [], himport, hu, hfound, List.mem_of_head? hd, hreference,
    hscope, ?_, 2, by decide, he, hname⟩
  rw [hancestors, hplace]
  rfl

theorem earlyUse_unshadowed :
    ∃ (p : Program) (u : AnyNode) (d : Declaration) (scope : ScopeId) (near far : List ScopeId),
      importProgram earlyUse none = .ok p ∧
      (p.resolution { hostGlobals := false }).references.lookup u.node.id = some d.id ∧
      (p.resolution { hostGlobals := false }).scopes.ancestors scope = near ++ d.scope :: far ∧
      ∀ s ∈ near, ∀ e ∈ (p.resolution { hostGlobals := false }).scopes.listed
        (p.resolution { hostGlobals := false }).declarations s,
        e.name = "x" → ∃ site, e.site = some site ∧ u.node.id < site.node := by
  obtain ⟨p, u, d, himport, hu, hfound, hd, -, hreference, -⟩ := earlyUse_resolution
  obtain ⟨scope, near, far, -, hancestors, -, hnear⟩ := importProgram_unshadowed himport
    { hostGlobals := false } hu hfound rfl (List.mem_of_head? hd) hreference
  exact ⟨p, u, d, scope, near, far, himport, hreference, hancestors, hnear⟩

end EsFront
