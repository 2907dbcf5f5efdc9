/-
Names of blocks and names of functions.

A name that is bound in a block by `let` or `const` must not be declared in the
function from that block or inside it. When both are there, an error is reported
at one of the binders of the name in that function, whichever comes first
(`importProgram_conflicts`), with two exceptions, since a scope remembers the
first declaration of a name only (`overlappingVariable_silent`):

* a function that has the name from outside the block does not notice the block;
* a catch parameter of that name takes the `let` for a repetition of itself.

The proof follows the declaration of the block. What comes after it meets it on
the way out (`Live.clashes_of_declared`); what came before it is still
remembered by the function (`Live.Remembers`), which forbids the declaration.
-/
import EsFront.Proofs.Scope.Accounts
import EsFront.Proofs.Scope.Moments

namespace EsFront

namespace Live

section moments

variable {events : List ScopeEvent} {i j k : Nat} {name : String} {site : Site}
  {binding : Binding} {block function : Frame String} {rest : Chain String}

/-- In the header of a function, no scope inside it has been opened but its
block, which has no names. -/
theorem Stands.header_only {live : Live String} {place : Place} (h : live.Stands place)
    (hheader : place.phase = .header) (hview : live.chain = block :: rest)
    (hblock : block.kind = .block) (hfunction : Chain.function? (block :: rest) = some function)
    {scope : ScopeId} (hinner : function.id < scope) (hopened : scope < live.tree.nextId) :
    scope = block.id ∧ live.listed scope = [] := by
  obtain ⟨hid, hlast, hnone, -⟩ := h.header_view hheader hview hblock hfunction
  have hbetween {a b n : Nat} (hab : a < b) (hbn : b < n) (hn : n = a + 2) : b = a + 1 := by
    omega
  have hsame : scope = block.id := (hbetween hinner hopened hlast).trans hid.symm
  exact ⟨hsame, hsame ▸ hnone⟩

/-- A scope between a block and its function is one of the blocks on the way. -/
theorem BoundAt.mem_blocks (h : BoundAt events i binding name site block function rest)
    {frame : Frame String} (hframe : frame ∈ block :: rest) (hinner : function.id < frame.id) :
    frame ∈ Chain.blocks (block :: rest) := by
  obtain ⟨outer, hsplit⟩ := Chain.eq_blocks_append h.function?
  have horder : (Chain.ids (function :: outer)).Pairwise (· > ·) := by
    have hall := (before_coupled events i).order.sublist
      ((List.drop_sublist binding.skipped _).map _)
    rw [h.view, hsplit, List.map_append] at hall
    exact (List.pairwise_append.mp hall).2.1
  rw [hsplit] at hframe
  rcases List.mem_append.mp hframe with hmem | hmem
  · exact hmem
  · rcases List.mem_cons.mp hmem with rfl | hmem
    · exact absurd hinner (Nat.lt_irrefl _)
    · have hlt := List.rel_of_pairwise_cons horder (List.mem_map_of_mem hmem)
      exact absurd hinner (Nat.lt_asymm hlt)

/-- A binder of the given name, inside the given function, is reported with an
error. -/
def ClashesAt (events : List ScopeEvent) (i : Nat) (name : String) (scope : ScopeId) : Prop :=
  ∃ binding site block function rest clash first,
    BoundAt events i binding name site block function rest ∧ function.id = scope ∧
    before events (i + 1)
      = (before events i).record name site (.merged clash binding.kind first) ∧
    ((first.kind = .const ∨ binding.kind = .const) ∨ clash = .conflict)

/-! ### A block that has the name -/

/-- Once a block has a name by `let` or `const`, no binder from inside it can
declare the name in the function. -/
theorem clashes_of_declared (horderly : Orderly ⟨[], .inside⟩ events) {d : Declaration}
    {binding' : Binding} {site' : Site} {block' function' : Frame String} {rest' : Chain String}
    (hd : MadeAt events k d binding' site' block' function' rest') (hkind : d.isLetOrConst = true)
    (hbound : BoundAt events j binding d.name site block function rest) (hkj : k < j)
    (hlexical : binding.isLexical = false) (hinside : d.scope ∈ Chain.ids (block :: rest))
    (hfunction : function.id < d.scope) : ClashesAt events j d.name function.id := by
  have hnext := hd.lastIn_next
  have hlisted := mem_listed_of_lastIn hnext
  have hscoped := Declaration.isBlockScoped_of_isLetOrConst hkind
  have hblockKind := ((before_stands horderly (k + 1)).kept.sorted _ d hlisted.1).mp hscoped
  have hlast := lastIn_block_later horderly hkj hblockKind hnext
  obtain ⟨frame, hframe, hid⟩ := List.mem_map.mp hinside
  rw [← hid] at hfunction hlast
  have hmem := hbound.mem_blocks hframe hfunction
  obtain ⟨verdict, hjudged, hstep⟩ := hbound.judged
  -- the last declaration of a header is not in its block
  have hparameter : binding ≠ .parameter := by
    rintro rfl
    obtain ⟨-, hnone⟩ := (before_stands horderly j).header_only
      ((fits_before horderly hbound.event).2 rfl) hbound.view hbound.isBlock hbound.function?
      hfunction (hbound.opened hframe)
    rw [lastIn, hnone] at hlast
    cases hlast
  cases hjudged with
  | repeated h => rw [hlexical] at h; cases h
  | covered h => rw [hlexical] at h; cases h
  | lexical h => rw [hlexical] at h; cases h
  | crossed =>
    exact ⟨binding, site, block, function, rest, .conflict, _, hbound, rfl, hstep, .inr rfl⟩
  | merged _ _ hblocks =>
    have hnot := hblocks frame hmem d hlast
    rw [hkind] at hnot
    cases hnot
  | hoisted _ _ hblocks =>
    have hnot := hblocks frame hmem d hlast
    rw [hkind] at hnot
    cases hnot
  | parameterRepeated => exact absurd rfl hparameter
  | parameter => exact absurd rfl hparameter

/-! ### A function that has the name from inside a block -/

/-- The function has the name, from the block or from inside it. -/
def Remembers (live : Live String) (tree : ScopeTree) (name : String) (function block : ScopeId) :
    Prop :=
  ∃ d, live.lastIn name function = some d ∧ d.isHost = false ∧
    tree.isWithin d.blockScope block = true

theorem isWithin_self (tree : ScopeTree) (scope : ScopeId) : tree.isWithin scope scope = true := by
  rw [ScopeTree.isWithin, ScopeTree.ancestors, List.any_cons]
  simp

/-- A function keeps in mind that it has the name from inside the block: only a
parameter can take the place of the function's own name, and then the block is
that of the function. -/
theorem Remembers.later (horderly : Orderly ⟨[], .inside⟩ events) {tree : ScopeTree}
    {function block : ScopeId} (hblock : function < block)
    (hopened : block < (before events i).tree.nextId)
    (h : (before events i).Remembers tree name function block) (hij : i ≤ j) :
    (before events j).Remembers tree name function block := by
  induction hij with
  | refl => exact h
  | @step j hij ih =>
    cases hevent : events[j]? with
    | none =>
      rw [before, List.take_add_one, hevent, Option.toList_none, List.append_nil]
      exact ih
    | some event =>
      obtain ⟨d, hlast, hhost, hwithin⟩ := ih
      rw [before_succ hevent]
      rcases (before_stands horderly j).lastIn_step (fits_before horderly hevent) hlast with
        hsame | ⟨binding, site, inner, outer, rest, rfl, hview, hkind, hfound, rfl, hwhy, hlast'⟩
      · exact ⟨d, hsame, hhost, hwithin⟩
      · rcases hwhy with hwhy | rfl
        · rw [hwhy] at hhost
          cases hhost
        · have hlater := Nat.lt_of_lt_of_le hopened (before_grows events hij).opened
          obtain ⟨rfl, -⟩ := (before_stands horderly j).header_only
            ((fits_before horderly hevent).2 rfl) hview hkind hfound hblock hlater
          exact ⟨_, hlast', rfl, isWithin_self _ _⟩

/-- A binder of a function is reported, or the function has the name afterwards;
if all earlier binders of the name come from inside a block, and this one does,
then so does what the function remembers. -/
theorem remembers_of_bound (horderly : Orderly ⟨[], .inside⟩ events) {tree : ScopeTree}
    {scope : ScopeId} (hbound : BoundAt events j binding name site block function rest)
    (hlexical : binding.isLexical = false) (hwithin : tree.isWithin block.id scope = true)
    (hearlier : ∀ k < j, ∀ d binding' site' block' function' rest',
      MadeAt events k d binding' site' block' function' rest' → d.name = name →
      d.scope = function.id → tree.isWithin d.blockScope scope = true) :
    ClashesAt events j name function.id ∨
      (before events (j + 1)).Remembers tree name function.id scope := by
  have hstands := before_stands horderly j
  obtain ⟨verdict, hjudged, hstep⟩ := hbound.judged
  -- what the function had before was made by an earlier binder
  have hold : ∀ {clash : Clash} {first : Declaration},
      (before events j).lastIn name function.id = some first → first.isHost = false →
      before events (j + 1)
        = (before events j).record name site (.merged clash binding.kind first) →
      (before events (j + 1)).Remembers tree name function.id scope := by
    intro clash first hlast hhost hstep
    obtain ⟨hlisted, hname⟩ := mem_listed_of_lastIn hlast
    obtain ⟨k, hk, binding', site', block', function', rest', hmade⟩ :=
      made_before horderly (mem_of_listed hlisted) hhost
    refine ⟨first, ?_, hhost, ?_⟩
    · rw [hstep, lastIn_record, hlast]
    · exact hearlier k hk first _ _ _ _ _ hmade hname (hstands.kept.placed _ _ hlisted)
  have hnew : function.id ∈ (before events j).chain.ids →
      before events (j + 1) = ((before events j).declare ((before events j).made binding name site
        function.id block.id)).record name site (.declared ((before events j).made binding name
          site function.id block.id)) →
      (before events (j + 1)).Remembers tree name function.id scope := by
    intro hscope hstep
    refine ⟨(before events j).made binding name site function.id block.id, ?_, rfl, hwithin⟩
    rw [hstep, lastIn_record, lastIn_declare hstands.kept.coupled rfl hscope]
    exact if_pos ⟨rfl, rfl⟩
  cases hjudged with
  | repeated h => rw [hlexical] at h; cases h
  | covered h => rw [hlexical] at h; cases h
  | lexical h => rw [hlexical] at h; cases h
  | crossed =>
    exact .inl ⟨binding, site, block, function, rest, .conflict, _, hbound, rfl, hstep, .inr rfl⟩
  | merged _ _ _ hlast hhost => exact .inr (hold hlast hhost hstep)
  | hoisted => exact .inr (hnew hstep.1 hstep.2)
  | @parameterRepeated first hlast hkind =>
    have hspec := hstands.clash_spec (fits_before horderly hbound.event) hbound.view
      hbound.isBlock hbound.function? hbound.isFunction (.parameterRepeated hlast hkind)
    exact .inr (hold hlast hspec.2.2.2 hstep)
  | parameter => exact .inr (hnew hstep.1 hstep.2)

/-- What a function remembers of a block forbids the block to declare the
name. -/
theorem MadeAt.not_remembered {d : Declaration} (horderly : Orderly ⟨[], .inside⟩ events)
    (h : MadeAt events k d binding site block function rest)
    (hlexical : binding.isLexical = true) (hkj : k ≤ j) :
    ¬ (before events k).Remembers (before events j).tree d.name function.id block.id := by
  rintro ⟨first, hlast, hhost, hwithin⟩
  have hfree := h.allowed.function_free hlexical hlast hhost
  have hopened := (before_stands horderly k).kept.within first
    (mem_of_listed (mem_listed_of_lastIn hlast).1)
  rw [ScopeTree.isWithin, before_ancestors events hkj hopened] at hwithin
  rw [ScopeTree.isWithin, hwithin] at hfree
  cases hfree

/-! ### Both -/

/-- A binder by `let` or `const` is reported, or its block has the name by `let`
or `const` afterwards, unless a catch clause has taken the name. -/
theorem BoundAt.let_made (horderly : Orderly ⟨[], .inside⟩ events)
    (h : BoundAt events i binding name site block function rest)
    (hkind : binding.kind = .lexical ∨ binding.kind = .const)
    (hcaught : binding.kind = .lexical → ∀ k < i, ∀ d binding' site' block' function' rest',
      MadeAt events k d binding' site' block' function' rest' → d.name = name →
      d.scope = block.id → d.kind ≠ .caught) :
    ClashesAt events i name function.id ∨
      ∃ k ≤ i, ∃ d binding' site' block' function' rest',
        MadeAt events k d binding' site' block' function' rest' ∧ d.name = name ∧
        d.scope = block.id ∧ d.isLetOrConst = true := by
  have hstands := before_stands horderly i
  have hlexical : binding.isLexical = true := by
    rcases hkind with hkind | hkind
    · rw [Binding.isLexical, hkind]; rfl
    · rw [Binding.isLexical, hkind]; rfl
  obtain ⟨verdict, hjudged, hstep⟩ := h.judged
  cases hjudged with
  | covered =>
    exact .inl ⟨binding, site, block, function, rest, .conflict, _, h, rfl, hstep, .inr rfl⟩
  | @repeated _ first _ hlast =>
    by_cases hconst : binding.kind = .const
    · exact .inl ⟨binding, site, block, function, rest, _, _, h, rfl, hstep, .inl (.inr hconst)⟩
    · -- the block lists the name, so an event before declared it there
      obtain ⟨hlisted, hname⟩ := mem_listed_of_lastIn hlast
      have hplace := hstands.kept.placed _ _ hlisted
      have hscoped : first.kind.isBlockScoped = true := by
        rw [hstands.kept.sorted _ _ hlisted,
          hstands.kept.framed block (h.mem_chain List.mem_cons_self), h.isBlock]
      have hhost : first.isHost = false := by
        refine Bool.eq_false_iff.mpr fun hhost => ?_
        rw [hstands.kept.hosts first (mem_of_listed hlisted) hhost] at hscoped
        cases hscoped
      obtain ⟨k, hk, binding', site', block', function', rest', hmade⟩ :=
        made_before horderly (mem_of_listed hlisted) hhost
      have hnot := hcaught (hkind.resolve_right hconst) k hk first _ _ _ _ _ hmade hname hplace
      refine .inr ⟨k, Nat.le_of_lt hk, first, _, _, _, _, _, hmade, hname, hplace, ?_⟩
      rw [Declaration.isLetOrConst]
      cases hfirst : first.kind with
      | lexical => rfl
      | const => rfl
      | caught => exact absurd hfirst hnot
      | var => rw [hfirst] at hscoped; cases hscoped
      | argument => rw [hfirst] at hscoped; cases hscoped
      | function => rw [hfirst] at hscoped; cases hscoped
  | lexical hlexical hnone hfree =>
    refine .inr ⟨i, Nat.le_refl i, (before events i).made binding name site block.id block.id,
      binding, site, block, function, rest,
      ⟨h, .lexical hlexical hnone hfree, rfl, hstep.1, hstep.2⟩, rfl, rfl, ?_⟩
    change (decide (binding.kind = .lexical) || decide (binding.kind = .const)) = true
    simpa using hkind
  -- only names of functions are judged in the other ways
  | crossed hnot => rw [hlexical] at hnot; cases hnot
  | merged hnot => rw [hlexical] at hnot; cases hnot
  | hoisted hnot => rw [hlexical] at hnot; cases hnot
  | parameterRepeated => cases hlexical
  | parameter => cases hlexical

/-- When a name is bound in a block by `let` or `const`, and in the function
around it from that block or inside it, one of its binders in the function is
reported with an error. -/
theorem clashes_of_overlap (horderly : Orderly ⟨[], .inside⟩ events) {n : Nat} (hin : i ≤ n)
    (h : BoundAt events i binding name site block function rest)
    (hkind : binding.kind = .lexical ∨ binding.kind = .const)
    {binding' : Binding} {site' : Site} {block' function' : Frame String} {rest' : Chain String}
    (h' : BoundAt events j binding' name site' block' function' rest')
    (hlexical : binding'.isLexical = false) (hinside : block.id ∈ Chain.ids (block' :: rest'))
    (hfunction : function'.id = function.id)
    (hcaught : binding.kind = .lexical → ∀ k < i, ∀ d binding site block' function rest,
      MadeAt events k d binding site block' function rest → d.name = name →
      d.scope = block.id → d.kind ≠ .caught)
    (hfirst : j < i → ∀ k < j, ∀ d binding site block' function' rest,
      MadeAt events k d binding site block' function' rest → d.name = name →
      d.scope = function.id → (before events n).tree.isWithin d.blockScope block.id = true) :
    ∃ k, ClashesAt events k name function.id := by
  rcases h.let_made horderly hkind hcaught with
    hclash | ⟨k, hk, d, binding₀, site₀, block₀, function₀, rest₀, hmade, rfl, hplace, hlet⟩
  · exact ⟨i, hclash⟩
  have hlexical₀ : binding₀.isLexical = true := by
    rw [Binding.isLexical, ← hmade.kind_eq]
    exact Declaration.isBlockScoped_of_isLetOrConst hlet
  have hblock₀ : block₀.id = block.id := by
    rw [← hplace, hmade.scope_eq, if_pos hlexical₀]
  have hinner : function'.id < block.id := by
    rw [hfunction]
    exact h.function_lt
  rcases Nat.lt_trichotomy j k with hjk | rfl | hkj
  · -- the function has the name first
    have hji : j < i := Nat.lt_of_lt_of_le hjk hk
    have hwithin : (before events n).tree.isWithin block'.id block.id = true := by
      rw [ScopeTree.isWithin, h'.ancestors_later (Nat.le_of_lt (Nat.lt_of_lt_of_le hji hin)),
        List.any_eq_true]
      exact ⟨block.id, hinside, decide_eq_true rfl⟩
    rcases remembers_of_bound horderly h' hlexical hwithin (fun k' hk' d' b s f g r hd' hname hd =>
      hfirst hji k' hk' d' b s f g r hd' hname (hd.trans hfunction)) with hclash | hremembers
    · rw [hfunction] at hclash
      exact ⟨j, hclash⟩
    · have hopened : block.id < (before events (j + 1)).tree.nextId := by
        obtain ⟨frame, hframe, hid⟩ := List.mem_map.mp hinside
        rw [← hid]
        exact Nat.lt_of_lt_of_le (h'.opened hframe) (before_grows events (Nat.le_succ j)).opened
      have hlater := hremembers.later horderly hinner hopened hjk
      have hsame : function₀.id = function'.id := by
        have hfound := hmade.functionOf?_later horderly (Nat.le_trans hk hin)
        rw [hblock₀, h.functionOf?_later horderly hin, Option.some_inj] at hfound
        rw [← hfound, hfunction]
      rw [← hsame, ← hblock₀] at hlater
      exact absurd hlater (hmade.not_remembered horderly hlexical₀ (Nat.le_trans hk hin))
  · -- one event is one binder
    have hevent := hmade.event.symm.trans h'.event
    cases hevent
    rw [hlexical] at hlexical₀
    cases hlexical₀
  · -- the block has the name first
    rw [← hplace] at hinside hinner
    have hclash := clashes_of_declared horderly hmade hlet h' hkj hlexical hinside hinner
    rw [hfunction] at hclash
    exact ⟨j, hclash⟩

end moments

end Live

/-! ### Whole programs -/

namespace Resolution

/-- An error is reported at an identifier, for its name. -/
structure ErrsAt (r : Resolution) (o : Occurrence) (d : Diagnostic) : Prop where
  reported : ∃ m ∈ r.mentions, m.site = o.site ∧ m.diagnostic? = some d
  isError : d.isError = true
  place : d.loc = o.site.loc
  message : ∃ (clash : Clash) (first second : DeclKind),
    d.message = formatMessage (clash.message first second).template [o.name]

/-- `l` binds its name by `let` or `const`, in the given block; `v` binds the
same name in the function around it, from that block or from inside it. -/
structure Overlap (r : Resolution) (l v : Occurrence) (block : ScopeId) : Prop where
  lexical : l.kind? = some .lexical ∨ l.kind? = some .const
  hoisted : ∃ kind ∈ v.kind?, kind.isBlockScoped = false
  name : v.name = l.name
  place : r.blockOf? l = some block
  inside : ∃ inner ∈ r.blockOf? v, r.scopes.isWithin inner block = true
  function : r.functionOf? v = r.functionOf? l

instance (r : Resolution) (l v : Occurrence) (block : ScopeId) :
    Decidable (r.Overlap l v block) :=
  decidable_of_iff ((l.kind? = some .lexical ∨ l.kind? = some .const) ∧
      (∃ kind ∈ v.kind?, kind.isBlockScoped = false) ∧ v.name = l.name ∧
      r.blockOf? l = some block ∧
      (∃ inner ∈ r.blockOf? v, r.scopes.isWithin inner block = true) ∧
      r.functionOf? v = r.functionOf? l)
    ⟨fun ⟨h₁, h₂, h₃, h₄, h₅, h₆⟩ => ⟨h₁, h₂, h₃, h₄, h₅, h₆⟩,
      fun h => ⟨h.lexical, h.hoisted, h.name, h.place, h.inside, h.function⟩⟩

end Resolution

/-- What is reported about a binder that was merged. -/
theorem Resolution.errsAt_of_merged {r : Resolution} {m : Mention} (hm : m ∈ r.mentions)
    {o : Occurrence} (hsite : m.site = o.site) (hname : m.name = o.name) {clash : Clash}
    {kind : DeclKind} {first : Declaration} (houtcome : m.outcome = .merged clash kind first)
    (herror : (first.kind = .const ∨ kind = .const) ∨ clash = .conflict) :
    ∃ d ∈ r.diagnostics, r.ErrsAt o d := by
  have hreport : m.diagnostic? = some (m.clashReport clash kind first) := by
    rw [Mention.diagnostic?, houtcome]
  refine ⟨_, List.mem_filterMap.mpr ⟨m, hm, hreport⟩, ⟨m, hm, hsite, hreport⟩, ?_, ?_,
    clash, first.kind, kind, ?_⟩
  · exact decide_eq_true ((clash.message_spec first.kind kind).2.mpr herror)
  · rw [← hsite]
    rfl
  · rw [← hname]
    rfl

/-- What is reported at a binder that clashes. -/
theorem Program.AllEvents.errsAt {p : Program} {options : ResolveOptions}
    {events : List ScopeEvent} (h : p.AllEvents options events) {k : Nat} {name : String}
    {scope : ScopeId} (hclash : Live.ClashesAt events k name scope) :
    ∃ o ∈ p.occurrences, o.binding.isSome ∧ o.name = name ∧
      (p.resolution options).functionOf? o = some scope ∧
      ∃ d ∈ (p.resolution options).diagnostics, (p.resolution options).ErrsAt o d := by
  obtain ⟨binding, site, block, function, rest, clash, first, hbound, rfl, hstep, herror⟩ := hclash
  obtain ⟨hk, -⟩ := List.getElem?_eq_some_iff.mp hbound.event
  obtain ⟨inner, -, hm⟩ := hbound.recorded_of_clash hstep hk
  rw [Live.before_length] at hm
  refine ⟨⟨name, site, some binding⟩, h.mem_occurrences hbound.event, rfl, rfl,
    h.functionOf?_eq hbound, ?_⟩
  rw [h.resolution]
  exact Resolution.errsAt_of_merged hm rfl rfl rfl herror

/-- In an imported program, when a name is bound in a block by `let` or `const`,
and in the function around it from that block or from inside it, an error is
reported at one of its binders in that function. This is so when no catch clause
takes the name in the block before a `let`, and when the name that comes from
inside the block, if it comes first, is not preceded in the function by one from
outside. -/
theorem importProgram_conflicts {raw : Json} {file : Option String} {p : Program}
    (h : importProgram raw file = .ok p) (options : ResolveOptions) {l v : Occurrence}
    (hl : l ∈ p.occurrences) (hv : v ∈ p.occurrences) {block : ScopeId}
    (hoverlap : (p.resolution options).Overlap l v block)
    (hcaught : ∀ o ∈ p.occurrences, o.kind? = some .caught → o.name = l.name →
      (p.resolution options).blockOf? o = some block → l.kind? = some .const)
    (hfirst : v.site.node < l.site.node → ∀ o ∈ p.occurrences, ∀ kind,
      o.kind? = some kind → kind.isBlockScoped = false → o.name = l.name →
      (p.resolution options).functionOf? o = (p.resolution options).functionOf? l →
      o.site.node < v.site.node → ∃ inner, (p.resolution options).blockOf? o = some inner ∧
        (p.resolution options).scopes.isWithin inner block = true) :
    ∃ o ∈ p.occurrences, o.binding.isSome ∧ o.name = l.name ∧
      (p.resolution options).functionOf? o = (p.resolution options).functionOf? l ∧
      ∃ d ∈ (p.resolution options).diagnostics, (p.resolution options).ErrsAt o d := by
  obtain ⟨events, hall⟩ := importProgram_allEvents h options
  have horderly := hall.orderly
  obtain ⟨kind, hkind, hletConst⟩ :
      ∃ kind, l.kind? = some kind ∧ (kind = .lexical ∨ kind = .const) :=
    hoverlap.lexical.elim (fun hk => ⟨_, hk, .inl rfl⟩) fun hk => ⟨_, hk, .inr rfl⟩
  obtain ⟨kind', hkind', hscoped⟩ := hoverlap.hoisted
  obtain ⟨i, binding, inner, function, rest, hbinding, rfl, hbound⟩ := hall.exists_boundAt hl hkind
  obtain ⟨j, binding', inner', function', rest', hbinding', rfl, hbound'⟩ :=
    hall.exists_boundAt hv hkind'
  obtain ⟨hi, -⟩ := List.getElem?_eq_some_iff.mp hbound.event
  -- the scopes of the two binders
  have hblock := hall.blockOf?_eq hbound
  have hblock' := hall.blockOf?_eq hbound'
  have hfunction := hall.functionOf?_eq hbound
  have hfunction' := hall.functionOf?_eq hbound'
  rw [← hbinding] at hblock hfunction
  rw [← hbinding'] at hblock' hfunction'
  have hplace : inner.id = block := Option.some_inj.mp (hblock.symm.trans hoverlap.place)
  have hsame : function'.id = function.id := by
    have heq := hoverlap.function
    rw [show (p.resolution options).functionOf? v = _ from hfunction',
      show (p.resolution options).functionOf? l = _ from hfunction] at heq
    exact Option.some_inj.mp heq
  have hinside : inner.id ∈ Chain.ids (inner' :: rest') := by
    obtain ⟨scope, hscope, hwithin⟩ := hoverlap.inside
    rw [show (p.resolution options).blockOf? v = _ from hblock', Option.mem_some_iff] at hscope
    rw [hplace, ← hall.isWithin_iff hbound', hscope]
    exact hwithin
  rw [hoverlap.name] at hbound'
  have hnotCaught : binding.kind = .lexical → ∀ k < i, ∀ d binding site block' function rest,
      Live.MadeAt events k d binding site block' function rest → d.name = l.name →
      d.scope = inner.id → d.kind ≠ .caught := by
    -- a catch clause that takes the name is an occurrence
    intro hlexical k _ d binding₀ site₀ block₀ function₀ rest₀ hmade hname hscope hcaughtKind
    have hlexical₀ : binding₀.isLexical = true := by
      rw [Binding.isLexical, ← hmade.kind_eq, hcaughtKind]
      rfl
    have hconst := hcaught _ (hall.mem_occurrences hmade.event)
      (congrArg some (hmade.kind_eq.symm.trans hcaughtKind)) hname ?_
    · rw [hkind, hlexical] at hconst
      cases hconst
    · rw [hall.blockOf?_eq hmade.toBoundAt, ← hplace, ← hscope, hmade.scope_eq, if_pos hlexical₀]
  have hinner : j < i → ∀ k < j, ∀ d binding site block' function' rest,
      Live.MadeAt events k d binding site block' function' rest → d.name = l.name →
      d.scope = function.id → (Live.before events events.length).tree.isWithin d.blockScope
        inner.id = true := by
    intro hji k hkj d binding₀ site₀ block₀ function₀ rest₀ hmade hname hscope
    have hlexical₀ := hmade.not_lexical horderly hbound hscope
    rw [hmade.scope_eq, if_neg (Bool.eq_false_iff.mp hlexical₀)] at hscope
    obtain ⟨scope, hfound, hwithin⟩ := hfirst
      (Live.site_lt hall.order hji hbound'.event hbound.event rfl rfl) _
      (hall.mem_occurrences hmade.event) binding₀.kind rfl hlexical₀ hname
      (by rw [hall.functionOf?_eq hmade.toBoundAt, hscope]; exact hfunction.symm)
      (Live.site_lt hall.order hkj hmade.event hbound'.event rfl rfl)
    rw [hall.blockOf?_eq hmade.toBoundAt, Option.some_inj] at hfound
    rw [hmade.blockScope_eq, hfound, hplace, ← hall.scopes_eq]
    exact hwithin
  obtain ⟨k, hclash⟩ := Live.clashes_of_overlap horderly (Nat.le_of_lt hi) hbound hletConst hbound'
    hscoped hinside hsame hnotCaught hinner
  have hfound := hall.errsAt hclash
  rw [show (p.resolution options).functionOf? l = _ from hfunction]
  exact hfound

/-! ### Programs -/

/-- The declaration of a variable named `x`. -/
def declarationOfX (keyword : String) : Json :=
  .object [("type", .string "VariableDeclaration"), ("kind", .string keyword),
    ("declarations", .array [.object [("type", .string "VariableDeclarator"),
      ("id", .object [("type", .string "Identifier"), ("name", .string "x")]), ("init", .null)]])]

/-- A block with the given statements. -/
def blockWith (body : List Json) : Json :=
  .object [("type", .string "BlockStatement"), ("body", .array body)]

/-- A program with the given statements. -/
def programWith (body : List Json) : Json :=
  .object [("type", .string "Program"), ("body", .array body)]

/-- A block that declares a variable both ways. -/
def overlappingVariable : Json := blockWith [declarationOfX "var", declarationOfX "let"]

/-- The first binder of the block, when it has number `node`. -/
def variableAt (node : NodeId) : Occurrence := ⟨"x", ⟨node, none⟩, some (.declarator .var)⟩

/-- The second binder of the block, when it has number `node`. -/
def lexicalAt (node : NodeId) : Occurrence := ⟨"x", ⟨node, none⟩, some (.declarator .lexical)⟩

theorem overlappingVariable_conflicts :
    ∃ p, importProgram (programWith [overlappingVariable]) none = .ok p ∧
      (p.resolution { hostGlobals := false }).Overlap (lexicalAt 7) (variableAt 4) 2 ∧
      ∃ o ∈ p.occurrences, o.name = "x" ∧
        ∃ d ∈ (p.resolution { hostGlobals := false }).diagnostics,
          (p.resolution { hostGlobals := false }).ErrsAt o d := by
  have hfacts : ((importProgram (programWith [overlappingVariable]) none).toOption.map fun p =>
      decide (p.occurrences = [variableAt 4, lexicalAt 7] ∧
        (p.resolution { hostGlobals := false }).Overlap (lexicalAt 7) (variableAt 4) 2))
      = some true := by decide +kernel
  obtain ⟨p, hp, hfacts⟩ := Option.map_eq_some_iff.mp hfacts
  obtain ⟨hoccurrences, hoverlap⟩ := of_decide_eq_true hfacts
  have himport := importProgram_of_toOption hp
  have hmem : variableAt 4 ∈ p.occurrences ∧ lexicalAt 7 ∈ p.occurrences := by
    rw [hoccurrences]
    decide
  have hkinds : ∀ o ∈ [variableAt 4, lexicalAt 7], o.kind? ≠ some .caught := by decide
  have hnodes : ∀ o ∈ [variableAt 4, lexicalAt 7], ¬ o.site.node < (variableAt 4).site.node := by
    decide
  rw [← hoccurrences] at hkinds hnodes
  obtain ⟨o, ho, -, hname, -, hd⟩ := importProgram_conflicts himport { hostGlobals := false }
    hmem.2 hmem.1 hoverlap (fun o ho hkind => absurd hkind (hkinds o ho))
    (fun _ o ho _ _ _ _ _ hlt => absurd hlt (hnodes o ho))
  exact ⟨p, himport, hoverlap, o, ho, hname, hd⟩

/-- A catch clause whose body declares its parameter both ways. -/
def caughtVariable : Json :=
  .object [("type", .string "TryStatement"), ("block", blockWith []),
    ("handler", .object [("type", .string "CatchClause"),
      ("param", .object [("type", .string "Identifier"), ("name", .string "x")]),
      ("body", overlappingVariable)]),
    ("finalizer", .null)]

/-- Two binders of an imported program overlap, and no error is reported. -/
def OverlapsSilently (raw : Json) (l v : Occurrence) (block : ScopeId) : Prop :=
  ∃ p, importProgram raw none = .ok p ∧ l ∈ p.occurrences ∧ v ∈ p.occurrences ∧
    (p.resolution { hostGlobals := false }).Overlap l v block ∧
    ∀ d ∈ (p.resolution { hostGlobals := false }).diagnostics, d.isError = false

theorem overlapsSilently_of_some {raw : Json} {l v : Occurrence} {block : ScopeId}
    (h : ((importProgram raw none).toOption.map fun p =>
      decide (l ∈ p.occurrences ∧ v ∈ p.occurrences ∧
        (p.resolution { hostGlobals := false }).Overlap l v block ∧
        ∀ d ∈ (p.resolution { hostGlobals := false }).diagnostics, d.isError = false))
      = some true) : OverlapsSilently raw l v block := by
  obtain ⟨p, hp, hfacts⟩ := Option.map_eq_some_iff.mp h
  exact ⟨p, importProgram_of_toOption hp, of_decide_eq_true hfacts⟩

/-- The block is not reported as an error after a variable of the same name, and
neither is it as the body of a catch clause with a parameter of that name. -/
theorem overlappingVariable_silent :
    OverlapsSilently (programWith [declarationOfX "var", overlappingVariable])
        (lexicalAt 10) (variableAt 7) 2 ∧
      OverlapsSilently (programWith [caughtVariable]) (lexicalAt 11) (variableAt 8) 3 :=
  ⟨overlapsSilently_of_some (by decide +kernel), overlapsSilently_of_some (by decide +kernel)⟩

end EsFront
