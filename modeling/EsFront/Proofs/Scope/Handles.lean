/-
Names are only compared.

The rules of scopes look at a name only to tell whether it is another one. So
when the names of one walk stand for the names of another, one to one, both
walks come to the same scopes, declarations and records, step by step:

* `Chain.Rel`, `Live.Rel` — chains and states that differ in their names only;
* `Live.Rel.verdict_eq` — the rules judge alike;
* `Live.Rel.bind`, `Live.Rel.predeclare`, `Live.Rel.use` — and the states after
  each event differ in their names only.
-/
import EsFront.Scope.Resolver
import Mathlib.Data.List.Forall2

namespace EsFront

variable {κ ν : Type} {R : κ → ν → Prop}

/-! ### Frames and chains -/

/-- Frames that differ in their names only. -/
structure Frame.Rel (R : κ → ν → Prop) (f : Frame κ) (g : Frame ν) : Prop where
  id : f.id = g.id
  kind : f.kind = g.kind
  names : List.Forall₂ (fun a b => R a.1 b.1 ∧ a.2 = b.2) f.names g.names

/-- Chains that differ in their names only. -/
def Chain.Rel (R : κ → ν → Prop) (c : Chain κ) (d : Chain ν) : Prop :=
  List.Forall₂ (Frame.Rel R) c d

theorem Frame.Rel.insert {f : Frame κ} {g : Frame ν} (h : f.Rel R g) {k : κ} {n : ν} (hn : R k n)
    (decl : DeclId) : (f.insert k decl).Rel R (g.insert n decl) :=
  ⟨h.id, h.kind, .cons ⟨hn, rfl⟩ h.names⟩

/-- What is first found in two lists is the same when it is the same for every
two entries. -/
theorem findSome?_of_forall₂ {α β γ : Type} {S : α → β → Prop} {find : α → Option γ}
    {other : β → Option γ} (hfind : ∀ a b, S a b → find a = other b) {l : List α} {m : List β}
    (h : List.Forall₂ S l m) : l.findSome? find = m.findSome? other := by
  induction h with
  | nil => rfl
  | cons hfirst _ ih => rw [List.findSome?_cons, List.findSome?_cons, hfind _ _ hfirst, ih]

theorem bind_eq_of_rel {α β γ : Type} {S : α → β → Prop} {find : α → Option γ}
    {other : β → Option γ} (hfind : ∀ a b, S a b → find a = other b) {x : Option α}
    {y : Option β} (h : Option.Rel S x y) : x.bind find = y.bind other := by
  cases h with
  | none => rfl
  | some hsome => exact hfind _ _ hsome

theorem map_eq_of_rel {α β γ : Type} {S : α → β → Prop} {f : α → γ} {g : β → γ}
    (hsame : ∀ a b, S a b → f a = g b) {x : Option α} {y : Option β} (h : Option.Rel S x y) :
    x.map f = y.map g := by
  cases h with
  | none => rfl
  | some hsome => exact congrArg some (hsame _ _ hsome)

section kinds

variable {S : Frame κ → Frame ν → Prop} {c : Chain κ} {d : Chain ν}

/-- Chains of the same kinds have their nearest blocks in common. -/
theorem forall₂_blocks (hkind : ∀ f g, S f g → f.kind = g.kind) (h : List.Forall₂ S c d) :
    List.Forall₂ S c.blocks d.blocks := by
  unfold Chain.blocks
  induction h with
  | nil => exact .nil
  | cons hfirst hrest ih =>
    rw [List.takeWhile_cons, List.takeWhile_cons, hkind _ _ hfirst]
    split
    · exact .cons hfirst ih
    · exact .nil

/-- Chains of the same kinds have their nearest function in common. -/
theorem rel_function? (hkind : ∀ f g, S f g → f.kind = g.kind) (h : List.Forall₂ S c d) :
    Option.Rel S c.function? d.function? := by
  unfold Chain.function?
  induction h with
  | nil => exact .none
  | cons hfirst _ ih =>
    rw [List.find?_cons, List.find?_cons, hkind _ _ hfirst]
    split
    · exact .some hfirst
    · exact ih

end kinds

namespace Chain.Rel

variable {c : Chain κ} {d : Chain ν}

theorem push (h : c.Rel R d) (id : ScopeId) (kind : ScopeKind) :
    Chain.Rel R (c.push id kind) (d.push id kind) := .cons ⟨rfl, rfl, .nil⟩ h

theorem pop (h : c.Rel R d) : Chain.Rel R c.pop d.pop := by
  cases h with
  | nil => exact .nil
  | cons _ hrest => exact hrest

theorem drop (h : c.Rel R d) (n : Nat) : Chain.Rel R (c.drop n) (d.drop n) :=
  List.forall₂_drop n h

theorem current?_eq (h : c.Rel R d) : c.current? = d.current? := by
  cases h with
  | nil => rfl
  | cons hfirst _ => exact congrArg some hfirst.id

theorem blocks (h : c.Rel R d) : Chain.Rel R c.blocks d.blocks :=
  forall₂_blocks (fun _ _ hframe => hframe.kind) h

theorem function? (h : c.Rel R d) : Option.Rel (Frame.Rel R) c.function? d.function? :=
  rel_function? (fun _ _ hframe => hframe.kind) h

theorem insert (h : c.Rel R d) {k : κ} {n : ν} (hn : R k n) (decl : DeclId) :
    Chain.Rel R (c.insert k decl) (d.insert n decl) := by
  cases h with
  | nil => exact .nil
  | cons hfirst hrest => exact .cons (hfirst.insert hn decl) hrest

theorem insertFunction (h : c.Rel R d) {k : κ} {n : ν} (hn : R k n) (decl : DeclId) :
    Chain.Rel R (c.insertFunction k decl) (d.insertFunction n decl) := by
  induction h with
  | nil => exact .nil
  | cons hfirst hrest ih =>
    rw [Chain.insertFunction, Chain.insertFunction, hfirst.kind]
    split
    · exact .cons (hfirst.insert hn decl) hrest
    · exact .cons hfirst ih

theorem bound (h : c.Rel R d) {k : κ} {n : ν} (hn : R k n) (binding : Binding) (decl : DeclId) :
    Chain.Rel R (Live.bound binding c k decl) (Live.bound binding d n decl) := by
  unfold Live.bound
  refine List.rel_append (List.forall₂_take _ h) ?_
  split
  · exact (h.drop _).insert hn decl
  · exact (h.drop _).insertFunction hn decl

/-- More names may stand for each other. -/
theorem mono {S : κ → ν → Prop} (h : c.Rel R d) (hmore : ∀ k n, R k n → S k n) : c.Rel S d :=
  List.Forall₂.imp (fun _ _ hframe => ⟨hframe.id, hframe.kind,
    List.Forall₂.imp (fun _ _ hname => ⟨hmore _ _ hname.1, hname.2⟩) hframe.names⟩) h

end Chain.Rel

/-! ### Looking names up -/

section lookup

variable [DecidableEq ν]

/-- A name that nothing stands for is not bound. -/
theorem find?_names_eq_none {n : ν} (hn : ∀ k, ¬ R k n) {names : List (κ × DeclId)}
    {others : List (ν × DeclId)}
    (h : List.Forall₂ (fun a b => R a.1 b.1 ∧ a.2 = b.2) names others) :
    others.find? (·.1 = n) = none := by
  induction h with
  | nil => rfl
  | @cons a b _ _ hfirst _ ih =>
    have hne : b.1 ≠ n := fun heq => hn a.1 (heq ▸ hfirst.1)
    rw [List.find?_cons, decide_eq_false hne]
    exact ih

theorem Chain.Rel.lookup_eq_none {c : Chain κ} {d : Chain ν} (h : c.Rel R d) {n : ν}
    (hn : ∀ k, ¬ R k n) : d.lookup n = none := by
  unfold Chain.lookup
  induction h with
  | nil => rfl
  | cons hfirst _ ih =>
    rw [List.findSome?_cons, Frame.local?, find?_names_eq_none hn hfirst.names]
    exact ih

variable [DecidableEq κ]

/-- A name is found where the name that it stands for is found. -/
theorem find?_names_eq (hR : Relator.BiUnique R) {k : κ} {n : ν} (hn : R k n)
    {names : List (κ × DeclId)} {others : List (ν × DeclId)}
    (h : List.Forall₂ (fun a b => R a.1 b.1 ∧ a.2 = b.2) names others) :
    (names.find? (·.1 = k)).map (·.2) = (others.find? (·.1 = n)).map (·.2) := by
  induction h with
  | nil => rfl
  | @cons a b _ _ hfirst _ ih =>
    -- this is where one to one is needed, in both directions
    have hsame : decide (a.1 = k) = decide (b.1 = n) :=
      decide_eq_decide.mpr (Relator.rel_eq hR hfirst.1 hn)
    rw [List.find?_cons, List.find?_cons, hsame]
    split
    · exact congrArg some hfirst.2
    · exact ih

theorem Frame.Rel.local?_eq {f : Frame κ} {g : Frame ν} (h : f.Rel R g) (hR : Relator.BiUnique R)
    {k : κ} {n : ν} (hn : R k n) : f.local? k = g.local? n := find?_names_eq hR hn h.names

namespace Chain.Rel

variable {c : Chain κ} {d : Chain ν}

theorem local?_eq (h : c.Rel R d) (hR : Relator.BiUnique R) {k : κ} {n : ν} (hn : R k n) :
    c.local? k = d.local? n := by
  cases h with
  | nil => rfl
  | cons hfirst _ => exact hfirst.local?_eq hR hn

theorem lookup_eq (h : c.Rel R d) (hR : Relator.BiUnique R) {k : κ} {n : ν} (hn : R k n) :
    c.lookup k = d.lookup n := findSome?_of_forall₂ (fun _ _ hframe => hframe.local?_eq hR hn) h

end Chain.Rel

end lookup

/-! ### States -/

/-- States that differ in their names only. -/
structure Live.Rel (R : κ → ν → Prop) (live : Live κ) (other : Live ν) : Prop where
  chain : Chain.Rel R live.chain other.chain
  tree : live.tree = other.tree
  declarations : live.declarations = other.declarations
  mentions : live.mentions = other.mentions

namespace Live.Rel

variable {live : Live κ} {other : Live ν}

theorem start : Live.Rel R (.start : Live κ) .start := ⟨.nil, rfl, rfl, rfl⟩

theorem mono {S : κ → ν → Prop} (h : live.Rel R other) (hmore : ∀ k n, R k n → S k n) :
    live.Rel S other := ⟨h.chain.mono hmore, h.tree, h.declarations, h.mentions⟩

theorem enter (h : live.Rel R other) (kind : ScopeKind) :
    (live.enter kind).Rel R (other.enter kind) := by
  refine ⟨?_, ?_, h.declarations, h.mentions⟩
  · change Chain.Rel R (live.chain.push live.tree.nextId kind)
      (other.chain.push other.tree.nextId kind)
    rw [h.tree]
    exact h.chain.push _ kind
  · change live.tree.add kind live.chain.current? = other.tree.add kind other.chain.current?
    rw [h.tree, h.chain.current?_eq]

theorem leave (h : live.Rel R other) : live.leave.Rel R other.leave :=
  ⟨h.chain.pop, h.tree, h.declarations, h.mentions⟩

theorem record (h : live.Rel R other) (name : String) (site : Site) (outcome : Outcome) :
    (live.record name site outcome).Rel R (other.record name site outcome) := by
  unfold Live.record
  rw [h.chain.current?_eq]
  split
  · exact h
  · exact ⟨h.chain, h.tree, h.declarations, congrArg (· ++ _) h.mentions⟩

theorem addDeclaration (h : live.Rel R other) (decl : Declaration) {c : Chain κ} {d : Chain ν}
    (hchain : c.Rel R d) : (live.addDeclaration decl c).Rel R (other.addDeclaration decl d) :=
  ⟨hchain, congrArg (ScopeTree.addDeclaration · decl.scope decl.id) h.tree,
    congrArg (· ++ [decl]) h.declarations, h.mentions⟩

section rules

variable [DecidableEq κ] [DecidableEq ν]

theorem declared?_eq (h : live.Rel R other) (hR : Relator.BiUnique R) {f : Frame κ} {g : Frame ν}
    (hframe : f.Rel R g) {k : κ} {n : ν} (hn : R k n) :
    live.declared? f k = other.declared? g n := by
  unfold Live.declared?
  rw [hframe.local?_eq hR hn, h.declarations]

theorem lexicalVerdict_eq (h : live.Rel R other) (hR : Relator.BiUnique R) {k : κ} {n : ν}
    (hn : R k n) {c : Chain κ} {d : Chain ν} (hview : c.Rel R d) :
    live.lexicalVerdict c k = other.lexicalVerdict d n := by
  have hfunction : c.function?.bind (live.declared? · k)
      = d.function?.bind (other.declared? · n) := by
    refine bind_eq_of_rel ?_ hview.function?
    exact fun f g hframe => h.declared?_eq hR hframe hn
  cases hview with
  | nil => rfl
  | cons hfirst hrest =>
    unfold Live.lexicalVerdict
    dsimp only
    rw [h.declared?_eq hR hfirst hn, hfunction, h.tree, hfirst.id]

theorem hoistedVerdict_eq (h : live.Rel R other) (hR : Relator.BiUnique R) {k : κ} {n : ν}
    (hn : R k n) {c : Chain κ} {d : Chain ν} (hview : c.Rel R d) :
    live.hoistedVerdict c k = other.hoistedVerdict d n := by
  have hshadowing : c.blocks.findSome? (fun frame => (live.declared? frame k).filter fun d =>
        d.kind = .lexical || d.kind = .const)
      = d.blocks.findSome? fun frame => (other.declared? frame n).filter fun d =>
        d.kind = .lexical || d.kind = .const := by
    refine findSome?_of_forall₂ ?_ hview.blocks
    intro f g hframe
    rw [h.declared?_eq hR hframe hn]
  unfold Live.hoistedVerdict
  dsimp only
  rw [hshadowing]
  -- the function counts only when no block on the way declares the name
  split
  · rfl
  · refine map_eq_of_rel (fun _ _ hframe => ?_) hview.function?
    rw [h.declared?_eq hR hframe hn, hframe.id]

theorem parameterVerdict_eq (h : live.Rel R other) (hR : Relator.BiUnique R) {k : κ} {n : ν}
    (hn : R k n) {c : Chain κ} {d : Chain ν} (hview : c.Rel R d) :
    live.parameterVerdict c k = other.parameterVerdict d n := by
  refine map_eq_of_rel (fun _ _ hframe => ?_) hview.function?
  rw [h.declared?_eq hR hframe hn, hframe.id]

/-- The rules judge alike. -/
theorem verdict_eq (h : live.Rel R other) (hR : Relator.BiUnique R) {k : κ} {n : ν} (hn : R k n)
    {c : Chain κ} {d : Chain ν} (hview : c.Rel R d) (binding : Binding) :
    live.verdict binding c k = other.verdict binding d n := by
  unfold Live.verdict
  rw [h.parameterVerdict_eq hR hn hview, h.lexicalVerdict_eq hR hn hview,
    h.hoistedVerdict_eq hR hn hview]

/-! ### Events -/

theorem bind (h : live.Rel R other) (hR : Relator.BiUnique R) {k : κ} {n : ν} (hn : R k n)
    (binding : Binding) (name : String) (site : Site) :
    (live.bind k binding name site).Rel R (other.bind n binding name site) := by
  have hview := h.chain.drop binding.skipped
  unfold Live.bind
  dsimp only
  rw [hview.current?_eq, h.verdict_eq hR hn hview, h.declarations]
  -- both declare, both clash, or neither is in a scope
  split
  · exact (h.addDeclaration _ (h.chain.bound hn binding _)).record name site _
  · exact h.record name site _
  · exact h

theorem predeclare (h : live.Rel R other) (hR : Relator.BiUnique R) {k : κ} {n : ν} (hn : R k n)
    (name : String) : (live.predeclare k name).Rel R (other.predeclare n name) := by
  unfold Live.predeclare
  rw [h.chain.current?_eq, h.chain.local?_eq hR hn, h.declarations]
  split
  · exact h.addDeclaration _ (h.chain.insert hn _)
  · exact h

end rules

theorem use (h : live.Rel R other) (found : Option DeclId) (name : String) (site : Site) :
    (live.use found name site).Rel R (other.use found name site) := by
  unfold Live.use
  rw [h.declarations]
  split
  · exact h.record name site _
  · exact h.record name site _

end Live.Rel

end EsFront
