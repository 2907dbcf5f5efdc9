/-
An exported program is imported as itself.

The nodes are read back one by one (`EsFront.Proofs.Estree.ReadBack`). What is
left are the comments: they are written in one list, sorted by range, and have
to find their way back. The second import need not put them into its index in
the same order, but it holds the same comments of each line in the same order,
and nothing that an import does with an index tells such states apart
(`ImportState.Agrees`). Main statement: `importProgram_toEstree`.
-/
import EsFront.Proofs.Comments.Claim
import EsFront.Proofs.Comments.Reading
import EsFront.Proofs.Estree.ReadBack

namespace EsFront

/-! ### States that agree -/

/-- The states have given out the same, and have the same comments left of
every line. -/
structure ImportState.Agrees (s t : ImportState) : Prop where
  nextId : s.nextId = t.nextId
  directives : s.comments.directives = t.comments.directives
  find : ∀ line, s.comments.find line = t.comments.find line

namespace ImportState

/-- A node gets the same from states that agree. -/
theorem Agrees.reach {s t : ImportState} (h : s.Agrees t) (label : Label) :
    (s.reach label.kind label.data.loc label.data.range).1
        = (t.reach label.kind label.data.loc label.data.range).1 ∧
      (s.reach label.kind label.data.loc label.data.range).2.Agrees
        (t.reach label.kind label.data.loc label.data.range).2 := by
  have hfind : s.comments.find = t.comments.find := funext h.find
  have hclaimed : (s.comments.claimFor label.kind label.data.loc).1
      = (t.comments.claimFor label.kind label.data.loc).1 := by
    rw [CommentIndex.claimFor_fst, CommentIndex.claimFor_fst, hfind]
  have hdirectives : (s.comments.claimFor label.kind label.data.loc).2.directives
      = (t.comments.claimFor label.kind label.data.loc).2.directives := by
    rw [CommentIndex.directives_claimFor, CommentIndex.directives_claimFor, h.directives]
  unfold ImportState.reach CommentIndex.record
  refine ⟨?_, ?_, ?_, ?_⟩
  · dsimp only
    rw [h.nextId, hclaimed]
  · dsimp only
    rw [h.nextId]
  · dsimp only
    rw [h.nextId, hclaimed, hdirectives]
  · intro line
    refine (CommentIndex.find_claimFor s.comments label line).trans ?_
    rw [hfind]
    exact (CommentIndex.find_claimFor t.comments label line).symm

end ImportState

theorem Reached.agrees {s s' : ImportState} {labels : List Label} (h : Reached s labels s') :
    ∀ {t : ImportState}, s.Agrees t → ∃ t', Reached t labels t' ∧ s'.Agrees t' := by
  induction h with
  | nil =>
    intro t hagrees
    exact ⟨t, .nil, hagrees⟩
  | @cons s u s' label rest hfirst _ ih =>
    intro t hagrees
    obtain ⟨hdata, hstate⟩ := hagrees.reach label
    rw [hfirst] at hdata hstate
    obtain ⟨t', hrest, hlast⟩ := ih hstate
    have hreach : t.reach label.kind label.data.loc label.data.range
        = (label.data, (t.reach label.kind label.data.loc label.data.range).2) :=
      Prod.ext hdata.symm rfl
    exact ⟨t', .cons hreach hrest, hlast⟩

theorem filter_comm {α : Type} (p q : α → Bool) (l : List α) :
    (l.filter p).filter q = (l.filter q).filter p := by
  rw [List.filter_filter, List.filter_filter]
  simp only [Bool.and_comm]

/-- The comments that tie with a given one are all on its line. -/
theorem filter_ties_line {comments : List Comment} (h : ∀ c ∈ comments, c.endLine?.isSome)
    (a : Comment) :
    comments.filter (ties CommentIndex.precedes a)
      = (a.endLine?.toList.flatMap fun line => comments.filter (·.endLine? = some line)).filter
          (ties CommentIndex.precedes a) := by
  -- comments that tie end at the same position
  have hline : ∀ b, ties CommentIndex.precedes a b → a.endLine? = b.endLine? := fun b hties =>
    Comment.endLine?_of_cmpSpan (CommentIndex.ties_precedes.mp hties).1
  cases ha : a.endLine? with
  | none =>
    rw [List.filter_eq_nil_iff.mpr]
    · rfl
    · intro b hb hties
      have hsome := h b hb
      rw [← hline b hties, ha] at hsome
      exact absurd hsome Bool.false_ne_true
  | some line =>
    rw [Option.toList_some, List.flatMap_singleton, List.filter_filter]
    refine List.filter_congr ?_
    intro b _
    cases hties : ties CommentIndex.precedes a b with
    | false => rfl
    | true =>
      rw [← hline b hties, ha]
      simp

theorem CommentIndex.Keyed.filter_ties {index : CommentIndex} (h : index.Keyed) (a : Comment) :
    index.values.filter (ties precedes a)
      = (a.endLine?.toList.flatMap index.find).filter (ties precedes a) := by
  have hplaced : ∀ c ∈ index.values, c.endLine?.isSome := by
    intro c hc
    obtain ⟨line, hline, -⟩ := MultiMap.Keyed.mem_find h hc
    rw [hline]
    rfl
  rw [filter_ties_line hplaced, funext h.filter_values]

/-- The comments that are left are sorted to the same list. -/
theorem ImportState.Agrees.rest {s t : ImportState} (h : s.Agrees t) (hs : s.comments.Keyed)
    (ht : t.comments.Keyed) :
    s.comments.values.mergeSort CommentIndex.precedes
      = t.comments.values.mergeSort CommentIndex.precedes := by
  refine mergeSort_eq_of_ties CommentIndex.precedes_trans CommentIndex.precedes_total ?_
  intro a
  rw [hs.filter_ties, ht.filter_ties, funext h.find]

theorem Import.finish_agrees {s t : ImportState} (h : s.Agrees t) (hs : s.comments.Keyed)
    (ht : t.comments.Keyed) (data : NodeData) (body : Field (.list false) .statement) :
    finish data s body = finish data t body := by
  have hrest : s.comments.takeRest.1 = t.comments.takeRest.1 := h.rest hs ht
  have hdirectives : s.comments.takeRest.2.directives = t.comments.takeRest.2.directives :=
    h.directives
  unfold finish CommentIndex.record
  dsimp only
  rw [hrest, hdirectives]

/-! ### The list of comments -/

/-- What a node gets of a line. -/
theorem Label.filter_gets {label : Label} {share : UInt32 → List Comment}
    (hshare : ∀ line, ∀ c ∈ share line, c.endLine? = some line) (line : UInt32) :
    (label.gets share).filter (·.endLine? = some line)
      = if label.claims line then share line else [] := by
  have hfilter : ∀ other, (share other).filter (·.endLine? = some line)
      = if other = line then share line else [] := by
    intro other
    by_cases h : other = line
    · subst h
      rw [if_pos rfl, List.filter_eq_self]
      exact fun c hc => decide_eq_true (hshare other c hc)
    · rw [if_neg h, List.filter_eq_nil_iff]
      intro c hc heq
      rw [decide_eq_true_eq, hshare other c hc, Option.some.injEq] at heq
      exact h heq
  rw [gets, claims]
  cases label.startLine? with
  | none => rfl
  | some start =>
    simp only [Option.any_some, Bool.or_eq_true, decide_eq_true_eq, List.filter_append, hfilter]
    -- no line comes before the first, so there is nothing to take from it
    by_cases hpos : 0 < start
    · rw [if_pos hpos, hfilter]
      by_cases hsame : start = line
      · subst hsame
        have hne : start - 1 ≠ start := by
          intro h
          have := (CommentIndex.sub_one_eq_iff hpos).mp h
          omega
        rw [if_neg hne, if_pos rfl, if_pos (.inl rfl), List.nil_append]
      · rw [if_neg hsame, List.append_nil]
        simp only [CommentIndex.sub_one_eq_iff hpos]
        have hne : start.toNat ≠ line.toNat := fun h => hsame (UInt32.toNat_inj.mp h)
        simp only [hne, false_or]
    · have hzero : start.toNat = 0 := by
        rw [UInt32.lt_iff_toNat_lt] at hpos
        exact Nat.eq_zero_of_not_pos hpos
      rw [if_neg hpos, List.filter_nil, List.nil_append]
      have hne : start.toNat ≠ line.toNat + 1 := by omega
      simp only [hne, or_false, UInt32.toNat_inj]

/-- The attached comments of a line are all the comments of that line, or none
is attached. -/
theorem Reached.filter_attached {s s' : ImportState} {labels : List Label}
    (h : Reached s labels s') (hkeyed : s.comments.Keyed) (line : UInt32) :
    (labels.flatMap (·.data.comments)).filter (·.endLine? = some line)
      = if labels.any (·.claims line) then s.comments.find line else [] := by
  induction h with
  | nil => rfl
  | @cons s t s' label rest hfirst _ ih =>
    have hspec := ImportState.reach_spec hkeyed hfirst
    rw [List.flatMap_cons, List.filter_append, ih hspec.keyed, hspec.gets,
      Label.filter_gets (fun _ _ => hkeyed.endLine?_of_mem), hspec.find, List.any_cons]
    cases label.claims line <;> cases rest.any (·.claims line) <;> simp

/-- On every line, the comments that are left and the attached ones are those
that were there, up to the order of comments that do not tie. -/
theorem Reached.ties_of_line {s s' : ImportState} {labels : List Label}
    (h : Reached s labels s') (hkeyed : s.comments.Keyed) (line : UInt32) (a : Comment) :
    ((s'.comments.values.mergeSort CommentIndex.precedes
        ++ labels.flatMap (·.data.comments)).filter (·.endLine? = some line)).filter
        (ties CommentIndex.precedes a)
      = (s.comments.find line).filter (ties CommentIndex.precedes a) := by
  have hleft : ((s'.comments.values.mergeSort CommentIndex.precedes).filter
      (·.endLine? = some line)).filter (ties CommentIndex.precedes a)
      = (s'.comments.find line).filter (ties CommentIndex.precedes a) := by
    rw [filter_comm, filter_mergeSort CommentIndex.precedes_trans CommentIndex.precedes_total
      (pairwise_filter_ties CommentIndex.precedes_trans a), filter_comm,
      (h.keyed hkeyed).filter_values]
  rw [List.filter_append, List.filter_append, hleft, h.filter_attached hkeyed, h.find hkeyed]
  cases labels.any (·.claims line) <;> simp

theorem Export.comments_finish (data : NodeData) (t : ImportState)
    (body : Field (.list false) .statement) :
    comments (Import.finish data t body)
      = (t.comments.values.mergeSort CommentIndex.precedes
          ++ body.labels.flatMap (·.data.comments)).mergeSort precedes := by
  let fields : Fields [.many "body" .statement] := .cons body .nil
  have hentries : (fields.entries data.id).flatMap (·.any.node.data.comments)
      = body.labels.flatMap (·.data.comments) := by
    have hlabels := Fields.labels_entries data.id fields
    rw [Fields.labels, Fields.labels, List.append_nil] at hlabels
    rw [← hlabels, List.flatMap_map]
    rfl
  rw [← hentries]
  rfl

section comments

variable {found : List Comment} {index : CommentIndex} {t' : ImportState}
  {body : Field (.list false) .statement} {data : NodeData}

/-- The written comments are the doc comments that were read. -/
theorem Reached.exported_perm (hadds : CommentIndex.empty.Adds found index)
    (hreached : Reached ⟨1, index⟩ body.labels t') :
    (Export.comments (Import.finish data t' body)).Perm (found.filter Comment.isDoc) := by
  rw [Export.comments_finish]
  refine (List.mergeSort_perm _ _).trans (List.perm_append_comm.trans ?_)
  refine ((List.mergeSort_perm _ _).append_left _).trans ?_
  exact (hreached.perm hadds.keyed).trans hadds.perm

/-- On every line the written comments are those that were read, sorted. -/
theorem Reached.docsOn_exported (hadds : CommentIndex.empty.Adds found index)
    (hreached : Reached ⟨1, index⟩ body.labels t') (line : UInt32) :
    docsOn (Export.comments (Import.finish data t' body)) line
      = (docsOn found line).mergeSort Export.precedes := by
  have hdocs : docsOn (Export.comments (Import.finish data t' body)) line
      = (Export.comments (Import.finish data t' body)).filter (·.endLine? = some line) := by
    refine List.filter_congr ?_
    intro c hc
    have hc' := (hreached.exported_perm hadds).mem_iff.mp hc
    rw [(List.mem_filter.mp hc').2, Bool.true_and]
  rw [hdocs, Export.comments_finish]
  refine eq_of_pairwise_of_ties Export.precedes_total ?_
    (List.pairwise_mergeSort Export.precedes_trans Export.precedes_total _) ?_
  · exact (List.pairwise_mergeSort Export.precedes_trans Export.precedes_total _).sublist
      List.filter_sublist
  · intro a
    have hclass := fun l : List Comment => filter_mergeSort Export.precedes_trans
      Export.precedes_total (pairwise_filter_ties (l := l) Export.precedes_trans a)
    rw [filter_comm, hclass, filter_comm, hclass, Export.ties_precedes,
      hreached.ties_of_line hadds.keyed, show index.find line = docsOn found line from hadds.find line]

/-- On every line the written comments are those that were read, in the same
order, if they were read in the order in which they are written. -/
theorem Reached.exported_docsOn (hadds : CommentIndex.empty.Adds found index)
    (hreached : Reached ⟨1, index⟩ body.labels t') {line : UInt32}
    (horder : (docsOn found line).Pairwise (Export.precedes · ·)) :
    docsOn (Export.comments (Import.finish data t' body)) line = docsOn found line :=
  (hreached.docsOn_exported hadds line).trans (List.mergeSort_of_pairwise horder)

end comments

/-! ### Reading comments -/

namespace Import

theorem comments_isIn {file : Option String} {raw : Json} {found : List Comment}
    (h : comments file raw = .ok found) :
    ∀ c ∈ found, ∀ loc, c.loc = some loc → loc.IsIn file := by
  have hread := (comments_eq_ok_iff.mp h).flip.imp fun c item hitem =>
    (⟨fun loc hloc => location?_isIn (hitem.loc ▸ hloc), hitem⟩ :
      (∀ loc, c.loc = some loc → loc.IsIn file) ∧ c.ReadFrom file item)
  exact ((List.forall₂_and_left _ _).mp hread).1

/-- A comment is read back from its own value. -/
theorem comment_back {file : Option String} {c : Comment}
    (h : ∀ loc, c.loc = some loc → loc.IsIn file) :
    comment file (Export.comment c) = .ok c := by
  have htype : (Export.comment c).text? "type" = some c.kind.text := by
    rw [Export.comment]
    cases c.loc <;> cases c.range <;> rfl
  have hvalue : (Export.comment c).text? "value" = some c.value := by
    rw [Export.comment]
    cases c.loc <;> cases c.range <;> rfl
  have hloc : (Export.comment c).get? "loc" = c.loc.map Export.location := by
    rw [Export.comment]
    cases c.loc <;> cases c.range <;> rfl
  have hrange : (Export.comment c).get? "range" = c.range.map Export.range := by
    rw [Export.comment]
    cases c.loc <;> cases c.range <;> rfl
  rw [comment, htype]
  dsimp only
  rw [CommentKind.ofText?_text]
  dsimp only
  rw [hvalue]
  dsimp only
  rw [Export.location?_of_get? hloc h, Export.range?_of_get? hrange]

theorem mapM_comment_back {file : Option String} {found : List Comment}
    (h : ∀ c ∈ found, ∀ loc, c.loc = some loc → loc.IsIn file) :
    (found.map Export.comment).mapM (comment file) = .ok found := by
  rw [mapM_eq_ok_iff, List.forall₂_map_left_iff, List.forall₂_same]
  exact fun c hc => comment_back (h c hc)

end Import

/-! ### Programs -/

namespace Program

variable (data : NodeData) (rest : List Comment) (index : DirectiveIndex)
  (body : Field (.list false) .statement)

/-- The members of an exported program. -/
theorem get?_toEstree :
    let p : Program := .mk data (.program rest index) (.cons body .nil)
    p.toEstree.nodeTag? = some NodeKind.program.tag ∧
      p.toEstree.get? "loc" = data.loc.map Export.location ∧
      p.toEstree.get? "range" = data.range.map Export.range ∧
      p.toEstree.get? "body" = some (.array body.entryValues) ∧
      p.toEstree.get? "comments" = some (.array ((Export.comments p).map Export.comment)) := by
  intro p
  have hvalue : p.toEstree = .object (("type", .string NodeKind.program.tag) ::
      Export.place data.loc data.range ++ Export.attributes (.program rest index) ++
        [("body", .array body.entryValues), ("elements", .array body.entryValues),
          ("comments", .array ((Export.comments p).map Export.comment))]) := by
    rw [← Export.fieldValue_list body]
    rfl
  rw [hvalue]
  cases data.loc <;> cases data.range <;> exact ⟨rfl, rfl, rfl, rfl, rfl⟩

end Program

/-- An imported program is read back from its own value, if on every line the
doc comments stood in the order in which they are written. -/
theorem importProgram_toEstree {raw : Json} {file : Option String} {p : Program}
    (h : importProgram raw file = .ok p)
    (horder : ∀ found, Import.comments file raw = .ok found →
      ∀ line, (docsOn found line).Pairwise (Export.precedes · ·)) :
    importProgram p.toEstree file = .ok p := by
  obtain ⟨found, index, t', body, hfound, hadd, hreached, himported, rfl⟩ := importProgram_ok h
  have hadds := CommentIndex.add_spec CommentIndex.keyed_empty hadd
  generalize hp : Import.finish ⟨0, raw.location? file, raw.range?, [], []⟩ t' body = p
  obtain ⟨htag, hloc, hrange, hbody, hcomments⟩ : p.toEstree.nodeTag? = some NodeKind.program.tag ∧
      p.toEstree.get? "loc" = (raw.location? file).map Export.location ∧
      p.toEstree.get? "range" = raw.range?.map Export.range ∧
      p.toEstree.get? "body" = some (.array body.entryValues) ∧
      p.toEstree.get? "comments" = some (.array ((Export.comments p).map Export.comment)) := by
    rw [← hp]
    exact Program.get?_toEstree _ _ _ body
  -- its own place
  have hloc' : p.toEstree.location? file = raw.location? file :=
    Export.location?_of_get? hloc fun _ => Import.location?_isIn
  have hrange' : p.toEstree.range? = raw.range? := Export.range?_of_get? hrange
  have hstart : ImportState.start.reach .program (p.toEstree.location? file) p.toEstree.range?
      = (⟨0, raw.location? file, raw.range?, [], []⟩, .mk 1 .empty) := by
    rw [hloc', hrange']
    cases raw.location? file <;> rfl
  -- its comments
  have hperm : (Export.comments p).Perm (found.filter Comment.isDoc) := by
    rw [← hp]
    exact hreached.exported_perm hadds
  have hmem : ∀ c ∈ Export.comments p, c ∈ found :=
    fun c hc => (List.mem_filter.mp (hperm.mem_iff.mp hc)).1
  have hread : Import.comments file p.toEstree = .ok (Export.comments p) := by
    rw [Import.comments, hcomments]
    exact Import.mapM_comment_back fun c hc => Import.comments_isIn hfound c (hmem c hc)
  have hlines := CommentIndex.add_eq_none_iff.mp ⟨index, hadd⟩
  obtain ⟨index₂, hadd₂⟩ : ∃ index₂, CommentIndex.empty.add (Export.comments p) = (index₂, none) :=
    CommentIndex.add_eq_none_iff.mpr fun c hc => hlines c (hmem c hc)
  have hadds₂ := CommentIndex.add_spec CommentIndex.keyed_empty hadd₂
  have hagrees : ImportState.Agrees ⟨1, index⟩ ⟨1, index₂⟩ := by
    refine ⟨rfl, hadds.directives.trans hadds₂.directives.symm, fun line => ?_⟩
    change index.find line = index₂.find line
    rw [hadds.find, hadds₂.find, ← hp, hreached.exported_docsOn hadds (horder found hfound line)]
  -- its statements
  obtain ⟨t₂, hreached₂, hagrees₂⟩ := hreached.agrees hagrees
  obtain ⟨entries, hentries, hlist⟩ :=
    Import.list_back (Import.node_back Import.depthLimit) .program hbody himported.1 himported.2
      hreached₂
  have hname : Import.statementsName p.toEstree = "body" := by
    rw [Import.statementsName, Json.isAbsent, hbody]
    rfl
  have hfinish : p = Import.finish ⟨0, raw.location? file, raw.range?, [], []⟩ t₂ body := by
    rw [← hp]
    exact Import.finish_agrees hagrees₂ (hreached.keyed hadds.keyed)
      (hreached₂.keyed hadds₂.keyed) _ body
  refine importProgram_eq_ok.mpr (Import.program_gives.mpr ⟨htag, ?_⟩)
  rw [hname]
  exact ⟨_, _, _, _, entries, t₂, body, hstart, hread, hadd₂, hentries, hlist, hfinish⟩

/-- A declaration under a doc comment, and another comment at the end. -/
def annotatedDeclaration : Json :=
  let position (line : Nat) : Json := .object [("line", .nat line), ("column", .nat 0)]
  let onLine (line : Nat) : String × Json :=
    ("loc", .object [("start", position line), ("end", position line)])
  let comment (line start : Nat) : Json :=
    .object [("type", .string "Block"), ("value", .string "* @tag \x7bparam\x7d"), onLine line,
      ("range", .array [.nat start, .nat (start + 9)])]
  let name : Json := .object [("type", .string "Identifier"), ("name", .string "x")]
  .object [("type", .string "Program"),
    ("body", .array [.object [("type", .string "VariableDeclaration"), ("kind", .string "var"),
      onLine 2, ("declarations", .array [.object [("type", .string "VariableDeclarator"),
        ("id", name), ("init", .null)]])]]),
    ("comments", .array [comment 1 0, comment 1 20, comment 9 40])]

theorem annotatedDeclaration_toEstree :
    ∃ p, importProgram annotatedDeclaration none = .ok p ∧
      importProgram p.toEstree none = .ok p := by
  have hok : (importProgram annotatedDeclaration none).toOption.isSome = true := by decide +kernel
  have hsorted : ((Import.comments none annotatedDeclaration).toOption.all fun found =>
      decide (found.Pairwise (Export.precedes · ·))) = true := by decide +kernel
  cases hp : importProgram annotatedDeclaration none with
  | error e =>
    rw [hp] at hok
    cases hok
  | ok p =>
    refine ⟨p, rfl, importProgram_toEstree hp ?_⟩
    intro found hfound line
    rw [hfound] at hsorted
    exact (of_decide_eq_true hsorted).sublist List.filter_sublist

end EsFront
