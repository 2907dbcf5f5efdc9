/-
What is written is a normal form.

When an exported program is imported, the comments of each line come in the order
in which they are written, whatever order they had at first. So the second import
finds at every node the same comments line by line, each line sorted (`tidy`), and
leaves the same comments to the program. Nothing else differs, and both programs
are written as the same value. Main statements:

* `ImportState.Tidies.reach`, `Reached.tidies` — what a node and a run of nodes
  get when the comments of every line are sorted;
* `importProgram_back` — what is read from the value of a program;
* `importProgram_normalForm` — the value of a program is a normal form.
-/
import EsFront.Proofs.Comments.Tags
import EsFront.Proofs.Estree.RoundTrip
import EsFront.Proofs.Syntax.Data
import Mathlib.Data.List.Forall2
import Mathlib.Data.List.Perm.Basic

namespace EsFront

/-! ### Sorting line by line -/

/-- By the line on which comments end, no line first. -/
def Comment.cmpLine (a b : Comment) : Ordering := compareOptions compare a.endLine? b.endLine?

instance Comment.transCmp_cmpLine : Std.TransCmp cmpLine :=
  transCmp_comap (compareOptions compare) Comment.endLine?

theorem Comment.cmpLine_eq {a b : Comment} (h : a.endLine? = b.endLine?) : a.cmpLine b = .eq := by
  rw [cmpLine, h]
  exact Std.ReflCmp.compare_self

namespace Tidy

/-- Whether `a` may stand before `b` when lines are sorted: by line, and on a line
as comments are written. -/
def precedes (a b : Comment) : Bool :=
  (compareLex Comment.cmpLine (compareLex Comment.cmpStart Comment.cmpSpan) a b).isLE

theorem precedes_eq (a b : Comment) : precedes a b
    = (compareLex Comment.cmpLine (compareLex Comment.cmpStart Comment.cmpSpan) a b).isLE := rfl

theorem precedes_trans : ∀ a b c, precedes a b → precedes b c → precedes a c :=
  trans_of_cmp precedes_eq

theorem precedes_total : ∀ a b, precedes a b || precedes b a :=
  total_of_cmp precedes_eq

/-- On one line the order is that of the export. -/
theorem precedes_of_line {a b : Comment} (h : a.endLine? = b.endLine?) :
    precedes a b = Export.precedes a b := by
  rw [precedes, compareLex, Comment.cmpLine_eq h, Export.precedes_eq]
  rfl

theorem precedes_of_lt {a b : Comment} (h : a.cmpLine b = .lt) : precedes a b = true := by
  rw [precedes, compareLex, h]
  rfl

/-- The order has the same ties as that of the export. -/
theorem ties_precedes (a : Comment) : ties precedes a = ties Export.precedes a := by
  funext b
  rw [Bool.eq_iff_iff, ties_iff precedes_eq, ties_iff Export.precedes_eq, compareLex,
    Ordering.then_eq_eq]
  refine ⟨fun h => h.2, fun h => ⟨?_, h⟩⟩
  rw [compareLex, Ordering.then_eq_eq] at h
  exact Comment.cmpLine_eq (Comment.endLine?_of_cmpSpan h.2)

end Tidy

/-- The comments line by line, each line in the order in which it is written. -/
def tidy (comments : List Comment) : List Comment := comments.mergeSort Tidy.precedes

theorem tidy_perm (comments : List Comment) : (tidy comments).Perm comments :=
  List.mergeSort_perm _ _

/-- Comments that tie keep their order when lines are sorted. -/
theorem filter_tidy (comments : List Comment) (a : Comment) :
    (tidy comments).filter (ties Export.precedes a) = comments.filter (ties Export.precedes a) := by
  rw [← Tidy.ties_precedes]
  exact filter_mergeSort Tidy.precedes_trans Tidy.precedes_total
    (pairwise_filter_ties Tidy.precedes_trans a)

/-- The same when they are sorted for the export. -/
theorem filter_sorted (comments : List Comment) (a : Comment) :
    (comments.mergeSort Export.precedes).filter (ties Export.precedes a)
      = comments.filter (ties Export.precedes a) :=
  filter_mergeSort Export.precedes_trans Export.precedes_total
    (pairwise_filter_ties Export.precedes_trans a)

/-- The comments of one line, sorted. -/
theorem pairwise_sorted {comments : List Comment} {line : Option UInt32}
    (h : ∀ c ∈ comments, c.endLine? = line) :
    (comments.mergeSort Export.precedes).Pairwise (Tidy.precedes · ·) := by
  refine (List.pairwise_mergeSort Export.precedes_trans Export.precedes_total comments).imp_of_mem ?_
  intro a b ha hb hab
  rw [List.mem_mergeSort] at ha hb
  rw [Tidy.precedes_of_line ((h a ha).trans (h b hb).symm)]
  exact hab

/-- Two lines, sorted one by one. -/
theorem tidy_append {first rest : List Comment} {line line' : Option UInt32}
    (hfirst : ∀ c ∈ first, c.endLine? = line) (hrest : ∀ c ∈ rest, c.endLine? = line')
    (hlines : ∀ a ∈ first, ∀ b ∈ rest, a.cmpLine b = .lt) :
    tidy (first ++ rest) = first.mergeSort Export.precedes ++ rest.mergeSort Export.precedes := by
  refine eq_of_pairwise_of_ties Tidy.precedes_total
    (List.pairwise_mergeSort Tidy.precedes_trans Tidy.precedes_total _) ?_ ?_
  · refine List.pairwise_append.mpr ⟨pairwise_sorted hfirst, pairwise_sorted hrest, ?_⟩
    intro a ha b hb
    rw [List.mem_mergeSort] at ha hb
    exact Tidy.precedes_of_lt (hlines a ha b hb)
  · intro a
    rw [Tidy.ties_precedes, filter_tidy, List.filter_append, List.filter_append, filter_sorted,
      filter_sorted]

/-- The comments stand in another order, in which only comments that end on the
same line have changed places. -/
structure ReorderedOnLines (comments comments' : List Comment) : Prop where
  lines : comments.map Comment.endLine? = comments'.map Comment.endLine?
  perm : ∀ line, (comments.filter (·.endLine? = line)).Perm (comments'.filter (·.endLine? = line))

namespace ReorderedOnLines

theorem of_line {comments comments' : List Comment} {line : Option UInt32}
    (h : ∀ c ∈ comments, c.endLine? = line) (hperm : comments.Perm comments') :
    ReorderedOnLines comments comments' := by
  refine ⟨?_, fun _ => hperm.filter _⟩
  have h' : ∀ c ∈ comments', c.endLine? = line := fun c hc => h c (hperm.mem_iff.mpr hc)
  rw [List.map_congr_left h, List.map_congr_left h', List.map_const', List.map_const',
    hperm.length_eq]

theorem append {first first' rest rest' : List Comment} (h : ReorderedOnLines first first')
    (h' : ReorderedOnLines rest rest') : ReorderedOnLines (first ++ rest) (first' ++ rest') := by
  refine ⟨?_, fun line => ?_⟩
  · rw [List.map_append, List.map_append, h.lines, h'.lines]
  · rw [List.filter_append, List.filter_append]
    exact (h.perm line).append (h'.perm line)

end ReorderedOnLines

/-- A node that finds its lines sorted gets its comments tidied, and only comments
of the same line have changed places. -/
theorem Label.gets_sorted {label : Label} {share : UInt32 → List Comment}
    (hshare : ∀ line, ∀ c ∈ share line, c.endLine? = some line) :
    label.gets (fun line => (share line).mergeSort Export.precedes) = tidy (label.gets share) ∧
      ReorderedOnLines (label.gets share) (tidy (label.gets share)) := by
  have hsort : ∀ line, ReorderedOnLines (share line) ((share line).mergeSort Export.precedes) :=
    fun line => .of_line (hshare line) (List.mergeSort_perm _ _).symm
  rw [gets, gets]
  cases label.startLine? with
  | none =>
    exact ⟨List.mergeSort_nil.symm,
      @ReorderedOnLines.of_line [] _ none (List.forall_mem_nil _) (tidy_perm _).symm⟩
  | some start =>
    dsimp only
    by_cases hpos : 0 < start
    · -- the line above stays in front of the line of the node
      have hlines : ∀ a ∈ share (start - 1), ∀ b ∈ share start, a.cmpLine b = .lt := by
        intro a ha b hb
        rw [Comment.cmpLine, hshare _ a ha, hshare _ b hb, compareOptions, Std.compare_eq_lt,
          UInt32.lt_iff_toNat_lt]
        have := (CommentIndex.sub_one_eq_iff hpos).mp rfl
        omega
      rw [if_pos hpos, if_pos hpos, tidy_append (hshare _) (hshare _) hlines]
      exact ⟨rfl, (hsort _).append (hsort _)⟩
    · rw [if_neg hpos, if_neg hpos, List.nil_append, List.nil_append]
      have hone := @tidy_append [] _ none _ (List.forall_mem_nil _) (hshare start)
        (List.forall_mem_nil _)
      rw [List.mergeSort_nil, List.nil_append, List.nil_append] at hone
      rw [hone]
      exact ⟨rfl, hsort _⟩

/-! ### Reaching nodes when lines are sorted -/

/-- What the node carries when its comments are tidied. -/
def NodeData.tidied (data : NodeData) : NodeData :=
  { data with
    comments := tidy data.comments
    directives := (tidy data.comments).flatMap Comment.directives }

/-- A node carries the same in two programs, up to the order of comments on a
line. -/
structure NodeData.SameUpToOrder (data data' : NodeData) : Prop where
  /-- Only comments that end on the same line have changed places, -/
  comments : ReorderedOnLines data.comments data'.comments
  /-- and the directives follow the comments. -/
  directives : data.directives = data.comments.flatMap Comment.directives ∧
    data'.directives = data'.comments.flatMap Comment.directives

/-- The second state has given out as many numbers as the first, and has its
comments, with every line sorted. -/
structure ImportState.Tidies (s t : ImportState) : Prop where
  nextId : t.nextId = s.nextId
  find : ∀ line, t.comments.find line = (s.comments.find line).mergeSort Export.precedes

/-- A node gets its comments tidied when every line is sorted. -/
theorem ImportState.Tidies.reach {s s' t : ImportState} {label : Label} (h : s.Tidies t)
    (hkeyed : s.comments.Keyed)
    (hreach : s.reach label.kind label.data.loc label.data.range = (label.data, s')) :
    label.data.SameUpToOrder label.data.tidied ∧
      ∃ t', t.reach label.kind label.data.loc label.data.range = (label.data.tidied, t') ∧
        s'.Tidies t' := by
  have hspec := ImportState.reach_spec hkeyed hreach
  obtain ⟨hsorted, hreordered⟩ := @Label.gets_sorted label s.comments.find
    fun _ _ => hkeyed.endLine?_of_mem
  rw [← hspec.gets] at hsorted hreordered
  have hclaimed : (t.comments.claimFor label.kind label.data.loc).1 = tidy label.data.comments := by
    rw [CommentIndex.claimFor_fst, funext h.find, hsorted]
  rw [ImportState.reach, Prod.mk.injEq] at hreach
  obtain ⟨hdata, hstate⟩ := hreach
  have hid : s.nextId = label.data.id := congrArg NodeData.id hdata
  have hnext : s.nextId + 1 = s'.nextId := congrArg ImportState.nextId hstate
  refine ⟨⟨hreordered, ?_, rfl⟩, (t.reach label.kind label.data.loc label.data.range).2,
    Prod.ext ?_ rfl, ?_, fun line => ?_⟩
  · rw [← hdata]
    rfl
  · show (⟨t.nextId, label.data.loc, label.data.range,
      (t.comments.claimFor label.kind label.data.loc).1,
      (t.comments.claimFor label.kind label.data.loc).1.flatMap Comment.directives⟩ : NodeData) = _
    rw [hclaimed, h.nextId, hid]
    rfl
  · show t.nextId + 1 = _
    rw [h.nextId, hnext]
  · refine (CommentIndex.find_claimFor t.comments label line).trans ?_
    rw [hspec.find, h.find]
    split
    · exact List.mergeSort_nil.symm
    · rfl

/-- Nodes that are reached one after the other get their comments tidied. -/
theorem Reached.tidies {s s' : ImportState} {labels : List Label} (h : Reached s labels s') :
    ∀ {t : ImportState}, s.Tidies t → s.comments.Keyed →
      (∀ label ∈ labels, label.data.SameUpToOrder label.data.tidied) ∧
        ∃ t', Reached t (labels.map (Label.mapData NodeData.tidied)) t' ∧ s'.Tidies t' := by
  induction h with
  | nil =>
    intro t htidies _
    exact ⟨List.forall_mem_nil _, t, .nil, htidies⟩
  | @cons s u s' label rest hfirst _ ih =>
    intro t htidies hkeyed
    obtain ⟨hlabel, t₁, hreach, htidies₁⟩ := htidies.reach hkeyed hfirst
    obtain ⟨hrest, t', hreached, htidies'⟩ :=
      ih htidies₁ (ImportState.reach_spec hkeyed hfirst).keyed
    exact ⟨List.forall_mem_cons.mpr ⟨hlabel, hrest⟩, t', .cons hreach hreached, htidies'⟩

/-- The comments that are left are sorted to the same list. -/
theorem ImportState.Tidies.rest {s t : ImportState} (h : s.Tidies t) (hs : s.comments.Keyed)
    (ht : t.comments.Keyed) :
    t.comments.values.mergeSort CommentIndex.precedes
      = s.comments.values.mergeSort CommentIndex.precedes := by
  refine mergeSort_eq_of_ties CommentIndex.precedes_trans CommentIndex.precedes_total ?_
  intro a
  rw [ht.filter_ties, hs.filter_ties, ← Export.ties_precedes, List.filter_flatMap,
    List.filter_flatMap]
  refine List.flatMap_congr fun line _ => ?_
  rw [h.find, filter_sorted]

/-! ### The export of a tidied program -/

theorem ignoresChange_tidied : IgnoresChange NodeData.tidied Export.object :=
  fun _ _ _ => rfl

theorem Field.entryValues_tidied {holes : Bool} {holds : Capability}
    (field : Field (.list holes) holds) :
    (field.mapData NodeData.tidied).entryValues = field.entryValues :=
  Field.entryValues_congr (Field.fold_mapData ignoresChange_tidied field)

/-- Tidied comments are written in the same order. -/
theorem filter_flatMap_tidied (labels : List Label) (a : Comment) :
    ((labels.map (Label.mapData NodeData.tidied)).flatMap (·.data.comments)).filter
        (ties Export.precedes a)
      = (labels.flatMap (·.data.comments)).filter (ties Export.precedes a) := by
  rw [List.flatMap_map, List.filter_flatMap, List.filter_flatMap]
  exact List.flatMap_congr fun label _ => filter_tidy label.data.comments a

namespace Import

variable (data : NodeData) (body : Field (.list false) .statement) {s t : ImportState}

theorem toEstree_finish (t : ImportState) : (finish data t body).toEstree
    = .object (("type", .string NodeKind.program.tag) :: Export.place data.loc data.range ++
        [("sourceType", .string "script")] ++
        [("body", .array body.entryValues), ("elements", .array body.entryValues),
          ("comments", .array ((Export.comments (finish data t body)).map Export.comment))]) := by
  rw [← Export.fieldValue_list body]
  rfl

/-- A tidied program is written as the same value. -/
theorem toEstree_tidied (h : s.Tidies t) (hs : s.comments.Keyed) (ht : t.comments.Keyed) :
    (finish data t (body.mapData NodeData.tidied)).toEstree = (finish data s body).toEstree := by
  have hcomments : Export.comments (finish data t (body.mapData NodeData.tidied))
      = Export.comments (finish data s body) := by
    rw [Export.comments_finish, Export.comments_finish, h.rest hs ht, Field.labels_mapData]
    refine mergeSort_eq_of_ties Export.precedes_trans Export.precedes_total fun a => ?_
    rw [List.filter_append, List.filter_append, filter_flatMap_tidied]
  rw [toEstree_finish, toEstree_finish, hcomments, Field.entryValues_tidied]

end Import

/-! ### Reading the value of a program -/

/-- What is read from the value of a program: statements with the values of its
own, if they have the shape of imported trees, are not too deep, and get what is
found in the comments of the value. -/
theorem importProgram_back {file : Option String} {data : NodeData} {s t : ImportState}
    {index : CommentIndex} {body body' : Field (.list false) .statement}
    (hlocated : ∀ loc, data.loc = some loc → loc.IsIn file)
    (hcomments : ∀ c ∈ Export.comments (Import.finish data s body),
      ∀ loc, c.loc = some loc → loc.IsIn file)
    (hadd : CommentIndex.empty.add (Export.comments (Import.finish data s body)) = (index, none))
    (hvalues : body'.entryValues = body.entryValues)
    (himported : body'.Imported file .child) (hheight : body'.height ≤ Import.depthLimit)
    (hreached : Reached ⟨1, index⟩ body'.labels t) :
    importProgram (Import.finish data s body).toEstree file
      = .ok (Import.finish ⟨0, data.loc, data.range, [], []⟩ t body') := by
  generalize hp : Import.finish data s body = p at *
  obtain ⟨htag, hloc, hrange, hbody, hlist⟩ : p.toEstree.nodeTag? = some NodeKind.program.tag ∧
      p.toEstree.get? "loc" = data.loc.map Export.location ∧
      p.toEstree.get? "range" = data.range.map Export.range ∧
      p.toEstree.get? "body" = some (.array body.entryValues) ∧
      p.toEstree.get? "comments" = some (.array ((Export.comments p).map Export.comment)) := by
    rw [← hp]
    exact Program.get?_toEstree _ _ _ body
  rw [← hvalues] at hbody
  -- its own place, its comments, and its statements
  have hstart : ImportState.start.reach .program (p.toEstree.location? file) p.toEstree.range?
      = (⟨0, data.loc, data.range, [], []⟩, .mk 1 .empty) := by
    rw [Export.location?_of_get? hloc hlocated, Export.range?_of_get? hrange]
    cases data.loc <;> rfl
  have hread : Import.comments file p.toEstree = .ok (Export.comments p) := by
    rw [Import.comments, hlist]
    exact Import.mapM_comment_back hcomments
  obtain ⟨entries, hentries, hused⟩ := Import.list_back (Import.node_back Import.depthLimit)
    .program hbody himported hheight hreached
  have hname : Import.statementsName p.toEstree = "body" := by
    rw [Import.statementsName, Json.isAbsent, hbody]
    rfl
  refine importProgram_eq_ok.mpr (Import.program_gives.mpr ⟨htag, ?_⟩)
  rw [hname]
  exact ⟨_, _, _, _, entries, t, body', hstart, hread, hadd, hentries, hused, rfl⟩

/-- An imported program is read back from its value with its comments tidied. -/
theorem importProgram_tidies {raw : Json} {file : Option String} {p : Program}
    (h : importProgram raw file = .ok p) :
    ∃ data s t body, p = Import.finish data s body ∧
      importProgram p.toEstree file
        = .ok (Import.finish data t (body.mapData NodeData.tidied)) ∧
      s.Tidies t ∧ s.comments.Keyed ∧ t.comments.Keyed ∧
      ∀ label ∈ body.labels, label.data.SameUpToOrder label.data.tidied := by
  obtain ⟨found, index, s, body, hfound, hadd, hreached, himported, rfl⟩ := importProgram_ok h
  have hadds := CommentIndex.add_spec CommentIndex.keyed_empty hadd
  generalize hdata : (⟨0, raw.location? file, raw.range?, [], []⟩ : NodeData) = data
  have hmem : ∀ c ∈ Export.comments (Import.finish data s body), c ∈ found :=
    fun c hc => (List.mem_filter.mp ((hreached.exported_perm hadds).mem_iff.mp hc)).1
  -- the written comments go into an index with the same lines, each of them sorted
  obtain ⟨index₂, hadd₂⟩ : ∃ index₂, CommentIndex.empty.add
      (Export.comments (Import.finish data s body)) = (index₂, none) :=
    CommentIndex.add_eq_none_iff.mpr fun c hc =>
      CommentIndex.add_eq_none_iff.mp ⟨index, hadd⟩ c (hmem c hc)
  have hadds₂ := CommentIndex.add_spec CommentIndex.keyed_empty hadd₂
  have htidies : ImportState.Tidies ⟨1, index⟩ ⟨1, index₂⟩ := by
    refine ⟨rfl, fun line => ?_⟩
    show index₂.find line = (index.find line).mergeSort Export.precedes
    rw [show index₂.find line = _ from hadds₂.find line,
      show index.find line = _ from hadds.find line]
    exact hreached.docsOn_exported hadds line
  obtain ⟨hsame, t, hreached₂, htidies'⟩ := hreached.tidies htidies hadds.keyed
  rw [← Field.labels_mapData] at hreached₂
  refine ⟨data, s, t, body, rfl, ?_, htidies', hreached.keyed hadds.keyed,
    hreached₂.keyed hadds₂.keyed, hsame⟩
  have hloc : ∀ data : NodeData, data.tidied.loc = data.loc := fun _ => rfl
  have himported₂ : (body.mapData NodeData.tidied).Imported file .child :=
    (Field.imported_mapData hloc body).mpr himported.1
  have hheight₂ : (body.mapData NodeData.tidied).height ≤ Import.depthLimit := by
    rw [Field.height_mapData]
    exact himported.2
  have hlocated : ∀ loc, data.loc = some loc → loc.IsIn file := by
    rw [← hdata]
    exact fun _ => Import.location?_isIn
  rw [importProgram_back hlocated (fun c hc => Import.comments_isIn hfound c (hmem c hc)) hadd₂
    body.entryValues_tidied himported₂ hheight₂ hreached₂, ← hdata]

/-! ### The same program up to the order of comments -/

/-- The node without comments and directives. -/
def NodeData.uncommented (data : NodeData) : NodeData := { data with comments := [], directives := [] }

namespace Program

/-- The program without comments, directives and their index. -/
def uncommented (p : Program) : Program :=
  match p with
  | .mk data form fields => match form with
    | .program _ _ =>
      .mk data.uncommented (.program [] .empty) (fields.mapData NodeData.uncommented)

/-- The programs differ at most in the order of doc comments that end on the same
line, and in the order of directives that follows from it. -/
structure SameUpToOrder (p q : Program) : Prop where
  /-- Without comments they are the same. -/
  tree : p.uncommented = q.uncommented
  /-- The program itself carries the same, -/
  own : p.data = q.data
  comments : p.comments = q.comments
  /-- and every other node the same comments and directives, up to order. -/
  others : List.Forall₂ NodeData.SameUpToOrder p.allData.tail q.allData.tail
  /-- Under every tag the same nodes are listed. -/
  index : ∀ tag, p.nodesWithDirective tag = q.nodesWithDirective tag
  keys : p.directiveIndex.keys.Perm q.directiveIndex.keys

end Program

/-- Directives in another order are counted alike under every tag. -/
theorem NodeData.filter_tags_of_perm {data data' : NodeData} (hid : data.id = data'.id)
    (h : data.directives.Perm data'.directives) (tag : String) :
    (data.tags.filter (·.1 = tag)).map (·.2) = (data'.tags.filter (·.1 = tag)).map (·.2) := by
  have hreplicate : ∀ data : NodeData, (data.tags.filter (·.1 = tag)).map (·.2)
      = List.replicate (data.directives.filter (·.tag = tag)).length data.id := by
    intro data
    rw [tags, List.filter_map, List.map_map]
    exact List.map_const'
  rw [hreplicate, hreplicate, (h.filter _).length_eq, hid]

theorem NodeData.tags_perm {data data' : NodeData} (hid : data.id = data'.id)
    (h : data.directives.Perm data'.directives) : data.tags.Perm data'.tags := by
  rw [tags, tags, hid]
  exact h.map _

theorem NodeData.SameUpToOrder.directives_perm {data : NodeData}
    (h : data.SameUpToOrder data.tidied) : data.directives.Perm data.tidied.directives := by
  rw [h.directives.1]
  exact (tidy_perm data.comments).symm.flatMap_right _

namespace Import

variable (data : NodeData) (body : Field (.list false) .statement) {s t : ImportState}

theorem allData_finish (t : ImportState) :
    (finish data t body).allData.tail = body.labels.map (·.data) := by
  obtain ⟨own, hlabels, -, -⟩ := labels_finish data t body
  have hdata : (finish data t body).allData = (finish data t body).labels.map (·.data) := by
    rw [← Node.labels_eq, List.map_map]
    rfl
  rw [hdata, hlabels, List.map_cons, List.tail_cons]

theorem uncommented_finish (t : ImportState) : (finish data t body).uncommented
    = .mk data.uncommented (.program [] .empty)
        (.cons (body.mapData NodeData.uncommented) .nil) := rfl

theorem data_finish (t : ImportState) : (finish data t body).data
    = { data with
        directives := (t.comments.values.mergeSort CommentIndex.precedes).flatMap
          Comment.directives } := rfl

section tidied

variable (h : s.Tidies t) (hs : s.comments.Keyed) (ht : t.comments.Keyed)

include h hs ht

theorem data_tidied :
    (finish data s body).data = (finish data t (body.mapData NodeData.tidied)).data := by
  rw [data_finish, data_finish, h.rest hs ht]

variable (hsame : ∀ label ∈ body.labels, label.data.SameUpToOrder label.data.tidied)

include hsame

/-- Under every tag a tidied program has the same nodes. -/
theorem filter_tags_tidied (tag : String) :
    ((finish data s body).tags.filter (·.1 = tag)).map (·.2)
      = ((finish data t (body.mapData NodeData.tidied)).tags.filter (·.1 = tag)).map (·.2) := by
  rw [tags_finish, tags_finish, ← data_tidied data body h hs ht, Field.labels_mapData,
    List.flatMap_map, List.filter_append, List.filter_append, List.map_append, List.map_append,
    List.filter_flatMap, List.filter_flatMap, List.map_flatMap, List.map_flatMap]
  congr 1
  refine List.flatMap_congr fun label hlabel => ?_
  exact @NodeData.filter_tags_of_perm label.data label.data.tidied rfl
    (hsame label hlabel).directives_perm tag

theorem tags_tidied_perm :
    (finish data s body).tags.Perm (finish data t (body.mapData NodeData.tidied)).tags := by
  rw [tags_finish, tags_finish, ← data_tidied data body h hs ht, Field.labels_mapData,
    List.flatMap_map]
  refine List.Perm.append_right _ (List.Perm.flatMap_left _ fun label hlabel => ?_)
  exact @NodeData.tags_perm label.data label.data.tidied rfl (hsame label hlabel).directives_perm

end tidied

end Import

/-- The value of an imported program is a normal form: it is read back as a program
that is written as the same value, and that differs from the first at most in the
order of doc comments that end on the same line. -/
theorem importProgram_normalForm {raw : Json} {file : Option String} {p : Program}
    (h : importProgram raw file = .ok p) :
    ∃ q, importProgram p.toEstree file = .ok q ∧ q.toEstree = p.toEstree ∧ p.SameUpToOrder q := by
  obtain ⟨data, s, t, body, rfl, hback, htidies, hs, ht, hsame⟩ := importProgram_tidies h
  have hgather := importProgram_gathers h
  have hgather' := importProgram_gathers hback
  refine ⟨_, hback, Import.toEstree_tidied data body htidies hs ht, ?_, ?_, ?_, ?_, ?_, ?_⟩
  · rw [Import.uncommented_finish, Import.uncommented_finish, Field.mapData_mapData]
    rfl
  · exact Import.data_tidied data body htidies hs ht
  · exact (htidies.rest hs ht).symm
  · rw [Import.allData_finish, Import.allData_finish, Field.labels_mapData, List.map_map,
      List.forall₂_map_left_iff, List.forall₂_map_right_iff, List.forall₂_same]
    exact hsame
  · intro tag
    rw [Program.nodesWithDirective, Program.nodesWithDirective, hgather, hgather',
      OrderedMap.find_gather, OrderedMap.find_gather]
    exact Import.filter_tags_tidied data body htidies hs ht hsame tag
  · rw [hgather, hgather']
    exact OrderedMap.keys_gather_perm (Import.tags_tidied_perm data body htidies hs ht hsame)

/-- An empty statement under two doc comments of one line, the later one first. -/
def untidyStatement : Json :=
  let position (line column : Nat) : Json :=
    .object [("line", .nat line), ("column", .nat column)]
  let span (line start stop : Nat) : String × Json :=
    ("loc", .object [("start", position line start), ("end", position line stop)])
  let comment (start : Nat) (text : String) : Json :=
    .object [("type", .string "Block"), ("value", .string text), span 1 start (start + 9),
      ("range", .array [.nat start, .nat (start + 9)])]
  .object [("type", .string "Program"),
    ("body", .array [.object [("type", .string "EmptyStatement"), span 2 0 1]]),
    ("comments", .array [comment 20 "* @second \x7b\x7d", comment 0 "* @first \x7b\x7d"])]

theorem untidyStatement_normalForm :
    ∃ p, importProgram untidyStatement none = .ok p ∧
      p.allData.map (·.comments.map (·.value)) = [[], ["* @second \x7b\x7d", "* @first \x7b\x7d"]] ∧
      p.directiveIndex.keys = ["second", "first"] ∧
      ∃ q, importProgram p.toEstree none = .ok q ∧ q.toEstree = p.toEstree ∧ p.SameUpToOrder q := by
  have hfacts : (importProgram untidyStatement none).toOption.map (fun p =>
      (p.allData.map (·.comments.map (·.value)), p.directiveIndex.keys))
      = some ([[], ["* @second \x7b\x7d", "* @first \x7b\x7d"]], ["second", "first"]) := by
    decide +kernel
  obtain ⟨p, hp, hfacts⟩ := Option.map_eq_some_iff.mp hfacts
  rw [Prod.mk.injEq] at hfacts
  have himport := importProgram_of_toOption hp
  exact ⟨p, himport, hfacts.1, hfacts.2, importProgram_normalForm himport⟩

end EsFront
