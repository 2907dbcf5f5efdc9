/-
The doc comments of an imported program.

An import reads the comments of a program item by item and keeps all doc
comments and no others: each is at one node, or with the program. All comments
that end on a line go to the first node, in pre-order, that may carry comments
and starts on that line or the next (`Program.claimant?`); the program keeps
those of the lines that no node claims. Main statement:
`importProgram_distributes`.
-/
import EsFront.Proofs.Comments.Claim
import EsFront.Proofs.Comments.Reading
import EsFront.Proofs.Comments.SortKey

namespace EsFront

/-- The place in pre-order of the node that gets the comments of a line: the
first that may carry comments and starts on that line or the next. -/
def Program.claimant? (p : Program) (line : UInt32) : Option Nat :=
  p.nodes.findIdx? (·.label.claims line)

/-- The doc comments among `found` are distributed over the nodes of the
program and the program itself. -/
structure Program.Distributes (p : Program) (found : List Comment) : Prop where
  /-- Nothing is lost, and nothing is kept twice. -/
  perm : (p.nodes.flatMap (·.node.data.comments) ++ p.comments).Perm (found.filter Comment.isDoc)
  /-- Other comments are nowhere. -/
  docs : ∀ c ∈ p.nodes.flatMap (·.node.data.comments) ++ p.comments, c.isDoc
  /-- A node has the comments of the line above its own, and then those of its
  own line, as far as it is the one that gets them. -/
  nodes : ∀ (i : Nat) (any : AnyNode), p.nodes[i]? = some any →
    any.node.data.comments
      = any.label.gets fun line => if p.claimant? line = some i then docsOn found line else []
  /-- The program has the comments that no node gets, -/
  rest : p.comments.Perm
    (found.filter fun c => c.isDoc && c.endLine?.all fun line => p.claimant? line = none)
  /-- in order of span and range. -/
  sorted : p.comments.Pairwise (·.sortKey ≤ ·.sortKey)

theorem Label.gets_congr {label : Label} {share share' : UInt32 → List Comment}
    (h : ∀ line, label.claims line → share line = share' line) :
    label.gets share = label.gets share' := by
  rw [gets, gets]
  cases hstart : label.startLine? with
  | none => rfl
  | some start =>
    have hsame : label.claims start := by
      rw [claims, hstart]
      simp
    dsimp only
    rw [h start hsame]
    congr 1
    by_cases hpos : 0 < start
    · rw [if_pos hpos, if_pos hpos]
      refine h (start - 1) ?_
      have habove := (CommentIndex.sub_one_eq_iff hpos).mp rfl
      rw [claims, hstart]
      simp [habove]
    · rw [if_neg hpos, if_neg hpos]

/-- What a node gets is of the lines it claims. -/
theorem Label.claims_of_mem_gets {label : Label} {share : UInt32 → List Comment} {c : Comment}
    (h : c ∈ label.gets share) : ∃ line, label.claims line ∧ c ∈ share line := by
  rw [gets] at h
  cases hstart : label.startLine? with
  | none =>
    rw [hstart] at h
    exact absurd h List.not_mem_nil
  | some start =>
    rw [hstart] at h
    rcases List.mem_append.mp h with habove | hsame
    · by_cases hpos : 0 < start
      · rw [if_pos hpos] at habove
        refine ⟨start - 1, ?_, habove⟩
        have := (CommentIndex.sub_one_eq_iff hpos).mp rfl
        rw [claims, hstart]
        simp [this]
      · rw [if_neg hpos] at habove
        exact absurd habove List.not_mem_nil
    · refine ⟨start, ?_, hsame⟩
      rw [claims, hstart]
      simp

/-- An entry with a property is the first such exactly when none before it is
one. -/
theorem findIdx?_eq_some_iff {α : Type} {p : α → Bool} {a : α} :
    ∀ {l : List α} {i : Nat}, l[i]? = some a → p a = true →
      (l.findIdx? p = some i ↔ (l.take i).any p = false) := by
  intro l
  induction l with
  | nil =>
    intro i hi
    cases hi
  | cons b l ih =>
    intro i hi ha
    rw [List.findIdx?_cons]
    cases i with
    | zero =>
      cases hi
      rw [ha]
      exact ⟨fun _ => rfl, fun _ => rfl⟩
    | succ i =>
      rw [List.take_succ_cons, List.any_cons]
      cases hb : p b with
      | true => simp
      | false =>
        rw [Bool.false_or, ← ih hi ha]
        simp

section run

variable {s s' : ImportState} {labels : List Label}

/-- Each node gets the comments of the lines that it is the first to claim. -/
theorem Reached.gets_first (h : Reached s labels s') (hkeyed : s.comments.Keyed) {i : Nat}
    {label : Label} (hi : labels[i]? = some label) :
    label.data.comments = label.gets fun line =>
      if labels.findIdx? (·.claims line) = some i then s.comments.find line else [] := by
  refine (h.gets hkeyed hi).trans (Label.gets_congr ?_)
  intro line hclaims
  have hfirst := findIdx?_eq_some_iff (p := (·.claims line)) hi hclaims
  cases hbefore : (labels.take i).any (·.claims line) with
  | true =>
    rw [if_pos rfl, if_neg]
    rw [hfirst, hbefore]
    exact Bool.noConfusion
  | false => rw [if_neg Bool.false_ne_true, if_pos (hfirst.mpr hbefore)]

/-- Every comment of a node is of a line that the node claims. -/
theorem Reached.claims_of_mem (h : Reached s labels s') (hkeyed : s.comments.Keyed)
    {label : Label} (hlabel : label ∈ labels) {c : Comment} (hc : c ∈ label.data.comments) :
    ∃ line, c.endLine? = some line ∧ label.claims line := by
  obtain ⟨i, hi⟩ := List.mem_iff_getElem?.mp hlabel
  rw [h.gets hkeyed hi] at hc
  obtain ⟨line, hclaims, hmem⟩ := Label.claims_of_mem_gets hc
  split at hmem
  · exact absurd hmem List.not_mem_nil
  · exact ⟨line, hkeyed.endLine?_of_mem hmem, hclaims⟩

/-- What is left of the comments are those of the lines that nobody claims. -/
theorem Reached.rest_perm (h : Reached s labels s') (hkeyed : s.comments.Keyed) :
    s'.comments.values.Perm (s.comments.values.filter fun c => c.endLine?.all fun line =>
      labels.findIdx? (·.claims line) = none) := by
  have hunclaimed : ∀ line, labels.findIdx? (·.claims line) = none
      ↔ ∀ label ∈ labels, ¬ label.claims line := by
    intro line
    rw [List.findIdx?_eq_none_iff]
    simp only [Bool.not_eq_true]
  have hparts := (h.perm hkeyed).filter fun c => c.endLine?.all fun line =>
    labels.findIdx? (·.claims line) = none
  rw [List.filter_append] at hparts
  -- no attached comment is of an unclaimed line, and every other one is
  have hattached : (labels.flatMap (·.data.comments)).filter (fun c => c.endLine?.all fun line =>
      labels.findIdx? (·.claims line) = none) = [] := by
    rw [List.filter_eq_nil_iff]
    intro c hc
    obtain ⟨label, hlabel, hmem⟩ := List.mem_flatMap.mp hc
    obtain ⟨line, hline, hclaims⟩ := h.claims_of_mem hkeyed hlabel hmem
    rw [hline, Option.all_some, decide_eq_true_eq, hunclaimed]
    exact fun hnone => hnone label hlabel hclaims
  have hleft : s'.comments.values.filter (fun c => c.endLine?.all fun line =>
      labels.findIdx? (·.claims line) = none) = s'.comments.values := by
    rw [List.filter_eq_self]
    intro c hc
    obtain ⟨line, hline, hmem⟩ := (h.keyed hkeyed).mem_find hc
    rw [hline, Option.all_some, decide_eq_true_eq, hunclaimed]
    intro label hlabel hclaims
    have hfind := h.find hkeyed line
    rw [if_pos (List.any_eq_true.mpr ⟨label, hlabel, hclaims⟩), CommentIndex.find] at hfind
    rw [hfind] at hmem
    exact List.not_mem_nil hmem
  rw [hattached, hleft, List.nil_append] at hparts
  exact hparts

end run

/-! ### Imported programs -/

namespace Import

variable (data : NodeData) (t : ImportState) (body : Field (.list false) .statement)

theorem comments_finish :
    (finish data t body).comments = t.comments.values.mergeSort CommentIndex.precedes := rfl

/-- The labels of a program are its own, which claims no line, and those of its
statements. -/
theorem labels_finish : ∃ own : Label, (finish data t body).labels = own :: body.labels ∧
    own.startLine? = none ∧ own.data.comments = data.comments := by
  refine ⟨⟨.program, (finish data t body).data⟩, ?_, rfl, rfl⟩
  rw [finish, Node.labels, Fields.labels, Fields.labels, List.append_nil]
  rfl

theorem claimant?_finish (line : UInt32) :
    (finish data t body).claimant? line
      = (body.labels.findIdx? (·.claims line)).map (· + 1) := by
  obtain ⟨own, hlabels, hstart, -⟩ := labels_finish data t body
  have hown : own.claims line = false := by
    rw [Label.claims, hstart]
    rfl
  have hmap : (finish data t body).claimant? line
      = (finish data t body).labels.findIdx? (·.claims line) := by
    rw [← Node.labels_eq, List.findIdx?_map]
    rfl
  rw [hmap, hlabels, List.findIdx?_cons, hown]
  rfl

/-- The comments of all nodes are those of the statements, if the program has
none of its own. -/
theorem attached_finish (h : data.comments = []) :
    (finish data t body).nodes.flatMap (·.node.data.comments)
      = body.labels.flatMap (·.data.comments) := by
  obtain ⟨own, hlabels, -, hown⟩ := labels_finish data t body
  have hmap : (finish data t body).nodes.flatMap (·.node.data.comments)
      = (finish data t body).labels.flatMap (·.data.comments) := by
    rw [← Node.labels_eq, List.flatMap_map]
    rfl
  rw [hmap, hlabels, List.flatMap_cons, hown, h, List.nil_append]

end Import

/-- The doc comments of an imported program are distributed over its nodes and
the program itself. -/
theorem importProgram_distributes {raw : Json} {file : Option String} {p : Program}
    (h : importProgram raw file = .ok p) :
    ∃ found, Import.comments file raw = .ok found ∧
      List.Forall₂ (Comment.ReadFrom file) raw.commentItems found ∧ p.Distributes found := by
  obtain ⟨found, index, t', body, hfound, hadd, hreached, -, rfl⟩ := importProgram_ok h
  refine ⟨found, hfound, Import.comments_eq_ok_iff.mp hfound, ?_⟩
  generalize hdata : (⟨0, raw.location? file, raw.range?, [], []⟩ : NodeData) = data
  have hnone : data.comments = [] := by
    rw [← hdata]
  have hadds := CommentIndex.add_spec CommentIndex.keyed_empty hadd
  have hkeyed : index.Keyed := hadds.keyed
  -- the index holds the doc comments, nodes take from it, and the program takes the rest
  have hdocs : index.values.Perm (found.filter Comment.isDoc) := hadds.perm
  have hsort : (t'.comments.values.mergeSort CommentIndex.precedes).Perm t'.comments.values :=
    List.mergeSort_perm _ _
  have hperm : ((Import.finish data t' body).nodes.flatMap (·.node.data.comments)
      ++ (Import.finish data t' body).comments).Perm (found.filter Comment.isDoc) := by
    rw [Import.attached_finish data t' body hnone, Import.comments_finish]
    exact ((hsort.append_left _).trans (hreached.perm hkeyed)).trans hdocs
  refine ⟨hperm, ?_, ?_, ?_, ?_⟩
  · intro c hc
    exact (List.mem_filter.mp (hperm.mem_iff.mp hc)).2
  · intro i any hany
    obtain ⟨own, hlabels, hstart, hown⟩ := Import.labels_finish data t' body
    have hi : (own :: body.labels)[i]? = some any.label := by
      rw [← hlabels, ← Node.labels_eq, List.getElem?_map, hany]
      rfl
    cases i with
    -- the program takes nothing while nodes are reached
    | zero =>
      cases hi
      rw [Label.gets, hstart]
      exact hown.trans hnone
    | succ i =>
      refine (hreached.gets_first hkeyed hi).trans ?_
      congr 1
      funext line
      rw [Import.claimant?_finish, show index.find line = docsOn found line from hadds.find line]
      simp only [Option.map_eq_some_iff, Nat.add_right_cancel_iff, exists_eq_right]
  · rw [Import.comments_finish]
    have hrest := (hsort.trans (hreached.rest_perm hkeyed)).trans (hdocs.filter _)
    simp only [Import.claimant?_finish, Option.map_eq_none_iff]
    rw [List.filter_filter] at hrest
    simpa only [Bool.and_comm] using hrest
  · rw [Import.comments_finish]
    exact CommentIndex.pairwise_sortKey _

/-- An empty statement with a comment on its own line, one above it, and one
further down. -/
def commentedStatement : Json :=
  let onLine (line : Nat) : String × Json :=
    ("loc", .object [("start", .object [("line", .nat line), ("column", .nat 0)]),
      ("end", .object [("line", .nat line), ("column", .nat 9)])])
  let comment (line : Nat) : Json :=
    .object [("type", .string "Block"), ("value", .string "* @tag \x7bparam\x7d"), onLine line]
  .object [("type", .string "Program"),
    ("body", .array [.object [("type", .string "EmptyStatement"), onLine 2]]),
    ("comments", .array [comment 2, comment 1, comment 7])]

theorem commentedStatement_distributes :
    ∃ p found, importProgram commentedStatement none = .ok p ∧
      Import.comments none commentedStatement = .ok found ∧
      List.Forall₂ (Comment.ReadFrom none) commentedStatement.commentItems found ∧
      p.Distributes found := by
  have hok : (importProgram commentedStatement none).toOption.isSome = true := by decide +kernel
  cases hp : importProgram commentedStatement none with
  | error e =>
    rw [hp] at hok
    cases hok
  | ok p =>
    obtain ⟨found, hfound, hdistributes⟩ := importProgram_distributes hp
    exact ⟨p, found, rfl, hfound, hdistributes⟩

end EsFront
