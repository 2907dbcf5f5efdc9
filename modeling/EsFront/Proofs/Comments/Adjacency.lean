/-
Where the comments of a node end.

A comment is at a node because of the line on which it ends: the one on which
the node starts, or the one above. Columns play no part. So a comment ends in
front of its node unless it stands on the same line and behind the start of
the node (`SourceLocation.Trails`). Main statement:
`importProgram_comments_adjacent`.
-/
import EsFront.Proofs.Comments.Partition

namespace EsFront

theorem Position.isLE_cmp_iff (a b : Position) :
    (a.cmp b).isLE = true ↔ a.line < b.line ∨ a.line = b.line ∧ a.column ≤ b.column := by
  rw [cmp]
  cases hline : compare a.line b.line with
  | lt =>
    have hlt : a.line < b.line := Std.compare_eq_lt.mp hline
    exact ⟨fun _ => .inl hlt, fun _ => rfl⟩
  | eq =>
    have heq : a.line = b.line := Std.LawfulEqCmp.eq_of_compare hline
    rw [Ordering.eq_then, Std.LawfulOrderOrd.isLE_compare, heq]
    constructor
    · exact fun hle => .inr ⟨rfl, hle⟩
    · rintro (hlt | ⟨-, hle⟩)
      · exact absurd hlt (UInt32.lt_irrefl _)
      · exact hle
  | gt =>
    have hgt : b.line < a.line := Std.compare_eq_gt.mp hline
    constructor
    · exact fun h => Bool.noConfusion h
    · rintro (hlt | ⟨heq, -⟩)
      · exact absurd hlt (UInt32.lt_asymm hgt)
      · rw [heq] at hgt
        exact absurd hgt (UInt32.lt_irrefl _)

namespace SourceLocation

/-- Whether a span ends on the line on which a place starts, and behind its
start. -/
def Trails (span place : SourceLocation) : Prop :=
  span.stop.line = place.start.line ∧ place.start.column < span.stop.column

/-- Whether a span ends on the line on which a place starts, or on the one
above. -/
def Adjoins (span place : SourceLocation) : Prop :=
  place.start.line.toNat = span.stop.line.toNat ∨
    place.start.line.toNat = span.stop.line.toNat + 1

/-- A span that ends on the line of a place, or on the one above, ends in front
of it or trails it. -/
theorem Adjoins.isLE_iff {span place : SourceLocation} (h : span.Adjoins place) :
    (span.stop.cmp place.start).isLE = true ↔ ¬ span.Trails place := by
  rw [Position.isLE_cmp_iff, Trails]
  rcases h with hsame | habove
  · have hline : span.stop.line = place.start.line := (UInt32.toNat_inj.mp hsame).symm
    rw [hline]
    have hirrefl : ¬ place.start.line < place.start.line := UInt32.lt_irrefl _
    simp only [hirrefl, false_or, true_and, UInt32.not_lt]
  · have hlt : span.stop.line < place.start.line := by
      rw [UInt32.lt_iff_toNat_lt, habove]
      exact Nat.lt_succ_self _
    have hne : span.stop.line ≠ place.start.line := UInt32.ne_of_lt hlt
    simp only [hlt, true_or, hne, false_and, not_false_eq_true]

end SourceLocation

/-- A line that a node claims is the one it starts on or the one above. -/
theorem Label.adjoins_of_claims {label : Label} {span : SourceLocation}
    (h : label.claims span.stop.line = true) :
    ∃ place, label.data.loc = some place ∧ span.Adjoins place := by
  rw [claims, Option.any_eq_true] at h
  obtain ⟨start, hstart, hline⟩ := h
  rw [startLine?] at hstart
  split at hstart
  · obtain ⟨place, hplace, rfl⟩ := Option.map_eq_some_iff.mp hstart
    rw [Bool.or_eq_true, decide_eq_true_eq, decide_eq_true_eq] at hline
    exact ⟨place, hplace, hline⟩
  · cases hstart

/-- Each comment of a node ends on the line on which the node starts or on the
one above, and it ends no later than the node starts, except exactly where it
stands on the same line behind that start. -/
theorem importProgram_comments_adjacent {raw : Json} {file : Option String} {p : Program}
    (h : importProgram raw file = .ok p) {any : AnyNode} (hany : any ∈ p.nodes) {c : Comment}
    (hc : c ∈ any.node.data.comments) :
    ∃ span place, c.loc = some span ∧ any.node.data.loc = some place ∧ span.Adjoins place ∧
      ((span.stop.cmp place.start).isLE = true ↔ ¬ span.Trails place) := by
  obtain ⟨found, index, t', body, -, hadd, hreached, -, rfl⟩ := importProgram_ok h
  have hkeyed : index.Keyed := (CommentIndex.add_spec CommentIndex.keyed_empty hadd).keyed
  obtain ⟨own, hlabels, -, hown⟩ := Import.labels_finish
    ⟨0, raw.location? file, raw.range?, [], []⟩ t' body
  have hlabel : any.label ∈ own :: body.labels := by
    rw [← hlabels, ← Node.labels_eq]
    exact List.mem_map_of_mem hany
  rcases List.mem_cons.mp hlabel with hfirst | hrest
  · -- the program itself has no comments of this kind
    have hnone : any.node.data.comments = [] := by
      rw [show any.node.data = own.data from congrArg Label.data hfirst, hown]
    rw [hnone] at hc
    exact absurd hc List.not_mem_nil
  · obtain ⟨line, hline, hclaims⟩ := hreached.claims_of_mem hkeyed hrest hc
    obtain ⟨span, hspan, rfl⟩ := Option.map_eq_some_iff.mp hline
    obtain ⟨place, hplace, hadjoins⟩ := Label.adjoins_of_claims hclaims
    exact ⟨span, place, hspan, hplace, hadjoins, hadjoins.isLE_iff⟩

/-- An empty statement with a comment behind it on the same line. -/
def trailedStatement : Json :=
  let span (start stop : Nat) : String × Json :=
    ("loc", .object [("start", .object [("line", .nat 2), ("column", .nat start)]),
      ("end", .object [("line", .nat 2), ("column", .nat stop)])])
  .object [("type", .string "Program"),
    ("body", .array [.object [("type", .string "EmptyStatement"), span 0 1]]),
    ("comments", .array [.object [("type", .string "Block"), ("value", .string "* after "),
      span 2 14]])]

/-- The comment behind the statement is at the statement. -/
theorem trailedStatement_adjacent :
    ∃ p any c, importProgram trailedStatement none = .ok p ∧ any ∈ p.nodes ∧
      c ∈ any.node.data.comments ∧
      ∃ span place, c.loc = some span ∧ any.node.data.loc = some place ∧ span.Adjoins place ∧
        ((span.stop.cmp place.start).isLE = true ↔ ¬ span.Trails place) := by
  have hok : (importProgram trailedStatement none).toOption.any
      (fun p => p.nodes.any fun any => !any.node.data.comments.isEmpty) = true := by
    decide +kernel
  obtain ⟨p, hp, hcommented⟩ := (Option.any_eq_true _ _).mp hok
  have himport := importProgram_of_toOption hp
  obtain ⟨any, hany, hsome⟩ := List.any_eq_true.mp hcommented
  obtain ⟨c, hc⟩ : ∃ c, c ∈ any.node.data.comments := by
    rw [Bool.not_eq_true', List.isEmpty_eq_false_iff] at hsome
    exact List.exists_mem_of_ne_nil _ hsome
  exact ⟨p, any, c, himport, hany, hc, importProgram_comments_adjacent himport hany hc⟩

/-- Not every comment of a node ends before the node starts. -/
theorem trailedStatement_trails :
    ∃ p any c span place, importProgram trailedStatement none = .ok p ∧ any ∈ p.nodes ∧
      c ∈ any.node.data.comments ∧ c.loc = some span ∧ any.node.data.loc = some place ∧
      (span.stop.cmp place.start).isLE = false := by
  have hok : (importProgram trailedStatement none).toOption.any (fun p =>
      p.nodes.any fun any => any.node.data.comments.any fun c =>
        c.loc.any fun span => any.node.data.loc.any fun place =>
          (span.stop.cmp place.start).isLE = false) = true := by
    decide +kernel
  obtain ⟨p, hp, hcommented⟩ := (Option.any_eq_true _ _).mp hok
  obtain ⟨any, hany, hsome⟩ := List.any_eq_true.mp hcommented
  obtain ⟨c, hc, hlate⟩ := List.any_eq_true.mp hsome
  obtain ⟨span, hspan, hlate⟩ := (Option.any_eq_true _ _).mp hlate
  obtain ⟨place, hplace, hlate⟩ := (Option.any_eq_true _ _).mp hlate
  exact ⟨p, any, c, span, place, importProgram_of_toOption hp, hany, hc, hspan, hplace,
    of_decide_eq_true hlate⟩

end EsFront
