/-
The comments that are left over.

Comments are put into the index and taken out again, in any order of calls. What is
left comes out sorted. The index lists its lines in some order, which is no part of what
it means; main statement: whatever that order is, the same list comes out, namely the
stable sorting of the comments that were put in and not taken, in the order in which they
were put in (`takeRest_after`).

The index is compared with a plain list of comments (`CommentIndex.Holds`): each call does
to the index what it does to the list (`Holds.perform`), and a permutation of the lines
changes nothing (`Holds.perm`). Comments that tie end on the same line, so their order in
the sorted list is that of one line.
-/
import EsFront.Proofs.Comments.SortKey
import EsFront.Proofs.Estree.RoundTrip

namespace EsFront

/-! ### The plain list -/

namespace Comment

/-- Whether a node that starts on the line takes the comment: it ends there or on the line
above. -/
def isFor (line : UInt32) (c : Comment) : Bool :=
  c.endLine?.any fun stop => line.toNat = stop.toNat || line.toNat = stop.toNat + 1

/-- Whether the comment stops the adding of comments: a doc comment without a line. -/
def isUnplaced (c : Comment) : Bool := c.isDoc && c.endLine?.isNone

end Comment

/-- The doc comments that are put into the index: those in front of the first without a
line. -/
def indexable (found : List Comment) : List Comment :=
  (found.takeWhile (!·.isUnplaced)).filter Comment.isDoc

/-- A call on the index: comments are added, or a node that starts on a line takes its
own. -/
inductive IndexCall where
  | add (found : List Comment)
  | claim (line : UInt32)
deriving DecidableEq, Repr

/-- What a call leaves of the comments in the list. -/
def IndexCall.update (left : List Comment) : IndexCall → List Comment
  | add found => left ++ indexable found
  | claim line => left.filter (!·.isFor line)

/-- The comments that were put in and not taken, in the order in which they were put in. -/
def pending (calls : List IndexCall) : List Comment := calls.foldl IndexCall.update []

namespace CommentIndex

/-- The index after a call. -/
def perform (index : CommentIndex) : IndexCall → CommentIndex
  | .add found => (index.add found).1
  | .claim line => (index.claim line).2

/-- The index after some calls, if it was empty before them. -/
def after (calls : List IndexCall) : CommentIndex := calls.foldl perform empty

/-- The index with its lines listed in another order. -/
def relisted (index : CommentIndex) (groups : List (UInt32 × List Comment)) : CommentIndex :=
  { index with byLine := ⟨groups⟩ }

/-! ### Adding -/

/-- Comments behind one that stops the adding do not matter. -/
theorem add_takeWhile (found : List Comment) (index : CommentIndex) :
    (index.add found).1 = (index.add (found.takeWhile (!·.isUnplaced))).1 := by
  induction found generalizing index with
  | nil => rfl
  | cons c found ih =>
    rw [add, addOne, List.takeWhile_cons, Comment.isUnplaced]
    cases hdoc : c.isDoc with
    | false => simp [add, addOne, hdoc, ih]
    | true =>
      cases hline : c.endLine? with
      | none => simp [add]
      | some line => simp [add, addOne, hdoc, hline, ih]

/-- A doc comment in front of all that stop the adding has a line. -/
theorem isSome_of_mem_takeWhile {found : List Comment} {c : Comment}
    (hc : c ∈ found.takeWhile (!·.isUnplaced)) (hdoc : c.isDoc) : c.endLine?.isSome := by
  have hplaced := List.all_eq_true.mp List.all_takeWhile c hc
  simpa [Comment.isUnplaced, hdoc, Option.isSome_iff_ne_none] using hplaced

/-- The comments that are put in are added one after the other. -/
theorem adds_indexable {index : CommentIndex} (h : index.Keyed) (found : List Comment) :
    index.Adds (found.takeWhile (!·.isUnplaced)) (index.add found).1 := by
  obtain ⟨index', hadd⟩ : ∃ index', index.add (found.takeWhile (!·.isUnplaced)) = (index', none) :=
    add_eq_none_iff.mpr fun _ => isSome_of_mem_takeWhile
  have hindex : (index.add found).1 = index' := by
    rw [add_takeWhile, hadd]
  rw [hindex]
  exact add_spec h hadd

/-! ### The index and the list -/

/-- The index holds the comments of the list: line by line they are the same, in the same
order. -/
structure Holds (index : CommentIndex) (left : List Comment) : Prop where
  keyed : index.Keyed
  placed : ∀ c ∈ left, c.endLine?.isSome
  find : ∀ line, index.find line = left.filter (·.endLine? = some line)

theorem holds_empty : empty.Holds [] where
  keyed := keyed_empty
  placed := fun _ h => absurd h List.not_mem_nil
  find := fun _ => rfl

namespace Holds

variable {index : CommentIndex} {left : List Comment}

theorem add (h : index.Holds left) (found : List Comment) :
    (index.add found).1.Holds (left ++ indexable found) := by
  have hadds := adds_indexable h.keyed found
  refine ⟨hadds.keyed, ?_, ?_⟩
  · intro c hc
    rcases List.mem_append.mp hc with hleft | hnew
    · exact h.placed c hleft
    · obtain ⟨hmem, hdoc⟩ := List.mem_filter.mp hnew
      exact isSome_of_mem_takeWhile hmem hdoc
  · intro line
    rw [hadds.find, h.find, docsOn, List.filter_append, indexable, List.filter_filter]
    simp only [Bool.and_comm]

theorem claim (h : index.Holds left) (line : UInt32) :
    (index.claim line).2.Holds (left.filter (!·.isFor line)) := by
  refine ⟨h.keyed.claim line, fun c hc => h.placed c (List.mem_filter.mp hc).1, ?_⟩
  intro other
  rw [find_claim, h.find, List.filter_filter]
  -- on the lines that are taken no comment stays, and on the others all do
  by_cases htaken : line.toNat = other.toNat ∨ line.toNat = other.toNat + 1
  · rw [if_pos htaken, eq_comm, List.filter_eq_nil_iff]
    intro c _ hc
    simp only [Bool.and_eq_true, decide_eq_true_eq, Bool.not_eq_true'] at hc
    obtain ⟨hother, hstays⟩ := hc
    rw [Comment.isFor, hother] at hstays
    simp only [Option.any_some, Bool.or_eq_false_iff, decide_eq_false_iff_not] at hstays
    exact htaken.elim hstays.1 hstays.2
  · rw [if_neg htaken]
    refine List.filter_congr ?_
    intro c _
    by_cases hc : c.endLine? = some other
    · rw [not_or] at htaken
      simp [Comment.isFor, hc, htaken]
    · simp [hc]

/-- A call does the same to both. -/
theorem perform (h : index.Holds left) (call : IndexCall) :
    (index.perform call).Holds (call.update left) := by
  cases call with
  | add found => exact h.add found
  | claim line => exact h.claim line

/-- The order in which the lines are listed does not matter. -/
theorem perm (h : index.Holds left) {groups : List (UInt32 × List Comment)}
    (hperm : groups.Perm index.byLine.groups) : (index.relisted groups).Holds left where
  keyed := MultiMap.Keyed.perm h.keyed hperm
  placed := h.placed
  find := fun line => (MultiMap.Keyed.find_perm h.keyed hperm line).trans (h.find line)

/-- What is left is the stable sorting of the list. -/
theorem takeRest (h : index.Holds left) : index.takeRest.1 = left.mergeSort precedes := by
  refine mergeSort_eq_of_ties precedes_trans precedes_total ?_
  intro a
  rw [filter_ties_line h.placed, ← funext h.find]
  exact h.keyed.filter_ties a

theorem values_perm (h : index.Holds left) : index.values.Perm left := by
  have hsorted : (index.values.mergeSort precedes).Perm (left.mergeSort precedes) := by
    rw [← h.takeRest]
    exact .refl _
  exact (List.mergeSort_perm _ _).symm.trans (hsorted.trans (List.mergeSort_perm _ _))

/-- A node takes the comments that are for it. -/
theorem claim_perm (h : index.Holds left) (line : UInt32) :
    (index.claim line).1.Perm (left.filter (Comment.isFor line)) := by
  have hparts : ((index.claim line).1 ++ (index.claim line).2.values).Perm
      (left.filter (Comment.isFor line) ++ left.filter (!·.isFor line)) :=
    (CommentIndex.claim_perm h.keyed line).trans
      (h.values_perm.trans (List.filter_append_perm _ left).symm)
  have hrest := (h.claim line).values_perm
  exact (List.perm_append_right_iff _).mp (((hrest.append_left _).symm).trans hparts)

end Holds

/-- The index and the list agree after all calls. -/
theorem holds_after (calls : List IndexCall) : (after calls).Holds (pending calls) := by
  have hrun : ∀ (calls : List IndexCall) (index : CommentIndex) (left : List Comment),
      index.Holds left → (calls.foldl CommentIndex.perform index).Holds
        (calls.foldl IndexCall.update left) := by
    intro calls
    induction calls with
    | nil => exact fun _ _ h => h
    | cons call calls ih => exact fun index left h => ih _ _ (h.perform call)
  exact hrun calls empty [] holds_empty

end CommentIndex

/-- After any calls, what is left comes out the same however the lines are listed: the
comments that were put in and not taken, sorted by span and range, and those with the same
span and range in the order in which they were put in. What a node takes are the comments
that are for it. -/
theorem takeRest_after (calls : List IndexCall) :
    (∀ groups, groups.Perm (CommentIndex.after calls).byLine.groups →
      ((CommentIndex.after calls).relisted groups).takeRest.1
        = (CommentIndex.after calls).takeRest.1) ∧
    (CommentIndex.after calls).takeRest.1.Perm (pending calls) ∧
    (CommentIndex.after calls).takeRest.1.Pairwise (·.sortKey ≤ ·.sortKey) ∧
    (∀ key, (CommentIndex.after calls).takeRest.1.filter (·.sortKey = key)
      = (pending calls).filter (·.sortKey = key)) ∧
    ∀ line, ((CommentIndex.after calls).claim line).1.Perm
      ((pending calls).filter (Comment.isFor line)) := by
  have hholds := CommentIndex.holds_after calls
  refine ⟨?_, ?_, ?_, ?_, hholds.claim_perm⟩
  · intro groups hperm
    rw [(hholds.perm hperm).takeRest, hholds.takeRest]
  · rw [hholds.takeRest]
    exact List.mergeSort_perm _ _
  · rw [hholds.takeRest]
    exact CommentIndex.pairwise_sortKey _
  · intro key
    rw [hholds.takeRest]
    refine filter_mergeSort CommentIndex.precedes_trans CommentIndex.precedes_total ?_
    -- comments with one key may stand in any order
    refine List.pairwise_of_forall_mem_list ?_
    intro a ha b hb
    have hkeys : a.sortKey = b.sortKey :=
      (of_decide_eq_true (List.mem_filter.mp ha).2).trans
        (of_decide_eq_true (List.mem_filter.mp hb).2).symm
    have hties := CommentIndex.ties_iff_sortKey.mpr hkeys
    rw [ties, Bool.and_eq_true] at hties
    exact hties.1

end EsFront
