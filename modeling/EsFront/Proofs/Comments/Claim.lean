/-
Who gets which comments.

A node that may carry comments claims the lines on which they may end: the one
it starts on and the one above (`Label.claims`). Reaching a node hands it the
comments of the lines it claims and leaves the others where they are. Over a
whole run, every line is emptied by the first node that claims it:

* `CommentIndex.claimFor_spec`, `ImportState.reach_spec` — one node;
* `Reached.find`, `Reached.gets`, `Reached.perm` — a whole run;
* `CommentIndex.add_spec` — where the run starts.
-/
import EsFront.Proofs.Collections.MultiMap
import EsFront.Proofs.Comments.Order
import EsFront.Proofs.Estree.Imported

namespace EsFront

/-- The line on which a node starts that may carry comments. -/
def Label.startLine? (label : Label) : Option UInt32 :=
  if label.kind.acceptsComments then label.data.loc.map (·.start.line) else none

/-- Whether comments that end on the line are for this node, unless an earlier
node gets them: it starts on that line or on the next. -/
def Label.claims (label : Label) (line : UInt32) : Bool :=
  label.startLine?.any fun start => start.toNat = line.toNat || start.toNat = line.toNat + 1

/-- The comments for a node, when `share` has those that are left of a line:
first of the line above, then of its own. -/
def Label.gets (label : Label) (share : UInt32 → List Comment) : List Comment :=
  match label.startLine? with
  | some start => (if 0 < start then share (start - 1) else []) ++ share start
  | none => []

namespace CommentIndex

/-- Every comment stands under the line on which it ends. -/
def Keyed (index : CommentIndex) : Prop := index.byLine.Keyed Comment.endLine?

/-- The comments that are left of a line. -/
def find (index : CommentIndex) (line : UInt32) : List Comment := index.byLine.find line

/-- All comments that are left. -/
def values (index : CommentIndex) : List Comment := index.byLine.values

theorem Keyed.filter_values {index : CommentIndex} (h : index.Keyed) (line : UInt32) :
    index.values.filter (·.endLine? = some line) = index.find line :=
  MultiMap.Keyed.filter_values h line

theorem keyed_empty : empty.Keyed := MultiMap.keyed_empty

theorem Keyed.endLine?_of_mem {index : CommentIndex} (h : index.Keyed) {line : UInt32} {c : Comment}
    (hc : c ∈ index.find line) : c.endLine? = some line := by
  rw [← h.filter_values] at hc
  exact of_decide_eq_true (List.mem_filter.mp hc).2

/-! ### Claiming -/

theorem sub_one_eq_iff {start line : UInt32} (h : 0 < start) :
    start - 1 = line ↔ start.toNat = line.toNat + 1 := by
  have hone : (1 : UInt32) ≤ start := by
    rw [UInt32.le_iff_toNat_le]
    exact UInt32.lt_iff_toNat_lt.mp h
  rw [← UInt32.toNat_inj, UInt32.toNat_sub_of_le _ _ hone]
  have hpos : 0 < start.toNat := UInt32.lt_iff_toNat_lt.mp h
  change start.toNat - 1 = line.toNat ↔ _
  omega

theorem claim_of_pos (index : CommentIndex) {start : UInt32} (h : 0 < start) :
    index.claim start
      = (index.byLine.find (start - 1) ++ (index.byLine.erase (start - 1)).find start,
        ⟨(index.byLine.erase (start - 1)).erase start, index.directives⟩) := by
  rw [claim, if_pos h]
  rfl

theorem claim_of_not_pos (index : CommentIndex) {start : UInt32} (h : ¬ 0 < start) :
    index.claim start
      = (index.byLine.find start, ⟨index.byLine.erase start, index.directives⟩) := by
  rw [claim, if_neg h]
  rfl

/-- A node takes the lines it claims, and no others. -/
theorem find_claim (index : CommentIndex) (start line : UInt32) :
    (index.claim start).2.find line
      = if start.toNat = line.toNat ∨ start.toNat = line.toNat + 1 then [] else index.find line := by
  by_cases hpos : 0 < start
  · rw [claim_of_pos index hpos, find, MultiMap.find_erase, MultiMap.find_erase]
    by_cases hsame : start = line
    · rw [if_pos hsame, if_pos (.inl (congrArg _ hsame))]
    · rw [if_neg hsame]
      by_cases habove : start - 1 = line
      · rw [if_pos habove, if_pos (.inr ((sub_one_eq_iff hpos).mp habove))]
      · rw [if_neg habove, if_neg, find]
        rintro (h | h)
        · exact hsame (UInt32.toNat_inj.mp h)
        · exact habove ((sub_one_eq_iff hpos).mpr h)
  · have hzero : start.toNat = 0 := by
      rw [UInt32.lt_iff_toNat_lt] at hpos
      exact Nat.eq_zero_of_not_pos hpos
    rw [claim_of_not_pos index hpos, find, MultiMap.find_erase]
    by_cases hsame : start = line
    · rw [if_pos hsame, if_pos (.inl (congrArg _ hsame))]
    · rw [if_neg hsame, if_neg, find]
      rintro (h | h)
      · exact hsame (UInt32.toNat_inj.mp h)
      · omega

theorem claim_fst (index : CommentIndex) (start : UInt32) :
    (index.claim start).1
      = (if 0 < start then index.find (start - 1) else []) ++ index.find start := by
  by_cases hpos : 0 < start
  · have hne : start - 1 ≠ start := by
      intro h
      have := (sub_one_eq_iff hpos).mp h
      omega
    rw [claim_of_pos index hpos, MultiMap.find_erase, if_neg hne, if_pos hpos]
    rfl
  · rw [claim_of_not_pos index hpos, if_neg hpos]
    rfl

theorem Keyed.claim {index : CommentIndex} (h : index.Keyed) (start : UInt32) :
    (index.claim start).2.Keyed := by
  by_cases hpos : 0 < start
  · rw [claim_of_pos index hpos]
    exact (MultiMap.Keyed.erase h (start - 1)).erase start
  · rw [claim_of_not_pos index hpos]
    exact MultiMap.Keyed.erase h start

/-- What a line has and what the others have are all values. -/
theorem take_perm {map : MultiMap UInt32 Comment} (h : map.Keyed Comment.endLine?) (line : UInt32) :
    (map.find line ++ (map.erase line).values).Perm map.values := by
  have hparts :=
    List.filter_append_perm (fun c : Comment => decide (c.endLine? = some line)) map.values
  rw [h.filter_values] at hparts
  rw [h.values_erase]
  simpa only [ne_eq, decide_not] using hparts

theorem claim_perm {index : CommentIndex} (h : index.Keyed) (start : UInt32) :
    ((index.claim start).1 ++ (index.claim start).2.values).Perm index.values := by
  by_cases hpos : 0 < start
  · rw [claim_of_pos index hpos, List.append_assoc]
    have habove := take_perm h (start - 1)
    have hsame := take_perm (MultiMap.Keyed.erase h (start - 1)) start
    exact (hsame.append_left _).trans habove
  · rw [claim_of_not_pos index hpos]
    exact take_perm h start

/-- What a node claims depends only on the line it starts on. -/
theorem claimFor_eq (index : CommentIndex) (label : Label) :
    index.claimFor label.kind label.data.loc = match label.startLine? with
      | some start => index.claim start
      | none => ([], index) := by
  rw [Label.startLine?]
  cases label.data.loc with
  | none => cases label.kind.acceptsComments <;> rfl
  | some loc =>
    rw [claimFor]
    cases label.kind.acceptsComments <;> rfl

section claimFor

variable (index : CommentIndex) (label : Label)

theorem claimFor_fst : (index.claimFor label.kind label.data.loc).1 = label.gets index.find := by
  rw [claimFor_eq, Label.gets]
  cases label.startLine? with
  | none => rfl
  | some start => exact claim_fst index start

theorem find_claimFor (line : UInt32) :
    (index.claimFor label.kind label.data.loc).2.find line
      = if label.claims line then [] else index.find line := by
  rw [claimFor_eq, Label.claims]
  cases label.startLine? with
  | none => rfl
  | some start =>
    simp only [Option.any_some, Bool.or_eq_true, decide_eq_true_eq]
    exact find_claim index start line

theorem directives_claimFor :
    (index.claimFor label.kind label.data.loc).2.directives = index.directives := by
  rw [claimFor_eq]
  cases label.startLine? <;> rfl

variable {index}

theorem Keyed.claimFor (h : index.Keyed) :
    (index.claimFor label.kind label.data.loc).2.Keyed := by
  rw [claimFor_eq]
  cases label.startLine? with
  | none => exact h
  | some start => exact h.claim start

theorem claimFor_perm (h : index.Keyed) :
    ((index.claimFor label.kind label.data.loc).1
      ++ (index.claimFor label.kind label.data.loc).2.values).Perm index.values := by
  rw [claimFor_eq]
  cases label.startLine? with
  | none => exact List.Perm.refl _
  | some start => exact claim_perm h start

end claimFor

end CommentIndex

/-! ### Putting comments in -/

/-- The doc comments that end on a line. -/
def docsOn (found : List Comment) (line : UInt32) : List Comment :=
  found.filter fun c => c.isDoc && c.endLine? = some line

namespace CommentIndex

/-- The doc comments of a list are in the index, each after those that were
there before. -/
structure Adds (index : CommentIndex) (found : List Comment) (index' : CommentIndex) : Prop where
  keyed : index'.Keyed
  directives : index'.directives = index.directives
  find : ∀ line, index'.find line = index.find line ++ docsOn found line
  perm : index'.values.Perm (index.values ++ found.filter Comment.isDoc)

/-- One comment is put into the index. -/
theorem addOne_spec {index next : CommentIndex} {comment : Comment} (hkeyed : index.Keyed)
    (h : index.addOne comment = .ok next) : index.Adds [comment] next := by
  rw [addOne] at h
  cases hdoc : comment.isDoc with
  | false =>
    rw [hdoc] at h
    cases h
    refine ⟨hkeyed, rfl, fun line => ?_, ?_⟩
    · rw [docsOn, List.filter_cons_of_neg (by rw [hdoc]; exact Bool.false_ne_true),
        List.filter_nil, List.append_nil]
    · rw [List.filter_cons_of_neg (by rw [hdoc]; exact Bool.false_ne_true), List.filter_nil,
        List.append_nil]
  | true =>
    rw [hdoc, if_pos rfl] at h
    cases hline : comment.endLine? with
    | none =>
      rw [hline] at h
      cases h
    | some line =>
      rw [hline] at h
      cases h
      refine ⟨MultiMap.Keyed.insert hkeyed hline, rfl, fun other => ?_, ?_⟩
      · rw [find, MultiMap.find_insert, docsOn, List.filter_cons, List.filter_nil, hdoc, hline]
        simp only [Bool.true_and, Option.some.injEq, decide_eq_true_eq]
        rfl
      · rw [List.filter_cons_of_pos hdoc, List.filter_nil]
        exact MultiMap.values_insert_perm _ _ _

theorem add_spec {index' : CommentIndex} : ∀ {found : List Comment} {index : CommentIndex},
    index.Keyed → index.add found = (index', none) → index.Adds found index' := by
  intro found
  induction found with
  | nil =>
    intro index hkeyed h
    cases h
    refine ⟨hkeyed, rfl, fun line => ?_, ?_⟩
    · rw [docsOn, List.filter_nil, List.append_nil]
    · rw [List.filter_nil, List.append_nil]
  | cons comment rest ih =>
    intro index hkeyed h
    rw [add] at h
    split at h
    · rename_i next hnext
      have hfirst := addOne_spec hkeyed hnext
      have hrest := ih hfirst.keyed h
      refine ⟨hrest.keyed, hrest.directives.trans hfirst.directives, fun line => ?_, ?_⟩
      · rw [hrest.find, hfirst.find, List.append_assoc, docsOn, docsOn, docsOn,
          ← List.filter_append]
        rfl
      · refine hrest.perm.trans ?_
        have := hfirst.perm.append_right (rest.filter Comment.isDoc)
        rw [List.append_assoc, ← List.filter_append] at this
        exact this
    · cases h

/-- Comments can be put into the index exactly when all doc comments have a
line. -/
theorem add_eq_none_iff : ∀ {found : List Comment} {index : CommentIndex},
    (∃ index', index.add found = (index', none)) ↔
      ∀ c ∈ found, c.isDoc → c.endLine?.isSome := by
  intro found
  induction found with
  | nil =>
    intro index
    exact ⟨fun _ c hc => absurd hc List.not_mem_nil, fun _ => ⟨index, rfl⟩⟩
  | cons comment rest ih =>
    intro index
    rw [List.forall_mem_cons, add, addOne]
    cases hdoc : comment.isDoc with
    | false =>
      rw [if_neg Bool.false_ne_true]
      exact (ih).trans ⟨fun h => ⟨fun hfalse => absurd hfalse Bool.false_ne_true, h⟩, fun h => h.2⟩
    | true =>
      rw [if_pos rfl]
      cases hline : comment.endLine? with
      | none =>
        refine ⟨fun ⟨index', h⟩ => ?_, fun h => absurd (h.1 rfl) Bool.false_ne_true⟩
        cases h
      | some line => exact (ih).trans ⟨fun h => ⟨fun _ => rfl, h⟩, fun h => h.2⟩

end CommentIndex

/-! ### One node -/

namespace ImportState

/-- What happens when a node is reached: it gets what is left of the lines it
claims, these lines are emptied, and nothing is lost. -/
structure Reaches (s : ImportState) (label : Label) (t : ImportState) : Prop where
  gets : label.data.comments = label.gets s.comments.find
  find : ∀ line, t.comments.find line
    = if label.claims line then [] else s.comments.find line
  keyed : t.comments.Keyed
  perm : (label.data.comments ++ t.comments.values).Perm s.comments.values

theorem reach_spec {label : Label} {s t : ImportState} (hkeyed : s.comments.Keyed)
    (h : s.reach label.kind label.data.loc label.data.range = (label.data, t)) :
    Reaches s label t := by
  rw [reach, Prod.mk.injEq] at h
  have hcomments : label.data.comments = (s.comments.claimFor label.kind label.data.loc).1 :=
    congrArg NodeData.comments h.1.symm
  have hlines : t.comments.byLine = (s.comments.claimFor label.kind label.data.loc).2.byLine :=
    congrArg (fun state : ImportState => state.comments.byLine) h.2.symm
  refine ⟨?_, ?_, ?_, ?_⟩
  · rw [hcomments, CommentIndex.claimFor_fst]
  · intro line
    rw [CommentIndex.find, hlines]
    exact CommentIndex.find_claimFor s.comments label line
  · rw [CommentIndex.Keyed, hlines]
    exact hkeyed.claimFor label
  · rw [hcomments, CommentIndex.values, hlines]
    exact CommentIndex.claimFor_perm label hkeyed

end ImportState

/-! ### A run -/

namespace Reached

variable {s s' : ImportState} {labels : List Label}

/-- A line that is emptied twice is emptied. -/
theorem emptied_or (first rest : Bool) (found : List Comment) :
    (if rest then [] else if first then [] else found) = if first || rest then [] else found := by
  cases first <;> cases rest <;> rfl

theorem keyed (h : Reached s labels s') (hkeyed : s.comments.Keyed) : s'.comments.Keyed := by
  induction h with
  | nil => exact hkeyed
  | cons hfirst _ ih => exact ih (ImportState.reach_spec hkeyed hfirst).keyed

/-- The lines that some node claims are empty after a run, and the others are
as they were. -/
theorem find (h : Reached s labels s') (hkeyed : s.comments.Keyed) (line : UInt32) :
    s'.comments.find line
      = if labels.any (·.claims line) then [] else s.comments.find line := by
  induction h with
  | nil => rfl
  | cons hfirst _ ih =>
    have hspec := ImportState.reach_spec hkeyed hfirst
    rw [ih hspec.keyed, hspec.find, List.any_cons, emptied_or]

/-- Nothing is lost, and nothing is given out twice. -/
theorem perm (h : Reached s labels s') (hkeyed : s.comments.Keyed) :
    (labels.flatMap (·.data.comments) ++ s'.comments.values).Perm s.comments.values := by
  induction h with
  | nil => exact List.Perm.refl _
  | cons hfirst _ ih =>
    have hspec := ImportState.reach_spec hkeyed hfirst
    rw [List.flatMap_cons, List.append_assoc]
    exact ((ih hspec.keyed).append_left _).trans hspec.perm

/-- Each node gets what the nodes before it have left of the lines it claims. -/
theorem gets (h : Reached s labels s') (hkeyed : s.comments.Keyed) {i : Nat} {label : Label}
    (hi : labels[i]? = some label) :
    label.data.comments = label.gets fun line =>
      if (labels.take i).any (·.claims line) then [] else s.comments.find line := by
  induction h generalizing i with
  | nil => cases hi
  | cons hfirst _ ih =>
    have hspec := ImportState.reach_spec hkeyed hfirst
    cases i with
    | zero =>
      cases hi
      exact hspec.gets
    | succ i =>
      rw [ih hspec.keyed hi]
      congr 1
      funext line
      rw [hspec.find, List.take_succ_cons, List.any_cons, emptied_or]

end Reached

end EsFront
