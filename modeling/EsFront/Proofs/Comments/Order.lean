/-
The two orders of comments, and sorting by them.

Comments are sorted twice: those that stay unattached by span and then range,
and all of them, when they are written, by range and then span. Both orders
are total and transitive but leave ties, so what comes out depends on what
goes in. Main statements:

* `mergeSort_eq_of_ties` — lists that agree on every class of ties are sorted
  to the same list;
* `filter_mergeSort` — a part of the list that stands in order keeps its
  order;
* `Export.ties_precedes` — the two orders have the same ties.
-/
import EsFront.Comments.Index
import EsFront.Estree.Export

namespace EsFront

/-! ### Stable sorting -/

section sorting

variable {α : Type} {le : α → α → Bool} {l l' : List α}

/-- Whether neither of two entries must stand before the other. -/
def ties (le : α → α → Bool) (a b : α) : Bool := le a b && le b a

/-- A part of the list that stands in order keeps its order. -/
theorem filter_mergeSort (trans : ∀ a b c, le a b → le b c → le a c)
    (total : ∀ a b, le a b || le b a) {part : α → Bool}
    (hpart : (l.filter part).Pairwise (le · ·)) :
    (l.mergeSort le).filter part = l.filter part := by
  have hsub : (l.filter part).Sublist (l.mergeSort le) :=
    List.sublist_mergeSort trans total hpart List.filter_sublist
  have hfilter : ((l.filter part).filter part).Sublist ((l.mergeSort le).filter part) :=
    hsub.filter part
  have hlength : (l.filter part).length = ((l.mergeSort le).filter part).length :=
    ((List.mergeSort_perm l le).filter part).length_eq.symm
  rw [List.filter_filter] at hfilter
  simp only [Bool.and_self] at hfilter
  exact (hfilter.eq_of_length hlength).symm

/-- A class of ties stands in order, however its entries are arranged. -/
theorem pairwise_filter_ties (trans : ∀ a b c, le a b → le b c → le a c) (a : α) :
    (l.filter (ties le a)).Pairwise (le · ·) := by
  refine List.pairwise_of_forall_mem_list ?_
  intro b hb c hc
  have hb' := (List.mem_filter.mp hb).2
  have hc' := (List.mem_filter.mp hc).2
  rw [ties, Bool.and_eq_true] at hb' hc'
  exact trans b a c hb'.2 hc'.1

/-- Sorted lists that agree on every class of ties are the same. -/
theorem eq_of_pairwise_of_ties (total : ∀ a b, le a b || le b a) :
    ∀ {l l' : List α}, l.Pairwise (le · ·) → l'.Pairwise (le · ·) →
      (∀ a, l.filter (ties le a) = l'.filter (ties le a)) → l = l' := by
  have refl : ∀ a, ties le a a = true := by
    intro a
    have h := total a a
    rw [Bool.or_self] at h
    rw [ties, h, Bool.and_self]
  -- every entry of one list is an entry of the other
  have hmem : ∀ {l l' : List α}, (∀ a, l.filter (ties le a) = l'.filter (ties le a)) →
      ∀ a ∈ l, a ∈ l' := by
    intro l l' h a ha
    have hclass : a ∈ l.filter (ties le a) := List.mem_filter.mpr ⟨ha, refl a⟩
    rw [h a] at hclass
    exact (List.mem_filter.mp hclass).1
  intro l
  induction l with
  | nil =>
    intro l' _ _ h
    cases l' with
    | nil => rfl
    | cons b rest => exact absurd (hmem (fun a => (h a).symm) b List.mem_cons_self) List.not_mem_nil
  | cons a l ih =>
    intro l' hl hl' h
    cases l' with
    | nil => exact absurd (hmem h a List.mem_cons_self) List.not_mem_nil
    | cons b l' =>
      -- the first entries tie, and so they are the first of their class
      have hab : le a b = true := by
        rcases List.mem_cons.mp (hmem (fun c => (h c).symm) b List.mem_cons_self) with rfl | hb
        · have := refl b
          rw [ties, Bool.and_self] at this
          exact this
        · exact List.rel_of_pairwise_cons hl hb
      have hba : le b a = true := by
        rcases List.mem_cons.mp (hmem h a List.mem_cons_self) with rfl | ha
        · exact hab
        · exact List.rel_of_pairwise_cons hl' ha
      have hties : ties le a b = true := by
        rw [ties, hab, hba, Bool.and_self]
      have hfirst := h a
      rw [List.filter_cons_of_pos (refl a), List.filter_cons_of_pos hties, List.cons.injEq] at hfirst
      obtain ⟨rfl, -⟩ := hfirst
      congr 1
      refine ih hl.tail hl'.tail ?_
      intro c
      have hc := h c
      cases hca : ties le c a with
      | true =>
        rw [List.filter_cons_of_pos hca, List.filter_cons_of_pos hca, List.cons.injEq] at hc
        exact hc.2
      | false =>
        rw [List.filter_cons_of_neg (by rw [hca]; exact Bool.false_ne_true),
          List.filter_cons_of_neg (by rw [hca]; exact Bool.false_ne_true)] at hc
        exact hc

/-- Lists that agree on every class of ties are sorted to the same list. -/
theorem mergeSort_eq_of_ties (trans : ∀ a b c, le a b → le b c → le a c)
    (total : ∀ a b, le a b || le b a)
    (h : ∀ a, l.filter (ties le a) = l'.filter (ties le a)) :
    l.mergeSort le = l'.mergeSort le := by
  refine eq_of_pairwise_of_ties total (List.pairwise_mergeSort trans total l)
    (List.pairwise_mergeSort trans total l') ?_
  intro a
  rw [filter_mergeSort trans total (pairwise_filter_ties trans a),
    filter_mergeSort trans total (pairwise_filter_ties trans a), h a]

end sorting

/-! ### The orders of comments -/

section comparing

variable {α β : Type} {cmp : α → α → Ordering}

instance orientedCmp_compareOptions [Std.OrientedCmp cmp] : Std.OrientedCmp (compareOptions cmp) where
  eq_swap := by
    intro a b
    cases a <;> cases b
    · rfl
    · rfl
    · rfl
    · rw [compareOptions, compareOptions]
      exact Std.OrientedCmp.eq_swap

instance transCmp_compareOptions [Std.TransCmp cmp] : Std.TransCmp (compareOptions cmp) where
  isLE_trans := by
    intro a b c hab hbc
    cases a <;> cases b <;> cases c <;> first | rfl | contradiction | skip
    rw [compareOptions] at hab hbc ⊢
    exact Std.TransCmp.isLE_trans hab hbc

/-- Comparing by what a function gives is as good as the comparison itself. -/
theorem transCmp_comap (cmp : α → α → Ordering) [Std.TransCmp cmp] (f : β → α) :
    Std.TransCmp fun a b => cmp (f a) (f b) where
  eq_swap := Std.OrientedCmp.eq_swap
  isLE_trans := Std.TransCmp.isLE_trans

/-- What a comparison allows to stand first is a total and transitive order. -/
theorem trans_of_cmp [Std.TransCmp cmp] {le : α → α → Bool}
    (h : ∀ a b, le a b = (cmp a b).isLE) : ∀ a b c, le a b → le b c → le a c := by
  intro a b c hab hbc
  rw [h] at hab hbc ⊢
  exact Std.TransCmp.isLE_trans hab hbc

theorem total_of_cmp [Std.TransCmp cmp] {le : α → α → Bool}
    (h : ∀ a b, le a b = (cmp a b).isLE) : ∀ a b, le a b || le b a := by
  intro a b
  have hswap : cmp a b = (cmp b a).swap := Std.OrientedCmp.eq_swap
  rw [h, h, hswap]
  cases cmp b a <;> rfl

/-- Entries tie exactly when they compare as equal. -/
theorem ties_iff [Std.TransCmp cmp] {le : α → α → Bool}
    (h : ∀ a b, le a b = (cmp a b).isLE) {a b : α} : ties le a b ↔ cmp a b = .eq := by
  have hswap : cmp b a = (cmp a b).swap := Std.OrientedCmp.eq_swap
  rw [ties, h, h, hswap]
  cases cmp a b <;> decide

end comparing

instance transCmp_position : Std.TransCmp Position.cmp :=
  inferInstanceAs (Std.TransCmp (compareLex (compareOn Position.line) (compareOn Position.column)))

instance transCmp_span : Std.TransCmp SourceLocation.cmpSpan :=
  have := transCmp_comap Position.cmp SourceLocation.start
  have := transCmp_comap Position.cmp SourceLocation.stop
  inferInstanceAs (Std.TransCmp (compareLex
    (fun a b : SourceLocation => a.start.cmp b.start) (fun a b => a.stop.cmp b.stop)))

namespace Comment

/-- By span, no location first. -/
def cmpSpan (a b : Comment) : Ordering := compareOptions SourceLocation.cmpSpan a.loc b.loc

/-- By the start of the range, no range first. -/
def cmpStart (a b : Comment) : Ordering :=
  compareOptions compare (a.range.map (·.start)) (b.range.map (·.start))

instance transCmp_cmpSpan : Std.TransCmp cmpSpan := transCmp_comap _ Comment.loc

instance transCmp_cmpStart : Std.TransCmp cmpStart :=
  transCmp_comap (compareOptions compare) fun c : Comment => c.range.map TextRange.start

/-- Comments with the same span end on the same line. -/
theorem endLine?_of_cmpSpan {a b : Comment} (h : a.cmpSpan b = .eq) : a.endLine? = b.endLine? := by
  rw [cmpSpan] at h
  rw [endLine?, endLine?]
  cases ha : a.loc with
  | none =>
    cases hb : b.loc with
    | none => rfl
    | some loc' =>
      rw [ha, hb] at h
      cases h
  | some loc =>
    cases hb : b.loc with
    | none =>
      rw [ha, hb] at h
      cases h
    | some loc' =>
      rw [ha, hb, compareOptions, SourceLocation.cmpSpan, Ordering.then_eq_eq, Position.cmp,
        Position.cmp, Ordering.then_eq_eq, Ordering.then_eq_eq] at h
      rw [Option.map_some, Option.map_some, Std.LawfulEqOrd.eq_of_compare h.2.1]

end Comment

theorem bne_gt (o : Ordering) : (o != .gt) = o.isLE := by
  cases o <;> rfl

theorem CommentIndex.precedes_eq (a b : Comment) :
    precedes a b = (compareLex Comment.cmpSpan Comment.cmpStart a b).isLE :=
  bne_gt _

theorem Export.precedes_eq (a b : Comment) :
    precedes a b = (compareLex Comment.cmpStart Comment.cmpSpan a b).isLE :=
  bne_gt _

namespace CommentIndex

theorem precedes_trans : ∀ a b c, precedes a b → precedes b c → precedes a c :=
  trans_of_cmp precedes_eq

theorem precedes_total : ∀ a b, precedes a b || precedes b a :=
  total_of_cmp precedes_eq

theorem ties_precedes {a b : Comment} :
    ties precedes a b ↔ a.cmpSpan b = .eq ∧ a.cmpStart b = .eq := by
  rw [ties_iff precedes_eq, compareLex, Ordering.then_eq_eq]

end CommentIndex

namespace Export

theorem precedes_trans : ∀ a b c, precedes a b → precedes b c → precedes a c :=
  trans_of_cmp precedes_eq

theorem precedes_total : ∀ a b, precedes a b || precedes b a :=
  total_of_cmp precedes_eq

/-- The two orders have the same ties. -/
theorem ties_precedes (a : Comment) : ties precedes a = ties CommentIndex.precedes a := by
  funext b
  rw [Bool.eq_iff_iff, ties_iff precedes_eq, CommentIndex.ties_precedes, compareLex,
    Ordering.then_eq_eq, and_comm]

end Export

end EsFront
