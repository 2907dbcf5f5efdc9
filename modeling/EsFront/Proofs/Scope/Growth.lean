/-
What a walk adds.

No event takes anything back: scopes stay where they are, and declarations and
records are only added. What is added comes from the events (`Live.Grows`), so
the events before a use tell which of the declarations that are listed in the
end were there already. Main statements:

* `Live.run_grows` — along every walk;
* `Live.run_recorded` — every declaration of the program has its record.
-/
import EsFront.Proofs.Scope.Coupling

namespace EsFront

namespace ScopeEvent

/-- The identifier that an event is about. -/
def site? : ScopeEvent → Option Site
  | bind _ _ site => some site
  | use _ site => some site
  | enter _ | leave | predeclare _ => none

/-- The site of the declaration that an event may make: none for the names that
are there before the program. -/
def declares? : ScopeEvent → Option (Option Site)
  | bind _ _ site => some (some site)
  | predeclare _ => some none
  | enter _ | leave | use _ _ => none

end ScopeEvent

namespace Live

/-- The later state has all that the earlier one has, and the rest comes from
the events. -/
structure Grows (live : Live String) (events : List ScopeEvent) (next : Live String) : Prop where
  opened : live.tree.nextId ≤ next.tree.nextId
  parents : ∀ scope < live.tree.nextId, next.tree.parent? scope = live.tree.parent? scope
  listed : ∀ scope, ∃ new, next.listed scope = live.listed scope ++ new ∧
    ∀ d ∈ new, ∃ event ∈ events, event.declares? = some (Declaration.site d)
  mentions : ∃ new, next.mentions = live.mentions ++ new ∧
    (new.map Mention.site).Sublist (events.filterMap ScopeEvent.site?)

variable {live next last : Live String} {events more : List ScopeEvent}

theorem Grows.refl (live : Live String) (events : List ScopeEvent) : live.Grows events live where
  opened := Nat.le_refl _
  parents := fun _ _ => rfl
  listed := fun _ => ⟨[], (List.append_nil _).symm, fun _ h => absurd h List.not_mem_nil⟩
  mentions := ⟨[], (List.append_nil _).symm, List.nil_sublist _⟩

theorem Grows.trans (h : live.Grows events next) (h' : next.Grows more last) :
    live.Grows (events ++ more) last where
  opened := Nat.le_trans h.opened h'.opened
  parents := by
    intro scope hscope
    rw [h'.parents scope (Nat.lt_of_lt_of_le hscope h.opened), h.parents scope hscope]
  listed := by
    intro scope
    obtain ⟨new, hnew, hsource⟩ := h.listed scope
    obtain ⟨new', hnew', hsource'⟩ := h'.listed scope
    refine ⟨new ++ new', by rw [hnew', hnew, List.append_assoc], fun d hd => ?_⟩
    rcases List.mem_append.mp hd with hd | hd
    · obtain ⟨event, hevent, hsite⟩ := hsource d hd
      exact ⟨event, List.mem_append_left _ hevent, hsite⟩
    · obtain ⟨event, hevent, hsite⟩ := hsource' d hd
      exact ⟨event, List.mem_append_right _ hevent, hsite⟩
  mentions := by
    obtain ⟨new, hnew, hsites⟩ := h.mentions
    obtain ⟨new', hnew', hsites'⟩ := h'.mentions
    refine ⟨new ++ new', by rw [hnew', hnew, List.append_assoc], ?_⟩
    rw [List.map_append, List.filterMap_append]
    exact hsites.append hsites'

/-! ### One event -/

/-- A record is added, or none when there is no scope. -/
theorem record_mentions (live : Live String) (name : String) (site : Site) (outcome : Outcome) :
    ∃ new, (live.record name site outcome).mentions = live.mentions ++ new ∧
      (new.map Mention.site).Sublist [site] := by
  unfold record
  split
  · exact ⟨[], (List.append_nil _).symm, List.nil_sublist _⟩
  · exact ⟨_, rfl, List.Sublist.refl _⟩

theorem record_listed (name : String) (site : Site) (outcome : Outcome) (scope : ScopeId) :
    (live.record name site outcome).listed scope = live.listed scope := by
  rw [listed, listed, record_tree, record_declarations]

theorem grows_record (live : Live String) {event : ScopeEvent} {site : Site}
    (hsite : event.site? = some site) (name : String) (outcome : Outcome) :
    live.Grows [event] (live.record name site outcome) where
  opened := Nat.le_of_eq (congrArg ScopeTree.nextId (record_tree name site outcome).symm)
  parents := by
    intro scope _
    rw [record_tree]
  listed := fun scope =>
    ⟨[], by rw [record_listed, List.append_nil], fun _ h => absurd h List.not_mem_nil⟩
  mentions := by
    obtain ⟨new, hnew, hsites⟩ := record_mentions live name site outcome
    refine ⟨new, hnew, ?_⟩
    rw [List.filterMap_cons, hsite]
    exact hsites

theorem grows_enter (kind : ScopeKind) : live.Grows [.enter kind] (live.enter kind) where
  opened := by
    change live.tree.scopes.length ≤ (live.tree.scopes ++ _).length
    rw [List.length_append]
    exact Nat.le_add_right _ _
  parents := fun scope hscope => live.tree.parent?_add kind _ hscope
  listed := fun scope =>
    ⟨[], by rw [listed_enter, List.append_nil], fun _ h => absurd h List.not_mem_nil⟩
  mentions := ⟨[], (List.append_nil _).symm, List.nil_sublist _⟩

theorem grows_declare (h : live.Coupled) {decl : Declaration} {event : ScopeEvent}
    (hid : decl.id = live.declarations.length) (hscope : decl.scope ∈ live.chain.ids)
    (hevent : event.declares? = some decl.site) : live.Grows [event] (live.declare decl) where
  opened := Nat.le_of_eq (List.length_modify _ _ _).symm
  parents := fun scope _ => live.tree.parent?_addDeclaration _ _ scope
  listed := by
    intro scope
    refine ⟨_, listed_declare h hid (h.opened _ hscope) scope, fun d hd => ?_⟩
    split at hd
    · rw [List.mem_singleton] at hd
      subst hd
      exact ⟨event, List.mem_singleton_self _, hevent⟩
    · exact absurd hd List.not_mem_nil
  mentions := ⟨[], (List.append_nil _).symm, List.nil_sublist _⟩

theorem Coupled.grows (h : live.Coupled) (event : ScopeEvent) :
    live.Grows [event] (live.step event) := by
  have hstep := step_spec h.nodup event
  generalize live.step event = next at hstep ⊢
  cases hstep with
  | enter kind => exact grows_enter kind
  | leave =>
    have hsame := Grows.refl live [.leave]
    exact ⟨hsame.opened, hsame.parents, hsame.listed, hsame.mentions⟩
  | predeclared hid hsite hscope =>
    refine grows_declare h hid hscope ?_
    rw [hsite]
    rfl
  | known => exact Grows.refl _ _
  | @declared binding name site decl hid hsite hscope =>
    have hdeclare : live.Grows [.bind binding name site] (live.declare decl) := by
      refine grows_declare h hid hscope ?_
      rw [hsite]
      rfl
    -- the declaration adds to the lists, its record to the records
    have hrecord : (live.declare decl).Grows [.bind binding name site] _ :=
      grows_record _ rfl name (.declared decl)
    refine ⟨Nat.le_trans hdeclare.opened hrecord.opened, ?_, ?_, hrecord.mentions⟩
    · intro scope hlt
      rw [record_tree]
      exact hdeclare.parents scope hlt
    · intro scope
      rw [record_listed]
      exact hdeclare.listed scope
  | merged clash first => exact grows_record _ rfl _ _
  | lost => exact Grows.refl _ _
  | use =>
    obtain ⟨outcome, huse⟩ := use_eq_record live _ _ _
    rw [huse]
    exact grows_record _ rfl _ outcome

/-! ### Whole walks -/

theorem run_append (live : Live String) (events more : List ScopeEvent) :
    live.run (events ++ more) = (live.run events).run more := List.foldl_append

theorem run_grows (h : live.Coupled) (events : List ScopeEvent) :
    live.Grows events (live.run events) := by
  induction events generalizing live with
  | nil => exact Grows.refl _ _
  | cons event events ih => exact (h.grows event).trans (ih (h.step event))

/-- Every declaration of the program has its record. -/
def Recorded (live : Live String) : Prop :=
  ∀ d ∈ live.declarations, ∀ site, Declaration.site d = some site →
    ∃ m ∈ live.mentions, Mention.site m = site ∧ m.outcome = .declared d

theorem Recorded.record (h : live.Recorded) (name : String) (site : Site) (outcome : Outcome) :
    (live.record name site outcome).Recorded := by
  intro d hd site' hsite
  rw [record_declarations] at hd
  obtain ⟨m, hm, hrest⟩ := h d hd site' hsite
  obtain ⟨new, hnew, -⟩ := record_mentions live name site outcome
  refine ⟨m, ?_, hrest⟩
  rw [hnew]
  exact List.mem_append_left _ hm

theorem Recorded.step (h : live.Recorded) (hcoupled : live.Coupled) (event : ScopeEvent) :
    (live.step event).Recorded := by
  have hstep := step_spec hcoupled.nodup event
  generalize live.step event = next at hstep ⊢
  cases hstep with
  | enter kind => exact h
  | leave => exact h
  | @predeclared name decl hid hnone hscope =>
    intro d hd site hsite
    rcases List.mem_append.mp hd with hd | hd
    · exact h d hd site hsite
    · rw [List.mem_singleton] at hd
      rw [hd, hnone] at hsite
      cases hsite
  | known => exact h
  | @declared binding name site decl hid hsite hscope =>
    -- the chain is not empty, so the new declaration is recorded
    obtain ⟨frame, hhead⟩ : ∃ frame, (live.declare decl).chain.head? = some frame := by
      have hne : (live.declare decl).chain ≠ [] := by
        intro hnil
        have hids : (live.declare decl).chain.ids = live.chain.ids := Chain.ids_bindAt _
        rw [hnil] at hids
        rw [← hids] at hscope
        exact List.not_mem_nil hscope
      exact ⟨_, List.head?_eq_some_head hne⟩
    have hmentions : ((live.declare decl).record name site (.declared decl)).mentions
        = live.mentions ++ [⟨name, site, frame.id, .declared decl⟩] := by
      rw [Live.record, Chain.current?, hhead]
      rfl
    intro d hd site' hsite'
    rw [record_declarations] at hd
    rw [hmentions]
    rcases List.mem_append.mp hd with hd | hd
    · obtain ⟨m, hm, hrest⟩ := h d hd site' hsite'
      exact ⟨m, List.mem_append_left _ hm, hrest⟩
    · rw [List.mem_singleton] at hd
      subst hd
      rw [hsite] at hsite'
      cases hsite'
      exact ⟨_, List.mem_append_right _ (List.mem_singleton_self _), rfl, rfl⟩
  | merged clash first => exact h.record _ _ _
  | lost => exact h
  | use =>
    obtain ⟨outcome, huse⟩ := use_eq_record live _ _ _
    rw [huse]
    exact h.record _ _ outcome

theorem run_recorded (h : live.Recorded) (hcoupled : live.Coupled) (events : List ScopeEvent) :
    (live.run events).Recorded :=
  hcoupled.run_keeps (fun _ hcoupled hnext => hnext.step hcoupled) h events

end Live

end EsFront
