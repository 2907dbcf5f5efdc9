/-
Walks do not disturb each other.

Walks that share a table of names only add to it. At every moment, the handles
that a walk has met stand for their names, one to one, and what others add
changes nothing in this; so each walk is where it would be by itself, with
names for handles (`Walk.Follows`). This is kept by every turn, and so by every
schedule:

* `Live.rel_stepIn`, `Live.rel_runIn` — the events of one walk;
* `Parallel.follows_turn`, `Parallel.follows_run` — the turns of all;
* `Parallel.results_eq` — what all of them find in the end.
-/
import EsFront.Scope.Parallel
import EsFront.Proofs.Scope.Handles

namespace EsFront

section interner

variable {σ κ : Type} {interner : Interner σ κ} {table later last : σ}

namespace Interner

/-- The handle stands for the name. -/
def StandsFor (interner : Interner σ κ) (table : σ) (key : κ) (name : String) : Prop :=
  interner.find? table name = some key

theorem biUnique_standsFor : Relator.BiUnique (interner.StandsFor table) := by
  constructor
  · intro key key' name h h'
    exact Option.some.inj (h.symm.trans h')
  · intro key name name' h h'
    exact interner.find?_injective h h'

/-- The later table has all that the earlier one has. -/
def Grows (interner : Interner σ κ) (table later : σ) : Prop :=
  ∀ key name, interner.StandsFor table key name → interner.StandsFor later key name

theorem Grows.refl : interner.Grows table table := fun _ _ h => h

theorem Grows.trans (h : interner.Grows table later) (h' : interner.Grows later last) :
    interner.Grows table last := fun key name hkey => h' key name (h key name hkey)

theorem grows_intern (name : String) : interner.Grows table (interner.intern table name).2 :=
  fun _ _ h => interner.find?_intern_of_some h name

theorem standsFor_intern (name : String) :
    interner.StandsFor (interner.intern table name).2 (interner.intern table name).1 name :=
  interner.find?_intern table name

end Interner

/-! ### One walk -/

namespace Live

variable {live : Live κ} {plain : Live String}

theorem Rel.resolution_eq {R : κ → String → Prop} (h : live.Rel R plain) :
    live.resolution = plain.resolution := by
  unfold Live.resolution
  rw [h.declarations, h.tree, h.mentions]

variable [DecidableEq κ]

theorem grows_stepIn (live : Live κ) (event : ScopeEvent) :
    interner.Grows table (live.stepIn interner table event).2 := by
  cases event with
  | enter kind => exact .refl
  | leave => exact .refl
  | predeclare name => exact Interner.grows_intern name
  | bind binding name site => exact Interner.grows_intern name
  | use name site => exact .refl

/-- What is found by the handle of a name, if there is one, is what is found by
the name. -/
theorem Rel.lookup_find? (h : live.Rel (interner.StandsFor table) plain) (name : String) :
    (interner.find? table name).bind live.chain.lookup = plain.chain.lookup name := by
  cases hkey : interner.find? table name with
  | some key => exact h.chain.lookup_eq Interner.biUnique_standsFor hkey
  | none =>
    -- every name that is bound has a handle
    have hnone : ∀ key, ¬ interner.StandsFor table key name := by
      intro key hstands
      rw [Interner.StandsFor, hkey] at hstands
      cases hstands
    exact (h.chain.lookup_eq_none hnone).symm

/-- One event by handles does what it does by names. -/
theorem rel_stepIn (h : live.Rel (interner.StandsFor table) plain) (event : ScopeEvent) :
    (live.stepIn interner table event).1.Rel
      (interner.StandsFor (live.stepIn interner table event).2) (plain.step event) := by
  have hgrown := h.mono (grows_stepIn live event)
  cases event with
  | enter kind => exact h.enter kind
  | leave => exact h.leave
  | predeclare name =>
    exact hgrown.predeclare Interner.biUnique_standsFor (Interner.standsFor_intern name) name
  | bind binding name site =>
    exact hgrown.bind Interner.biUnique_standsFor (Interner.standsFor_intern name) binding name site
  | use name site =>
    change (live.use ((interner.find? table name).bind live.chain.lookup) name site).Rel _
      (plain.use (plain.chain.lookup name) name site)
    rw [h.lookup_find? name]
    exact h.use (plain.chain.lookup name) name site

theorem grows_runIn (live : Live κ) (events : List ScopeEvent) :
    interner.Grows table (live.runIn interner table events).2 := by
  induction events generalizing live table with
  | nil => exact .refl
  | cons event events ih => exact (grows_stepIn live event).trans (ih _)

/-- Events by handles do what they do by names. -/
theorem rel_runIn (h : live.Rel (interner.StandsFor table) plain) (events : List ScopeEvent) :
    (live.runIn interner table events).1.Rel
      (interner.StandsFor (live.runIn interner table events).2) (plain.run events) := by
  induction events generalizing live table plain with
  | nil => exact h
  | cons event events ih => exact ih (rel_stepIn h event)

end Live

end interner

/-! ### Walks side by side -/

section walks

variable {σ κ α : Type} {interner : Interner σ κ}

/-- The walk has done the first of its events as it would have done by itself,
with names for handles. -/
structure Walk.Follows (interner : Interner σ κ) (table : σ) (task : α × List ScopeEvent)
    (walk : Walk κ α) : Prop where
  subject : walk.subject = task.1
  state : ∃ done, task.2 = done ++ walk.rest ∧
    walk.live.Rel (interner.StandsFor table) (Live.start.run done)

theorem Walk.Follows.mono {table later : σ} {task : α × List ScopeEvent} {walk : Walk κ α}
    (h : walk.Follows interner table task) (hgrows : interner.Grows table later) :
    walk.Follows interner later task := by
  obtain ⟨done, hdone, hrel⟩ := h.state
  exact ⟨h.subject, done, hdone, hrel.mono hgrows⟩

theorem Walk.follows_start {table : σ} (task : α × List ScopeEvent) :
    Walk.Follows interner table task ⟨task.1, task.2, .start⟩ :=
  ⟨rfl, [], rfl, .start⟩

namespace Parallel

/-- Every walk follows. -/
def Follows (interner : Interner σ κ) (tasks : List (α × List ScopeEvent))
    (p : Parallel σ κ α) : Prop :=
  List.Forall₂ (Walk.Follows interner p.table) tasks p.walks

theorem follows_start {tasks : List (α × List ScopeEvent)} :
    (start interner tasks).Follows interner tasks := by
  unfold Follows start
  rw [List.forall₂_map_right_iff, List.forall₂_same]
  exact fun task _ => Walk.follows_start task

end Parallel

/-! ### Turns -/

variable [DecidableEq κ]

/-- The walk that takes a step follows, in the table that it leaves. -/
theorem Walk.Follows.step {table : σ} {task : α × List ScopeEvent} {subject : α}
    {event : ScopeEvent} {rest : List ScopeEvent} {live : Live κ}
    (h : Walk.Follows interner table task ⟨subject, event :: rest, live⟩) :
    Walk.Follows interner (live.stepIn interner table event).2 task
      ⟨subject, rest, (live.stepIn interner table event).1⟩ := by
  obtain ⟨done, hdone, hrel⟩ := h.state
  refine ⟨h.subject, done ++ [event], ?_, ?_⟩
  · rw [hdone, List.append_assoc]
    rfl
  · rw [Live.run, List.foldl_append]
    exact Live.rel_stepIn hrel event

/-- A walk that is finished has found what it finds by itself. -/
theorem Walk.Follows.resolution_eq {table : σ} {task : α × List ScopeEvent} {walk : Walk κ α}
    (h : walk.Follows interner table task) :
    (walk.live.runIn interner table walk.rest).1.resolution
      = (Live.start.run task.2).resolution := by
  obtain ⟨done, hdone, hrel⟩ := h.state
  rw [hdone, Live.run, List.foldl_append]
  exact (Live.rel_runIn hrel walk.rest).resolution_eq

/-- A relation between lists is kept when one entry is replaced. -/
theorem forall₂_set {β γ : Type} {S T : β → γ → Prop} (hmono : ∀ b c, S b c → T b c)
    {l : List β} {m : List γ} (h : List.Forall₂ S l m) {i : Nat} {c new : γ} (hc : m[i]? = some c)
    (hnew : ∀ b, S b c → T b new) : List.Forall₂ T l (m.set i new) := by
  induction h generalizing i with
  | nil => cases hc
  | cons hfirst hrest ih =>
    cases i with
    | zero =>
      cases hc
      exact .cons (hnew _ hfirst) (hrest.imp hmono)
    | succ i => exact .cons (hmono _ _ hfirst) (ih hc)

namespace Parallel

variable {tasks : List (α × List ScopeEvent)} {p : Parallel σ κ α}

theorem follows_turn (h : p.Follows interner tasks) (turn : Turn) :
    (p.turn interner turn).Follows interner tasks := by
  cases turn with
  | name text =>
    exact List.Forall₂.imp (fun _ _ hwalk => hwalk.mono (Interner.grows_intern text)) h
  | step i =>
    unfold Parallel.turn
    dsimp only
    split
    · rename_i subject event rest live hwalk
      -- for all walks but one, the turn only adds to the table
      refine forall₂_set (fun _ _ hother => hother.mono (Live.grows_stepIn live event)) h hwalk ?_
      exact fun task hfollows => hfollows.step
    · exact h

theorem follows_run (h : p.Follows interner tasks) (schedule : List Turn) :
    (p.run interner schedule).Follows interner tasks := by
  induction schedule generalizing p with
  | nil => exact h
  | cons turn schedule ih => exact ih (follows_turn h turn)

/-- What walks find when they are finished. -/
theorem finish_eq {table : σ} {walks : List (Walk κ α)}
    (h : List.Forall₂ (Walk.Follows interner table) tasks walks) :
    finish interner table walks
      = tasks.map fun task => (task.1, (Live.start.run task.2).resolution) := by
  induction walks generalizing table tasks with
  | nil =>
    cases h
    rfl
  | cons walk walks ih =>
    cases h with
    | @cons task _ tasks _ hfirst hrest =>
      -- the other walks go on with what this one leaves in the table
      have hgrown := hrest.imp fun _ _ hother =>
        hother.mono (Live.grows_runIn walk.live walk.rest)
      change (walk.subject, (walk.live.runIn interner table walk.rest).1.resolution) ::
        finish interner (walk.live.runIn interner table walk.rest).2 walks = _
      rw [ih hgrown, List.map_cons, hfirst.resolution_eq, hfirst.subject]

/-- Whatever the schedule, every walk finds what it finds by itself. -/
theorem results_eq (interner : Interner σ κ) (tasks : List (α × List ScopeEvent))
    (schedule : List Turn) :
    results interner tasks schedule
      = tasks.map fun task => (task.1, (Live.start.run task.2).resolution) :=
  finish_eq (follows_run follows_start schedule)

end Parallel

/-- Programs are resolved side by side as each is by itself. -/
theorem resolveTogether_eq (interner : Interner σ κ) (options : ResolveOptions)
    (programs : List Program) (schedule : List Turn) :
    resolveTogether interner options programs schedule
      = programs.map (Program.resolve options) := by
  unfold resolveTogether
  dsimp only
  rw [Parallel.results_eq, List.map_map, List.map_map]
  rfl

end walks

end EsFront
