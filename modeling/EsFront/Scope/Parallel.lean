/-
Programs that are resolved side by side.

Several walks may share one table of names: what a name is bound to is looked
up by its handle there. The walks take turns in any order (`Turn`), each event
of a walk being one step, and between two steps others may put further names
into the table. A schedule tells whose turn it is; when it ends, the walks are
finished one after the other.

* `Live.stepIn` — one event of a walk, by the handles of a table;
* `Parallel.run` — the turns of a schedule;
* `resolveTogether` — the programs after all walks.
-/
import EsFront.Collections.Interner
import EsFront.Scope.Resolution

namespace EsFront

namespace Live

variable {σ κ : Type} [DecidableEq κ] (interner : Interner σ κ)

/-- One event, with names that are looked up by their handles in a table. A use
of a name that the table does not have finds nothing. -/
def stepIn (table : σ) (live : Live κ) : ScopeEvent → Live κ × σ
  | .enter kind => (live.enter kind, table)
  | .leave => (live.leave, table)
  | .predeclare name =>
    let (key, table) := interner.intern table name
    (live.predeclare key name, table)
  | .bind binding name site =>
    let (key, table) := interner.intern table name
    (live.bind key binding name site, table)
  | .use name site =>
    (live.use ((interner.find? table name).bind live.chain.lookup) name site, table)

/-- Events from first to last. -/
def runIn (table : σ) (live : Live κ) : List ScopeEvent → Live κ × σ
  | [] => (live, table)
  | event :: rest =>
    let (next, table) := live.stepIn interner table event
    next.runIn table rest

end Live

/-- A walk on its way: what is walked, the events to come, and the state. -/
structure Walk (κ α : Type) where
  subject : α
  rest : List ScopeEvent
  live : Live κ

/-- Whose turn it is. -/
inductive Turn where
  /-- The walk with the given number takes its next step, if there is one. -/
  | step (walk : Nat)
  /-- Someone else puts a name into the table. -/
  | name (text : String)
deriving DecidableEq, Repr

/-- Walks that share a table of names. -/
structure Parallel (σ κ α : Type) where
  table : σ
  walks : List (Walk κ α)

namespace Parallel

variable {σ κ α : Type} [DecidableEq κ] (interner : Interner σ κ)

/-- The walks of the given subjects before their first steps. -/
def start (subjects : List (α × List ScopeEvent)) : Parallel σ κ α :=
  ⟨interner.empty, subjects.map fun (subject, events) => ⟨subject, events, .start⟩⟩

/-- One turn. -/
def turn (p : Parallel σ κ α) : Turn → Parallel σ κ α
  | .name text => { p with table := (interner.intern p.table text).2 }
  | .step i =>
    match p.walks[i]? with
    | some ⟨subject, event :: rest, live⟩ =>
      let (next, table) := live.stepIn interner p.table event
      ⟨table, p.walks.set i ⟨subject, rest, next⟩⟩
    | _ => p

/-- The turns of a schedule. -/
def run (p : Parallel σ κ α) (schedule : List Turn) : Parallel σ κ α :=
  schedule.foldl (turn interner) p

/-- Finishes walks one after the other. -/
def finish (table : σ) : List (Walk κ α) → List (α × Resolution)
  | [] => []
  | walk :: walks =>
    let (live, table) := walk.live.runIn interner table walk.rest
    (walk.subject, live.resolution) :: finish table walks

/-- What the walks of the given subjects find. -/
def results (subjects : List (α × List ScopeEvent)) (schedule : List Turn) :
    List (α × Resolution) :=
  let walked := (start interner subjects).run interner schedule
  finish interner walked.table walked.walks

end Parallel

/-- Resolves programs side by side. -/
def resolveTogether {σ κ : Type} [DecidableEq κ] (interner : Interner σ κ)
    (options : ResolveOptions) (programs : List Program) (schedule : List Turn) :
    List (Program × Resolution) :=
  let subjects := programs.map fun program => (program, program.scopeEvents options.names)
  (Parallel.results interner subjects schedule).map fun (program, found) =>
    (program.mark found.unify, found)

end EsFront
