/-
The files of a run.

All files of a run are on their way at once. They share the workspace, where
parser commands may change files, and one table of names. A file is read,
parsed and imported, and its names are resolved event by event (`Stage`); a
failure stops that file only. A schedule tells which file takes its next step
(`Turn`); when it ends, the files are finished one after the other. A parser
runs in one step.

* `Stage.step`, `Stage.finish` — one step of a file, and all that are left;
* `compileTogether` — files of a workspace, with the given turns first;
* `compile` — the same, one after the other.
-/
import EsFront.Pipeline.Compile
import EsFront.Scope.Parallel

namespace EsFront

/-- What the files of a run share. -/
structure Shared (σ : Type) where
  workspace : Workspace
  table : σ

/-- How far a file is. -/
inductive Stage (κ : Type) where
  /-- Nothing was done for it. -/
  | listed
  /-- It was read. -/
  | loaded (text : String)
  /-- Its names are being resolved, or all of them are. -/
  | walking (walk : Walk κ Program)
  | failed (reason : PipelineError)

namespace Stage

variable {σ κ : Type}

/-- A file that was read, if it could be. -/
def ofText : Except PipelineError String → Stage κ
  | .error reason => .failed reason
  | .ok text => .loaded text

/-- The walk of a program before its first event. -/
def walkOf (options : CompileOptions) (program : Program) : Walk κ Program :=
  ⟨program, options.events program, .start⟩

/-- A file that was imported, if it could be. -/
def ofProgram (options : CompileOptions) : Except PipelineError Program → Stage κ
  | .error reason => .failed reason
  | .ok program => .walking (walkOf options program)

variable [DecidableEq κ] (interner : Interner σ κ) (backend : Backend) (options : CompileOptions)
  (path : String) (shared : Shared σ)

/-- The next step of the file with the given path, if there is one, and what it
makes of what is shared. -/
def step : Stage κ → Stage κ × Shared σ
  | .listed => (.ofText (readSource shared.workspace path), shared)
  | .loaded text =>
    let (source, workspace) := importSource shared.workspace backend path text
    (.ofProgram options source, { shared with workspace })
  | .walking ⟨program, event :: rest, live⟩ =>
    let (next, table) := live.stepIn interner shared.table event
    (.walking ⟨program, rest, next⟩, { shared with table })
  | .walking ⟨program, [], live⟩ => (.walking ⟨program, [], live⟩, shared)
  | .failed reason => (.failed reason, shared)

/-- The events that are left, and the file written. -/
def finishWalk (walk : Walk κ Program) : FileOutput × Shared σ :=
  let (live, table) := walk.live.runIn interner shared.table walk.rest
  (emitFile options path walk.subject live.resolution, { shared with table })

/-- The steps of a file that was read. -/
def finishText (text : String) : Except PipelineError FileOutput × Shared σ :=
  let (source, workspace) := importSource shared.workspace backend path text
  match source with
  | .error reason => (.error reason, { shared with workspace })
  | .ok program =>
    let (output, shared) :=
      finishWalk interner options path { shared with workspace } (walkOf options program)
    (.ok output, shared)

/-- All steps of a file that are left: what it is compiled to, and what they
make of what is shared. -/
def finish : Stage κ → Except PipelineError FileOutput × Shared σ
  | .listed =>
    match readSource shared.workspace path with
    | .error reason => (.error reason, shared)
    | .ok text => finishText interner backend options path shared text
  | .loaded text => finishText interner backend options path shared text
  | .walking walk =>
    let (output, shared) := finishWalk interner options path shared walk
    (.ok output, shared)
  | .failed reason => (.error reason, shared)

end Stage

/-- Files on their way, each with its path. -/
structure Batch (σ κ : Type) where
  shared : Shared σ
  files : List (String × Stage κ)

namespace Batch

variable {σ κ : Type} (interner : Interner σ κ)

/-- The files with the given paths before their first steps. -/
def start (workspace : Workspace) (paths : List String) : Batch σ κ :=
  ⟨⟨workspace, interner.empty⟩, paths.map (·, .listed)⟩

variable [DecidableEq κ] (backend : Backend) (options : CompileOptions)

/-- One turn. -/
def turn (batch : Batch σ κ) : Turn → Batch σ κ
  | .name text =>
    { batch with
      shared := { batch.shared with table := (interner.intern batch.shared.table text).2 } }
  | .step i =>
    match batch.files[i]? with
    | some (path, stage) =>
      let (next, shared) := stage.step interner backend options path batch.shared
      ⟨shared, batch.files.set i (path, next)⟩
    | none => batch

/-- The turns of a schedule. -/
def run (batch : Batch σ κ) (schedule : List Turn) : Batch σ κ :=
  schedule.foldl (turn interner backend options) batch

/-- Finishes files one after the other. -/
def finish (shared : Shared σ) : List (String × Stage κ) → List FileResult × Shared σ
  | [] => ([], shared)
  | (path, stage) :: files =>
    let (outcome, shared) := stage.finish interner backend options path shared
    let (results, shared) := finish shared files
    (⟨path, outcome⟩ :: results, shared)

/-- What files of a workspace are compiled to, and what is shared in the end. -/
def results (workspace : Workspace) (paths : List String) (schedule : List Turn) :
    List FileResult × Shared σ :=
  let batch := (start interner workspace paths).run interner backend options schedule
  finish interner backend options batch.shared batch.files

end Batch

/-- Compiles files of a workspace side by side, in the order of the given
turns. -/
def compileTogether {σ κ : Type} [DecidableEq κ] (interner : Interner σ κ)
    (workspace : Workspace) (backend : Backend) (options : CompileOptions) (paths : List String)
    (schedule : List Turn) : CompilationResult :=
  ⟨(Batch.results interner backend options workspace paths schedule).1, options.emitEstree⟩

/-- Compiles files of a workspace, all with one table of names. -/
def compile (workspace : Workspace) (backend : Backend) (options : CompileOptions)
    (paths : List String) : CompilationResult :=
  compileTogether NameTable.interner workspace backend options paths []

/-- The workspace after files were compiled: parser commands may change files. -/
def workspaceAfter (workspace : Workspace) (backend : Backend) (options : CompileOptions)
    (paths : List String) : Workspace :=
  (Batch.results NameTable.interner backend options workspace paths []).2.workspace

end EsFront
