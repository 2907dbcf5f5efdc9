/-
Files of a run do not influence each other.

The files of a run share the workspace and one table of names, and their steps
may be taken in any order. A parser command may do anything to the workspace,
so one thing is asked of it: that parsing a file of the run leaves the files of
the run alone (`Backend.LeavesAlone`). Then, at every moment, each file is where
it would be by itself (`Stage.Follows`), because each walk finds what it finds
by itself. This is kept by every step, and so by every schedule:

* `Backend.alike_of_leaves` — what files hold and are parsed to, after any parses;
* `Stage.Follows.step`, `Stage.Follows.finish` — the steps of one file;
* `Batch.follows_turn`, `Batch.follows_run` — the turns of all;
* `compileTogether_eq` — what all of them are compiled to in the end.

Main statement: `together_eq_alone`.
-/
import EsFront.Pipeline.Batch
import EsFront.Proofs.Scope.Parallel

namespace EsFront

/-! ### Parsers that leave files alone -/

namespace Backend

/-- The given files hold the same in both workspaces, and are parsed to the
same. -/
structure Alike (backend : Backend) (paths : List String) (workspace later : Workspace) : Prop where
  holds : ∀ path ∈ paths, later.readText path = workspace.readText path
  gives : ∀ path ∈ paths, ∀ text,
    (backend.parse later path text).1 = (backend.parse workspace path text).1

/-- The workspaces that parsing the given files may lead to, one after the other
and in any order. -/
inductive Leads (backend : Backend) (paths : List String) (workspace : Workspace) :
    Workspace → Prop where
  | refl : Leads backend paths workspace workspace
  | parse {later : Workspace} {path : String} (h : Leads backend paths workspace later)
    (hpath : path ∈ paths) (text : String) :
    Leads backend paths workspace (backend.parse later path text).2

/-- To parse one of the given files changes neither what any of them holds nor
what any of them is parsed to. -/
def LeavesAlone (backend : Backend) (paths : List String) (workspace : Workspace) : Prop :=
  ∀ later, backend.Leads paths workspace later → ∀ path ∈ paths, ∀ text,
    backend.Alike paths later (backend.parse later path text).2

variable {backend : Backend} {paths part : List String} {workspace later last : Workspace}

theorem Alike.refl : backend.Alike paths workspace workspace :=
  ⟨fun _ _ => rfl, fun _ _ _ => rfl⟩

theorem Alike.trans (h : backend.Alike paths workspace later)
    (h' : backend.Alike paths later last) : backend.Alike paths workspace last where
  holds path hpath := (h'.holds path hpath).trans (h.holds path hpath)
  gives path hpath text := (h'.gives path hpath text).trans (h.gives path hpath text)

theorem Leads.trans (h : backend.Leads paths workspace later)
    (h' : backend.Leads paths later last) : backend.Leads paths workspace last := by
  induction h' with
  | refl => exact h
  | parse _ hpath text ih => exact .parse ih hpath text

/-- What one parse leaves alone, any number of them does. -/
theorem alike_of_leads (halone : backend.LeavesAlone paths workspace)
    (h : backend.Leads paths workspace later) : backend.Alike paths workspace later := by
  induction h with
  | refl => exact .refl
  | parse h hpath text ih => exact ih.trans (halone _ h _ hpath text)

/-- Fewer files are left alone too. -/
theorem LeavesAlone.mono (halone : backend.LeavesAlone paths workspace) (hpart : part ⊆ paths) :
    backend.LeavesAlone part workspace := by
  have hleads : ∀ {later}, backend.Leads part workspace later →
      backend.Leads paths workspace later := by
    intro later h
    induction h with
    | refl => exact .refl
    | parse h hpath text ih => exact .parse ih (hpart hpath) text
  intro later h path hpath text
  have halike := halone later (hleads h) path (hpart hpath) text
  exact ⟨fun other hother => halike.holds other (hpart hother),
    fun other hother => halike.gives other (hpart hother)⟩

/-- A source that does not change the workspace leaves everything alone. -/
theorem leavesAlone_of_parse_eq
    (h : ∀ later path text, (backend.parse later path text).2 = later) :
    backend.LeavesAlone paths workspace := by
  intro later _ path _ text
  rw [h]
  exact .refl

theorem json_leavesAlone : json.LeavesAlone paths workspace :=
  leavesAlone_of_parse_eq fun _ _ _ => rfl

/-- So does a command that changes no file. -/
theorem external_leavesAlone {launch : Launcher} {c : ParserCommand}
    (h : ∀ later args done, launch later c.program args = .ok done → done.workspace = later) :
    (external launch c).LeavesAlone paths workspace := by
  refine leavesAlone_of_parse_eq fun later path text => ?_
  dsimp only [external]
  cases hrun : launch later c.program (c.args ++ [path]) with
  | error reason => rfl
  | ok done => exact h later _ done hrun

namespace Alike

variable {path : String}

theorem readSource_eq (h : backend.Alike paths workspace later) (hpath : path ∈ paths) :
    readSource later path = readSource workspace path := by
  unfold readSource
  rw [h.holds path hpath]

theorem importSource_eq (h : backend.Alike paths workspace later) (hpath : path ∈ paths)
    (text : String) :
    (importSource later backend path text).1 = (importSource workspace backend path text).1 := by
  unfold importSource
  dsimp only
  rw [h.gives path hpath text]

end Alike

end Backend

/-! ### One file -/

section file

variable {σ κ : Type} {interner : Interner σ κ} {backend : Backend} {options : CompileOptions}
  {paths : List String} {workspace : Workspace} {path : String} {shared later last : Shared σ}
  {stage : Stage κ}

theorem importFile_of_read {text : String} (h : readSource workspace path = .ok text) :
    importFile workspace backend path = (importSource workspace backend path text).1 := by
  unfold importFile
  rw [h]
  rfl

theorem importFile_of_error {reason : PipelineError}
    (h : readSource workspace path = .error reason) :
    importFile workspace backend path = .error reason := by
  unfold importFile
  rw [h]
  rfl

namespace Shared

/-- What is shared went on by parses of the given files and by further names. -/
structure Extends (interner : Interner σ κ) (backend : Backend) (paths : List String)
    (shared later : Shared σ) : Prop where
  leads : backend.Leads paths shared.workspace later.workspace
  grows : interner.Grows shared.table later.table

theorem Extends.refl : shared.Extends interner backend paths shared := ⟨.refl, .refl⟩

theorem Extends.trans (h : shared.Extends interner backend paths later)
    (h' : later.Extends interner backend paths last) :
    shared.Extends interner backend paths last :=
  ⟨h.leads.trans h'.leads, h.grows.trans h'.grows⟩

theorem extends_table {table : σ} (h : interner.Grows shared.table table) :
    shared.Extends interner backend paths { shared with table } := ⟨.refl, h⟩

theorem extends_parse (hpath : path ∈ paths) (text : String) :
    shared.Extends interner backend paths
      { shared with workspace := (importSource shared.workspace backend path text).2 } :=
  ⟨.parse .refl hpath text, .refl⟩

end Shared

namespace Stage

/-- The file is as far as it would be in the given workspace by itself. -/
def Follows (interner : Interner σ κ) (backend : Backend) (options : CompileOptions)
    (workspace : Workspace) (table : σ) (path : String) : Stage κ → Prop
  | .listed => True
  | .loaded text => readSource workspace path = .ok text
  | .walking walk => ∃ program, importFile workspace backend path = .ok program ∧
    walk.Follows interner table (program, options.events program)
  | .failed reason => importFile workspace backend path = .error reason

theorem Follows.mono {table later : σ}
    (h : stage.Follows interner backend options workspace table path)
    (hgrows : interner.Grows table later) :
    stage.Follows interner backend options workspace later path := by
  cases stage with
  | listed => trivial
  | loaded text => exact h
  | walking walk =>
    obtain ⟨program, himport, hwalk⟩ := h
    exact ⟨program, himport, hwalk.mono hgrows⟩
  | failed reason => exact h

theorem follows_ofText {table : σ} :
    (ofText (readSource workspace path) : Stage κ).Follows interner backend options workspace
      table path := by
  cases hread : readSource workspace path with
  | error reason => exact importFile_of_error hread
  | ok text => exact hread

theorem follows_ofProgram {table : σ} :
    (ofProgram options (importFile workspace backend path) : Stage κ).Follows interner backend
      options workspace table path := by
  cases himport : importFile workspace backend path with
  | error reason => exact himport
  | ok program => exact ⟨program, himport, Walk.follows_start _⟩

variable [DecidableEq κ]

theorem extends_step (hpath : path ∈ paths) :
    shared.Extends interner backend paths (stage.step interner backend options path shared).2 := by
  cases stage with
  | listed => exact .refl
  | loaded text => exact Shared.extends_parse hpath text
  | walking walk =>
    obtain ⟨program, rest, live⟩ := walk
    cases rest with
    | nil => exact .refl
    | cons event rest => exact Shared.extends_table (Live.grows_stepIn live event)
  | failed reason => exact .refl

/-- One step of a file, in a workspace where it holds and is parsed to the same. -/
theorem Follows.step (halike : backend.Alike paths workspace shared.workspace)
    (hpath : path ∈ paths)
    (h : stage.Follows interner backend options workspace shared.table path) :
    (stage.step interner backend options path shared).1.Follows interner backend options workspace
      (stage.step interner backend options path shared).2.table path := by
  cases stage with
  | listed =>
    unfold Stage.step
    rw [halike.readSource_eq hpath]
    exact follows_ofText
  | loaded text =>
    unfold Stage.step
    dsimp only
    rw [halike.importSource_eq hpath, ← importFile_of_read h]
    exact follows_ofProgram
  | walking walk =>
    obtain ⟨program, himport, hwalk⟩ := h
    obtain ⟨subject, rest, live⟩ := walk
    cases rest with
    | nil => exact ⟨program, himport, hwalk⟩
    | cons event rest => exact ⟨program, himport, hwalk.step⟩
  | failed reason => exact h

theorem extends_finishWalk (options : CompileOptions) (path : String) (walk : Walk κ Program) :
    shared.Extends interner backend paths (finishWalk interner options path shared walk).2 :=
  Shared.extends_table (Live.grows_runIn walk.live walk.rest)

/-- A file whose walk is finished is written as it is by itself. -/
theorem finishWalk_eq {program : Program} {walk : Walk κ Program}
    (h : walk.Follows interner shared.table (program, options.events program)) :
    (finishWalk interner options path shared walk).1 = compileProgram options path program := by
  unfold finishWalk compileProgram
  dsimp only
  rw [h.resolution_eq, h.subject]

theorem extends_finishText (hpath : path ∈ paths) (text : String) :
    shared.Extends interner backend paths
      (finishText interner backend options path shared text).2 := by
  have hparse : shared.Extends interner backend paths _ := Shared.extends_parse hpath text
  unfold finishText
  dsimp only
  split
  · exact hparse
  · exact hparse.trans (extends_finishWalk options path _)

theorem finishText_eq (text : String) :
    (finishText interner backend options path shared text).1
      = (importSource shared.workspace backend path text).1.map (compileProgram options path) := by
  unfold finishText
  dsimp only
  cases (importSource shared.workspace backend path text).1 with
  | error reason => rfl
  | ok program => exact congrArg _ (finishWalk_eq (Walk.follows_start _))

theorem extends_finish (hpath : path ∈ paths) :
    shared.Extends interner backend paths
      (stage.finish interner backend options path shared).2 := by
  cases stage with
  | listed =>
    unfold Stage.finish
    dsimp only
    split
    · exact .refl
    · exact extends_finishText hpath _
  | loaded text => exact extends_finishText hpath text
  | walking walk => exact extends_finishWalk options path walk
  | failed reason => exact .refl

/-- A file that is finished is compiled as it is by itself. -/
theorem Follows.finish_eq (halike : backend.Alike paths workspace shared.workspace)
    (hpath : path ∈ paths)
    (h : stage.Follows interner backend options workspace shared.table path) :
    (stage.finish interner backend options path shared).1
      = compileFile workspace backend options path := by
  unfold compileFile
  cases stage with
  | listed =>
    unfold Stage.finish
    rw [halike.readSource_eq hpath]
    cases hread : readSource workspace path with
    | error reason =>
      rw [importFile_of_error hread]
      rfl
    | ok text =>
      dsimp only
      rw [finishText_eq, halike.importSource_eq hpath, importFile_of_read hread]
  | loaded text =>
    unfold Stage.finish
    rw [finishText_eq, halike.importSource_eq hpath, importFile_of_read h]
  | walking walk =>
    obtain ⟨program, himport, hwalk⟩ := h
    rw [himport]
    exact congrArg _ (finishWalk_eq hwalk)
  | failed reason =>
    rw [show importFile workspace backend path = .error reason from h]
    rfl

end Stage

end file

/-! ### All files -/

section files

variable {σ κ : Type} {interner : Interner σ κ} {backend : Backend} {options : CompileOptions}
  {paths : List String} {workspace : Workspace} {batch : Batch σ κ} {shared : Shared σ}

namespace Batch

/-- Every file is as far as it would be in the given workspace by itself, and
what is shared came from there by parses of the files. -/
structure Follows (interner : Interner σ κ) (backend : Backend) (options : CompileOptions)
    (paths : List String) (workspace : Workspace) (batch : Batch σ κ) : Prop where
  leads : backend.Leads paths workspace batch.shared.workspace
  paths : batch.files.map (·.1) = paths
  stages : ∀ file ∈ batch.files,
    file.2.Follows interner backend options workspace batch.shared.table file.1

theorem follows_start :
    (start interner workspace paths).Follows interner backend options paths workspace where
  leads := .refl
  paths := by
    unfold start
    rw [List.map_map]
    exact List.map_id' paths
  stages := by
    intro file hfile
    obtain ⟨path, -, rfl⟩ := List.mem_map.mp hfile
    trivial

/-- The path of an entry stays when its stage is replaced. -/
theorem map_fst_set {α β : Type} {entries : List (α × β)} {i : Nat} {a : α} {b : β}
    (h : entries[i]? = some (a, b)) (c : β) :
    (entries.set i (a, c)).map (·.1) = entries.map (·.1) := by
  have hname : (entries.map (·.1))[i]? = some a := by
    rw [List.getElem?_map, h]
    rfl
  obtain ⟨hi, rfl⟩ := List.getElem?_eq_some_iff.mp hname
  rw [List.map_set]
  exact List.set_getElem_self hi

variable [DecidableEq κ]

theorem follows_turn (halone : backend.LeavesAlone paths workspace)
    (h : batch.Follows interner backend options paths workspace) (turn : Turn) :
    (batch.turn interner backend options turn).Follows interner backend options paths
      workspace := by
  cases turn with
  | name text =>
    have hgrows : interner.Grows batch.shared.table _ := Interner.grows_intern text
    exact ⟨h.leads, h.paths, fun file hfile => (h.stages file hfile).mono hgrows⟩
  | step i =>
    unfold Batch.turn
    dsimp only
    split
    · rename_i path stage hentry
      have hmem := List.mem_of_getElem? hentry
      have hpath : path ∈ paths := h.paths ▸ List.mem_map_of_mem hmem
      have halike := Backend.alike_of_leads halone h.leads
      have hextends : batch.shared.Extends interner backend paths
          (stage.step interner backend options path batch.shared).2 := Stage.extends_step hpath
      refine ⟨h.leads.trans hextends.leads, (map_fst_set hentry _).trans h.paths, ?_⟩
      intro file hfile
      rcases List.mem_or_eq_of_mem_set hfile with hother | rfl
      · -- for all files but one, the turn only adds to the table
        exact (h.stages file hother).mono hextends.grows
      · exact (h.stages _ hmem).step halike hpath
    · exact h

theorem follows_run (halone : backend.LeavesAlone paths workspace)
    (h : batch.Follows interner backend options paths workspace) (schedule : List Turn) :
    (batch.run interner backend options schedule).Follows interner backend options paths
      workspace := by
  induction schedule generalizing batch with
  | nil => exact h
  | cons turn schedule ih => exact ih (follows_turn halone h turn)

/-- What files are compiled to when they are finished. -/
theorem finish_eq (halone : backend.LeavesAlone paths workspace) {files : List (String × Stage κ)}
    (hpaths : ∀ file ∈ files, file.1 ∈ paths)
    (hleads : backend.Leads paths workspace shared.workspace)
    (hstages : ∀ file ∈ files,
      file.2.Follows interner backend options workspace shared.table file.1) :
    (finish interner backend options shared files).1
      = files.map fun file => ⟨file.1, compileFile workspace backend options file.1⟩ := by
  induction files generalizing shared with
  | nil => rfl
  | cons file files ih =>
    obtain ⟨path, stage⟩ := file
    obtain ⟨hpath, hpaths⟩ := List.forall_mem_cons.mp hpaths
    obtain ⟨hstage, hstages⟩ := List.forall_mem_cons.mp hstages
    have hextends : shared.Extends interner backend paths
        (stage.finish interner backend options path shared).2 := Stage.extends_finish hpath
    -- the other files go on with what this one leaves
    have hrest := ih hpaths (hleads.trans hextends.leads) fun file hfile =>
      (hstages file hfile).mono hextends.grows
    unfold Batch.finish
    dsimp only
    rw [hrest, hstage.finish_eq (Backend.alike_of_leads halone hleads) hpath]
    rfl

end Batch

variable [DecidableEq κ]

/-- Whatever the schedule, every file is compiled as it is by itself. -/
theorem compileTogether_eq (interner : Interner σ κ) (options : CompileOptions)
    (schedule : List Turn) (halone : backend.LeavesAlone paths workspace) :
    compileTogether interner workspace backend options paths schedule
      = ⟨paths.map fun path => ⟨path, compileFile workspace backend options path⟩,
        options.emitEstree⟩ := by
  have hfollows : ((Batch.start interner workspace paths).run interner backend options
      schedule).Follows interner backend options paths workspace :=
    Batch.follows_run halone Batch.follows_start schedule
  unfold compileTogether Batch.results
  dsimp only
  have hpaths : ∀ file ∈ ((Batch.start interner workspace paths).run interner backend options
      schedule).files, file.1 ∈ paths :=
    fun file hfile => hfollows.paths ▸ List.mem_map_of_mem hfile
  rw [Batch.finish_eq halone hpaths hfollows.leads hfollows.stages]
  congr 1
  conv => rhs; rw [← hfollows.paths]
  rw [List.map_map]
  rfl

/-- Programs that share a table of names are resolved, and files of a run are
compiled, as each is alone with a table of its own, in whatever order their steps
are taken and whatever other names come into the table. -/
theorem together_eq_alone (interner : Interner σ κ) (schedule : List Turn) :
    (∀ (options : ResolveOptions) (programs : List Program),
      resolveTogether interner options programs schedule
          = programs.flatMap (resolveTogether interner options [·] []) ∧
        resolveTogether interner options programs schedule
          = programs.map (Program.resolve options)) ∧
    ∀ (workspace : Workspace) (backend : Backend) (options : CompileOptions) (paths : List String),
      backend.LeavesAlone paths workspace →
      (compileTogether interner workspace backend options paths schedule).files
          = paths.flatMap
            (fun path => (compileTogether interner workspace backend options [path] []).files) ∧
        (compileTogether interner workspace backend options paths schedule).files
          = paths.map (fun path => ⟨path, compileFile workspace backend options path⟩) ∧
        (compileTogether interner workspace backend options paths schedule).output
          = (compile workspace backend options paths).output := by
  constructor
  · intro options programs
    have halone : ∀ p, resolveTogether interner options [p] [] = [p.resolve options] :=
      fun p => resolveTogether_eq interner options [p] []
    rw [resolveTogether_eq]
    refine ⟨?_, rfl⟩
    simp only [halone]
    exact List.map_eq_flatMap
  · intro workspace backend options paths hleaves
    have halone : ∀ path ∈ paths,
        (compileTogether interner workspace backend options [path] []).files
          = [⟨path, compileFile workspace backend options path⟩] := by
      intro path hpath
      have hone : backend.LeavesAlone [path] workspace :=
        hleaves.mono (List.cons_subset.mpr ⟨hpath, List.nil_subset _⟩)
      rw [compileTogether_eq interner options [] hone]
      rfl
    rw [compile, compileTogether_eq interner options schedule hleaves,
      compileTogether_eq NameTable.interner options [] hleaves]
    refine ⟨?_, rfl, rfl⟩
    rw [List.flatMap_congr halone]
    exact List.map_eq_flatMap

end files

/-! ### Two files -/

/-- A launcher with one program, which writes out the file that its last argument
names. -/
def writesOut : Launcher := fun workspace _ args =>
  let path := args.getLast?.getD ""
  match workspace.read path with
  | .ok content => .ok ⟨workspace, .code 0, content, .text ""⟩
  | .error reason =>
    .ok ⟨workspace, .code 1, .text "", .text ("cat: " ++ path ++ ": " ++ reason.reason ++ "\n")⟩

/-- An empty program, and one with a statement. -/
def twoFiles : Workspace where
  files :=
    [(["a.json"], .text "\x7b\"type\":\"Program\",\"body\":[]\x7d"),
      (["b.json"], .text
        "\x7b\"type\":\"Program\",\"body\":[\x7b\"type\":\"DebuggerStatement\"\x7d]\x7d")]

/-- The second file is read first and parsed last, and another name comes into the
table. -/
theorem twoFiles_alone :
    let cat := Backend.external writesOut ⟨"cat", []⟩
    let paths := ["a.json", "b.json"]
    let together := compileTogether NameTable.interner twoFiles cat {} paths
      [.step 1, .name "x", .step 0, .step 0, .step 1]
    cat.LeavesAlone paths twoFiles ∧
      together.files = paths.map (fun path => ⟨path, compileFile twoFiles cat {} path⟩) ∧
      together.output = "debugger;\n" := by
  have halone : (Backend.external writesOut ⟨"cat", []⟩).LeavesAlone ["a.json", "b.json"]
      twoFiles := by
    refine Backend.external_leavesAlone fun later args done hdone => ?_
    unfold writesOut at hdone
    dsimp only at hdone
    split at hdone <;> cases hdone <;> rfl
  obtain ⟨-, hfiles, houtput⟩ := (together_eq_alone NameTable.interner
    [.step 1, .name "x", .step 0, .step 0, .step 1]).2 twoFiles _ {} _ halone
  exact ⟨halone, hfiles, houtput.trans (by decide +kernel)⟩

/-- The same, but it also puts the second file in place of the first one. -/
def writesOver : Launcher := fun workspace program args =>
  (writesOut workspace program args).map fun done =>
    { done with workspace :=
      done.workspace.put ["a.json"] ((done.workspace.fileAt? ["b.json"]).getD (.text "")) }

-- what does not leave the other file alone makes the order of the parses matter
example :
    let clash := Backend.external writesOver ⟨"sh", ["over.sh"]⟩
    let paths := ["a.json", "b.json"]
    (compile twoFiles clash {} paths).output = "debugger;\n" ∧
      (compileTogether NameTable.interner twoFiles clash {} paths [.step 1, .step 1]).output
        = "debugger;\ndebugger;\n" := by
  decide +kernel

end EsFront
