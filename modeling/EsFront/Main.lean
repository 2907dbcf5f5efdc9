/-
The command line tool.

The files that a run may read are loaded, the run itself is pure, and what it
changed is written back.
-/
import EsFront.CommandLine.Run

namespace EsFront

/-- Adds a file of the system to the workspace, if it can be read. -/
def loadFile (workspace : Workspace) (path : String) : IO Workspace := do
  match (workspace.find path).toOption with
  | some (.free p) =>
    try
      let bytes ← IO.FS.readBinFile path
      return workspace.put p (.ofBytes bytes.toList)
    catch _ => return workspace
  | _ => return workspace

/-- The files that a run with the given arguments may read. -/
def loadWorkspace (words : List String) : IO Workspace := do
  match Arguments.read words with
  | .error _ => return .empty
  | .ok args =>
    let workspace ← loadFile .empty (args.config.getD defaultConfigFile)
    let config := ((Session.loadConfig workspace args).toOption.getD {}).merge args.overrides
    config.inputs.foldlM loadFile workspace

/-- Writes the files that a run has changed. -/
def storeWorkspace (before after : Workspace) : IO Unit := do
  for (path, content) in after.files do
    if before.fileAt? path ≠ some content then
      IO.FS.writeBinFile ("/".intercalate path) ⟨content.bytes.toArray⟩

end EsFront

open EsFront in
/-- Runs the tool and ends with its exit code. -/
def main (words : List String) : IO UInt32 := do
  let start ← IO.monoMsNow
  let workspace ← loadWorkspace words
  let session := runCommandLine workspace words
  let stop ← IO.monoMsNow
  let session := session.finish ((stop - start) / 10)
  storeWorkspace workspace session.workspace
  (← IO.getStdout).putStr session.printed
  (← IO.getStderr).putStr session.report
  return session.exitCode.toUInt32
