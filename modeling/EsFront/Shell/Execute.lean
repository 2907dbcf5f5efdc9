/-
A launcher for a system with a shell and small tools.

Only the command line has it, for runs where no other launcher is given. What is
compiled is told for all launchers.

* `execute` — runs a program.
-/
import EsFront.Shell.Run

namespace EsFront.Shell

/-- Bounds the depth of what a script does. -/
def scriptFuel : Nat := 20000

/-- Runs a program in a workspace, or tells why it cannot be started. A shell
that is ended by a signal passes it on. -/
def execute : Launcher := fun workspace program args =>
  if (program :: args).any fun word => word.toList.contains (Char.ofNat 0) then
    .error .nullInArgument
  else
    match Program.find workspace program with
    | .error reason => .error reason
    | .ok found =>
      let m := runProgram scriptFuel found program args { workspace, process := 0 }
      let left := { m.workspace with here := workspace.here }
      let status := match m.flow with
        | .killed signal => .signal signal
        | _ => .code m.status
      .ok ⟨left, status, .ofBytes (m.buffer 1), .ofBytes (m.buffer 2)⟩

end EsFront.Shell
