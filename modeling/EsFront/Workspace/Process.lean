/-
Programs that are run in a workspace.

A program is started with words. When it ends it leaves a status, what it
wrote, and the files. Which programs a system has and what they do is not
settled here: whoever runs one is given a `Launcher`.
-/
import EsFront.Workspace.Basic

namespace EsFront

/-- The signals with their numbers and names. -/
def signals : List (Nat × String) :=
  [(1, "HUP"), (2, "INT"), (3, "QUIT"), (4, "ILL"), (5, "TRAP"), (6, "ABRT"), (7, "BUS"),
    (8, "FPE"), (9, "KILL"), (10, "USR1"), (11, "SEGV"), (12, "USR2"), (13, "PIPE"), (14, "ALRM"),
    (15, "TERM"), (16, "STKFLT"), (17, "CHLD"), (18, "CONT"), (19, "STOP"), (20, "TSTP"),
    (21, "TTIN"), (22, "TTOU"), (23, "URG"), (24, "XCPU"), (25, "XFSZ"), (26, "VTALRM"),
    (27, "PROF"), (28, "WINCH"), (29, "IO"), (30, "PWR"), (31, "SYS")]

/-- How a program ended: by itself with a code, or by a signal. -/
inductive ExitStatus where
  | code (n : Nat)
  | signal (n : Nat)
deriving DecidableEq, Repr, Inhabited

namespace ExitStatus

def isSuccess (status : ExitStatus) : Bool := status = code 0

/-- The status in words. -/
def text : ExitStatus → String
  | code n => "exit status: " ++ toString n
  | signal n =>
    let name := match signals.find? (·.1 = n) with
      | some (_, name) => " (SIG" ++ name ++ ")"
      | none => ""
    "signal: " ++ toString n ++ name

end ExitStatus

/-- What a program leaves when it ends. -/
structure Finished where
  workspace : Workspace
  status : ExitStatus
  output : Content
  /-- What it wrote about errors. -/
  errors : Content
deriving DecidableEq, Repr, Inhabited

/-- A way to run programs: what the program of a name does with arguments in a
workspace, or why it cannot be started. -/
abbrev Launcher := Workspace → String → List String → Except SystemError Finished

end EsFront
