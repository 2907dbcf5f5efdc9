/-
What a shell makes of signals.
-/
import EsFront.Workspace.Process

namespace EsFront.Shell

/-- Whether a signal does not end a program. -/
def isHarmless (signal : Nat) : Bool := [0, 17, 18, 23, 28].contains signal

/-- What a shell says of a program that a signal has ended. -/
def signalReport (signal : Nat) : String :=
  match signal with
  | 1 => "Hangup\n"
  | 2 => "\n"
  | 3 => "Quit\n"
  | 4 => "Illegal instruction\n"
  | 5 => "Trace/breakpoint trap\n"
  | 6 => "Aborted\n"
  | 7 => "Bus error\n"
  | 8 => "Floating point exception\n"
  | 9 => "Killed\n"
  | 10 => "User defined signal 1\n"
  | 11 => "Segmentation fault\n"
  | 12 => "User defined signal 2\n"
  | 13 => ""
  | 14 => "Alarm clock\n"
  | 15 => "Terminated\n"
  | n => "Unknown signal " ++ toString n ++ "\n"

/-- The number of the signal that a text names. -/
def signalNumber? (text : String) : Option Nat :=
  match text.toNat? with
  | some n => if n < 65 && text.toList.all Char.isDigit then some n else none
  | none => (signals.find? (·.2 = text.toUpper)).map (·.1)

end EsFront.Shell
