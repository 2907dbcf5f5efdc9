/-
Working directories.

A workspace is a directory tree, given by its files under their paths. Paths
are relative to it and are looked up name by name: a name must be found in a
directory, `.` stays and `..` goes up. What can go wrong is a `SystemError`.

* `Workspace.find` — what a path leads to;
* `Workspace.readText`, `Workspace.writeText` — whole files.

Absolute paths lead out of the workspace, to directories of the system and to
its devices.
-/
import EsFront.Workspace.Content

namespace EsFront

/-- Reasons why the system refuses a request. -/
inductive SystemError where
  | notFound
  | permissionDenied
  | notADirectory
  | isADirectory
  | nameTooLong
  /-- A path with a null character. -/
  | nullInName
  /-- A word of a command with a null character. -/
  | nullInArgument
  /-- A file that is not UTF-8. -/
  | invalidText
deriving DecidableEq, Repr, Inhabited

namespace SystemError

/-- What the system calls it. -/
def reason : SystemError → String
  | notFound => "No such file or directory"
  | permissionDenied => "Permission denied"
  | notADirectory => "Not a directory"
  | isADirectory => "Is a directory"
  | nameTooLong => "File name too long"
  | nullInName => "file name contained an unexpected NUL byte"
  | nullInArgument => "nul byte found in provided data"
  | invalidText => "stream did not contain valid UTF-8"

/-- The number of the error, for those that the system itself reports. -/
def number? : SystemError → Option Nat
  | notFound => some 2
  | permissionDenied => some 13
  | notADirectory => some 20
  | isADirectory => some 21
  | nameTooLong => some 36
  | nullInName | nullInArgument | invalidText => none

/-- The reason with its number. -/
def message (e : SystemError) : String :=
  match e.number? with
  | some n => e.reason ++ " (os error " ++ toString n ++ ")"
  | none => e.reason

end SystemError

/-- A path from the top of the workspace, outermost directory first. -/
abbrev Path := List String

/-- A directory tree. A path is listed at most once. -/
structure Workspace where
  files : List (Path × Content)
  /-- The directory where relative paths start; none if it lies outside. -/
  here : Option Path := some []
deriving DecidableEq, Repr, Inhabited

/-- Devices of the system. -/
inductive Device where
  /-- Holds nothing and keeps nothing. -/
  | null
  /-- What a program prints. -/
  | output
  /-- What a program reports. -/
  | errors
deriving DecidableEq, Repr, Inhabited

/-- What a path leads to. -/
inductive Found where
  | file (path : Path) (content : Content)
  /-- A directory: its path in the workspace, if it lies there. -/
  | directory (path : Option Path)
  | device (device : Device)
  /-- Nothing, but a file of that name could be made. -/
  | free (path : Path)
  /-- Nothing, and the path asks for a directory. -/
  | missingDirectory
deriving DecidableEq, Repr, Inhabited

namespace Workspace

def empty : Workspace := { files := [] }

/-- The content of the file at a path. -/
def fileAt? (workspace : Workspace) (path : Path) : Option Content :=
  (workspace.files.find? (·.1 = path)).map (·.2)

/-- Whether a directory lies at a path: the top does, and whatever leads to a
file. -/
def isDirectory (workspace : Workspace) (path : Path) : Bool :=
  path.isEmpty || workspace.files.any fun (p, _) => path.isPrefixOf p && p ≠ path

/-- The greatest number of bytes of a name. -/
def nameLimit : Nat := 255

/-- The greatest number of bytes of a whole path. -/
def pathLimit : Nat := 4095

/-- Follows the names of a path from a directory. -/
def follow (workspace : Workspace) (here : Path) : List String → Except SystemError Found
  | [] => .ok (.directory (some here))
  | name :: rest =>
    if name = "" || name = "." then follow workspace here rest
    else if name = ".." then
      if here.isEmpty then
        if rest.all fun n => n = "" || n = "." || n = ".." then .ok (.directory none)
        else .error .notFound
      else follow workspace here.dropLast rest
    else if name.utf8ByteSize > nameLimit then .error .nameTooLong
    else
      let next := here ++ [name]
      match workspace.fileAt? next with
      | some content => if rest.isEmpty then .ok (.file next content) else .error .notADirectory
      | none =>
        if workspace.isDirectory next then follow workspace next rest
        else if rest.isEmpty then .ok (.free next)
        else if rest.all (· = "") then .ok .missingDirectory
        else .error .notFound

/-- The directories that every system has. -/
def systemDirectories : List Path :=
  [[], ["bin"], ["dev"], ["etc"], ["home"], ["lib"], ["opt"], ["proc"], ["root"], ["run"],
    ["sbin"], ["sys"], ["tmp"], ["usr"], ["usr", "bin"], ["usr", "lib"], ["usr", "local"],
    ["usr", "local", "bin"], ["usr", "sbin"], ["usr", "share"], ["var"], ["var", "tmp"]]

/-- The devices of the system. -/
def systemDevices : List (Path × Device) :=
  [(["dev", "null"], .null), (["dev", "stdout"], .output), (["dev", "stderr"], .errors)]

/-- Follows the names of an absolute path from a directory of the system. -/
def followSystem (here : Path) : List String → Except SystemError Found
  | [] => .ok (.directory none)
  | name :: rest =>
    if name = "" || name = "." then followSystem here rest
    else if name = ".." then followSystem here.dropLast rest
    else if name.utf8ByteSize > nameLimit then .error .nameTooLong
    else
      let next := here ++ [name]
      match systemDevices.find? (·.1 = next) with
      | some (_, device) =>
        if rest.isEmpty then .ok (.device device) else .error .notADirectory
      | none =>
        if systemDirectories.contains next then followSystem next rest else .error .notFound

/-- The names of a path, slashes between them. -/
def namesOf : List Char → List (List Char)
  | [] => [[]]
  | c :: rest =>
    if c = '/' then [] :: namesOf rest
    else match namesOf rest with
      | name :: names => (c :: name) :: names
      | [] => [[c]]

/-- What a path leads to. -/
def find (workspace : Workspace) (path : String) : Except SystemError Found :=
  if path.isEmpty then .error .notFound
  else if path.toList.contains (Char.ofNat 0) then .error .nullInName
  else if path.utf8ByteSize > pathLimit then .error .nameTooLong
  else
    let names := (namesOf path.toList).map String.ofList
    match if path.toList.head? = some '/' then none else workspace.here with
    | some here => follow workspace here names
    | none => followSystem [] names

/-- The names in a directory, in order. -/
def namesIn (workspace : Workspace) (directory : Path) : List String :=
  let names := workspace.files.filterMap fun (path, _) =>
    if directory.isPrefixOf path then path[directory.length]? else none
  names.eraseDups.mergeSort (fun a b => a ≤ b)

/-- The content of a file. -/
def read (workspace : Workspace) (path : String) : Except SystemError Content :=
  match workspace.find path with
  | .error reason => .error reason
  | .ok (.file _ content) => .ok content
  | .ok (.device _) => .ok (.text "")
  | .ok (.directory _) => .error .isADirectory
  | .ok (.free _) | .ok .missingDirectory => .error .notFound

/-- The text of a file. -/
def readText (workspace : Workspace) (path : String) : Except SystemError String :=
  match workspace.read path with
  | .error reason => .error reason
  | .ok (.text s) => .ok s
  | .ok (.binary _) => .error .invalidText

/-- Whether a path leads to anything. -/
def pathExists (workspace : Workspace) (path : String) : Bool :=
  match workspace.find path with
  | .ok (.file ..) | .ok (.directory _) | .ok (.device _) => true
  | .ok (.free _) | .ok .missingDirectory | .error _ => false

/-- Puts a file at a path, in place of one that is there. -/
def put (workspace : Workspace) (path : Path) (content : Content) : Workspace :=
  { workspace with files := workspace.files.filter (·.1 ≠ path) ++ [(path, content)] }

/-- Writes a text to a file, which is made if need be. -/
def writeText (workspace : Workspace) (path : String) (text : String) :
    Except SystemError Workspace :=
  match workspace.find path with
  | .error reason => .error reason
  | .ok (.file p _) | .ok (.free p) => .ok (workspace.put p (.text text))
  | .ok (.device _) => .ok workspace
  | .ok (.directory _) | .ok .missingDirectory => .error .isADirectory

end Workspace

end EsFront
