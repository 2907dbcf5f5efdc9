/-
Tests.

`test` tells by its exit status whether a condition on texts, numbers or files
holds.
-/
import EsFront.Shell.Tool.Print

namespace EsFront.Shell.Tool

/-- Reasons why a condition cannot be tested. -/
inductive TestError where
  | missingBracket
  /-- A text with no operator before or after it, and what stands there. -/
  | unexpectedOperator (text : String) (rest : List String)
  | illegalNumber (text : String)
  | argumentExpected (operator : String)
  | closingExpected
deriving DecidableEq, Repr

/-- The reason in words. -/
def TestError.message (dialect : Dialect) (e : TestError) : String :=
  if dialect = .program then
    match e with
    | missingBracket => "missing ']'"
    | unexpectedOperator text [] => "extra argument " ++ quotedName text
    | unexpectedOperator text [last] =>
      if text.toList.head? = some '-' then quotedName text ++ ": unary operator expected"
      else "missing argument after " ++ quotedName last
    | unexpectedOperator _ (second :: _) => quotedName second ++ ": binary operator expected"
    | illegalNumber text => "invalid integer " ++ quotedName text
    | argumentExpected operator => "missing argument after " ++ quotedName operator
    | closingExpected => "')' expected"
  else
    match e with
    | missingBracket => "missing ]"
    | unexpectedOperator text _ => text ++ ": unexpected operator"
    | illegalNumber text => "Illegal number: " ++ text
    | argumentExpected operator => operator ++ ": argument expected"
    | closingExpected => "closing paren expected"

namespace Condition

def unaryOperators : List String :=
  ["-b", "-c", "-d", "-e", "-f", "-g", "-h", "-k", "-L", "-n", "-p", "-r", "-S", "-s", "-t", "-u",
    "-w", "-x", "-z"]

def binaryOperators : List String :=
  ["=", "!=", "<", ">", "-eq", "-ne", "-lt", "-le", "-gt", "-ge"]

/-- The number that a text gives. -/
def integer (text : String) : Except TestError Int :=
  match (String.ofList (text.toList.filter (· ≠ ' '))).toInt? with
  | some n => if text.toList.contains '_' then .error (.illegalNumber text) else .ok n
  | none => .error (.illegalNumber text)

/-- A condition on one text. -/
def unary (workspace : Workspace) (operator operand : String) : Bool :=
  let found := (workspace.find operand).toOption
  let isDirectory := match found with
    | some (.directory _) => true
    | _ => false
  let isDevice := match found with
    | some (.device _) => true
    | _ => false
  let size := match found with
    | some (.file _ content) => content.bytes.length
    | _ => 0
  let isFile := match found with
    | some (.file ..) => true
    | _ => false
  match operator with
  | "-n" => operand ≠ ""
  | "-z" => operand = ""
  | "-e" | "-r" | "-w" => workspace.pathExists operand
  | "-f" => isFile
  | "-d" | "-x" => isDirectory
  | "-s" => isDirectory || size > 0
  | "-c" => isDevice
  | _ => false

/-- A condition on two texts. -/
def binary (operator left right : String) : Except TestError Bool :=
  let compare := fun (holds : Int → Int → Bool) => do
    let a ← integer left
    let b ← integer right
    Except.ok (holds a b)
  match operator with
  | "=" => .ok (left = right)
  | "!=" => .ok (left ≠ right)
  | "<" => .ok (left < right)
  | ">" => .ok (right < left)
  | "-eq" => compare fun a b => a = b
  | "-ne" => compare fun a b => a ≠ b
  | "-lt" => compare fun a b => a < b
  | "-le" => compare fun a b => a ≤ b
  | "-gt" => compare fun a b => b < a
  | "-ge" => compare fun a b => b ≤ a
  | operator => .error (.unexpectedOperator operator [])

mutual

/-- Reads conditions of which one must hold. -/
def disjunction (workspace : Workspace) :
    Nat → List String → Except TestError (Bool × List String)
  | 0, args => .ok (false, args)
  | fuel + 1, args => do
    let (first, rest) ← conjunction workspace fuel args
    match rest with
    | "-o" :: rest =>
      let (second, rest) ← disjunction workspace fuel rest
      .ok (first || second, rest)
    | _ => .ok (first, rest)

/-- Reads conditions that must all hold. -/
def conjunction (workspace : Workspace) :
    Nat → List String → Except TestError (Bool × List String)
  | 0, args => .ok (false, args)
  | fuel + 1, args => do
    let (first, rest) ← primary workspace fuel args
    match rest with
    | "-a" :: rest =>
      let (second, rest) ← conjunction workspace fuel rest
      .ok (first && second, rest)
    | _ => .ok (first, rest)

/-- Reads one condition. -/
def primary (workspace : Workspace) :
    Nat → List String → Except TestError (Bool × List String)
  | 0, args => .ok (false, args)
  | fuel + 1, args =>
    match args with
    | [] => .ok (false, [])
    | [text] => .ok (text ≠ "", [])
    | first :: second :: rest =>
      match if binaryOperators.contains second then rest else [] with
      | right :: rest => do
        let holds ← binary second first right
        .ok (holds, rest)
      | [] =>
        if first = "!" then do
          let (holds, rest) ← primary workspace fuel (second :: rest)
          .ok (!holds, rest)
        else if first = "(" then do
          let (holds, rest) ← disjunction workspace fuel (second :: rest)
          match rest with
          | ")" :: rest => .ok (holds, rest)
          | _ => .error .closingExpected
        else if unaryOperators.contains first then .ok (unary workspace first second, rest)
        else if binaryOperators.contains second then .error (.argumentExpected second)
        else if second = "-a" || second = "-o" || second = ")" then
          .ok (first ≠ "", second :: rest)
        else .error (.unexpectedOperator first (second :: rest))

end

/-- Whether a condition holds. -/
def holds (workspace : Workspace) (args : List String) : Except TestError Bool := do
  let (found, rest) ← disjunction workspace (4 * args.length + 4) args
  match rest with
  | [] => .ok found
  | text :: _ => .error (.unexpectedOperator text [])

end Condition

/-- Tests a condition; with `bracket` it must end in a bracket. -/
def test (dialect : Dialect) (bracket : Bool) (call : Call) : Outcome :=
  let args := call.args
  let result :=
    if bracket && args.getLast? ≠ some "]" then .error .missingBracket
    else Condition.holds call.workspace (if bracket then args.dropLast else args)
  match result with
  | .ok true => Outcome.start call
  | .ok false => { Outcome.start call with status := 1 }
  | .error e => call.failing 2 (call.name ++ ": " ++ e.message dialect)

end EsFront.Shell.Tool
