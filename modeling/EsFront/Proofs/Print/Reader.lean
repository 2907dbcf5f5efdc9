/-
A reader of printed expressions.

It is a reader by precedence over characters, for the spacing that the printer
uses and no other. Every function takes the text and gives what it has read
together with the rest of the text; it goes on with that rest only if it is
shorter, so that the reading ends. The functions are:

* `readPrimary` — names, literals, bracketed expressions and `new`;
* `readChain`, `chainLoop` — member accesses and calls after them; after `new`
  calls are not allowed, since the arguments belong to `new`;
* `readUnary` — operators in front of an operand and after it;
* `readBinary`, `binaryLoop` — operands and the operators between them that
  bind at least as tightly as asked for;
* `readSequence`, `readList` — expressions with commas between them.

The data of the nodes that it makes are blank.
-/
import EsFront.Proofs.Json.Quoted
import EsFront.Proofs.Print.Text

namespace EsFront

/-! ### Words and operators -/

/-- The characters of a name at the start of a text. -/
def wordOf (cs : List Char) : List Char := cs.takeWhile isNameChar

/-- The text after those characters. -/
def afterWord (cs : List Char) : List Char := cs.dropWhile isNameChar

theorem length_afterWord (cs : List Char) : (afterWord cs).length ≤ cs.length :=
  (List.dropWhile_sublist _).length_le

/-- The text after the given character, if it starts with it. -/
def expect (c : Char) : List Char → Option (List Char)
  | [] => none
  | first :: rest => if first = c then some rest else none

/-- The text without a blank at its start. -/
def dropBlank : List Char → List Char
  | ' ' :: rest => rest
  | cs => cs

namespace Joint

def all : List Joint :=
  BinaryOperator.all.map binary ++ [logical .or, logical .and] ++
    AssignmentOperator.all.map assignment

/-- The operator between blanks at the start of a text, and the text after
it. -/
def read? : List Char → Option (Joint × List Char)
  | ' ' :: cs =>
    match cs.dropWhile (· != ' ') with
    | ' ' :: rest =>
      (all.find? (·.text.toList = cs.takeWhile (· != ' '))).map fun joint => (joint, rest)
    | _ => none
  | _ => none

end Joint

/-- An operator in front of an operand: one that can stand before any operand
that binds as tightly, or an increment or decrement. -/
inductive Leading where
  | unary (op : UnaryOperator)
  | update (op : UpdateOperator)

/-- The operator at the start of an operand, and the text after it. -/
def Leading.read? : List Char → Option (Leading × List Char)
  | '+' :: '+' :: cs => some (.update .increment, cs)
  | '-' :: '-' :: cs => some (.update .decrement, cs)
  | '+' :: cs => some (.unary .plus, dropBlank cs)
  | '-' :: cs => some (.unary .minus, dropBlank cs)
  | '!' :: cs => some (.unary .not, cs)
  | '~' :: cs => some (.unary .bitwiseNot, cs)
  | cs =>
    ([.typeOf, .void, .delete].find? fun op : UnaryOperator => op.text.toList = wordOf cs).map
      fun op => (.unary op, dropBlank (afterWord cs))

/-- The operator after an operand, and the text after it. -/
def trailing? : List Char → Option (UpdateOperator × List Char)
  | '+' :: '+' :: cs => some (.increment, cs)
  | '-' :: '-' :: cs => some (.decrement, cs)
  | _ => none

namespace Expr

/-- An identifier of which only the name is known. -/
def name (chars : List Char) : Expr :=
  identifier .blank (String.ofList chars) false .unresolved

/-- The expression that a word by itself stands for. -/
def ofWord (word : List Char) : Expr :=
  if word = "null".toList then literal .blank .null
  else if word = "true".toList then literal .blank (.boolean true)
  else if word = "false".toList then literal .blank (.boolean false)
  else if word = "this".toList then this .blank
  else name word

/-- The number that digits spell. -/
def ofDigits? (digits : List Char) : Option Expr :=
  (Double.ofNat (Nat.ofDigitChars 10 digits 0)).map fun d => literal .blank (.number d)

/-- The text in front of a closing quote. -/
def readText (cs : List Char) : Option (Expr × List Char) :=
  (Json.unquoteFrom (.inText "") cs).map fun (text, rest) =>
    (literal .blank (.string text), rest)

end Expr

/-! ### Expressions -/

open EsFront.Expr in
mutual

def readPrimary (cs : List Char) : Option (Expr × List Char) :=
  match cs with
  | '(' :: cs => do
    let (e, rest) ← readSequence cs
    let rest ← expect ')' rest
    some (e, rest)
  | '[' :: cs => do
    let (elements, rest) ← readElements cs
    some (array .blank elements, rest)
  | '\x7b' :: '\x7d' :: cs => some (object .blank [], cs)
  | '\x7b' :: ' ' :: cs => do
    let (members, rest) ← readMembers cs
    some (object .blank members, rest)
  | '"' :: cs => readText cs
  | cs =>
    if (wordOf cs).head?.any Char.isDigit then
      (ofDigits? (wordOf cs)).map fun e => (e, afterWord cs)
    else if wordOf cs = "new".toList then do
      let after ← expect ' ' (afterWord cs)
      if after.length < cs.length then
        let (callee, middle) ← readChain false after
        let middle ← expect '(' middle
        if middle.length < cs.length then
          let (arguments, rest) ← readArguments middle
          some (new .blank callee arguments, rest)
        else none
      else none
    else if wordOf cs = [] then none
    else some (ofWord (wordOf cs), afterWord cs)
termination_by 6 * cs.length

/-- A primary expression and what is chained to it. -/
def readChain (calls : Bool) (cs : List Char) : Option (Expr × List Char) := do
  let (e, rest) ← readPrimary cs
  if rest.length ≤ cs.length then chainLoop calls e rest else none
termination_by 6 * cs.length + 1

def chainLoop (calls : Bool) (e : Expr) (cs : List Char) : Option (Expr × List Char) :=
  match cs with
  | '.' :: cs => chainLoop calls (access .blank false e (name (wordOf cs))) (afterWord cs)
  | '[' :: cs => do
    let (key, rest) ← readSequence cs
    let rest ← expect ']' rest
    if rest.length ≤ cs.length then chainLoop calls (access .blank true e key) rest else none
  | '(' :: cs =>
    if calls then do
      let (arguments, rest) ← readArguments cs
      if rest.length ≤ cs.length then chainLoop calls (call .blank e arguments) rest else none
    else some (e, '(' :: cs)
  | cs => some (e, cs)
termination_by 6 * cs.length
decreasing_by
  · have hword := length_afterWord cs
    simp only [List.length_cons]
    omega
  all_goals decreasing_tactic

def readUnary (cs : List Char) : Option (Expr × List Char) :=
  match Leading.read? cs with
  | some (.unary op, after) => do
    if after.length < cs.length then
      let (a, rest) ← readUnary after
      some (unary .blank op a, rest)
    else none
  | some (.update op, after) => do
    if after.length < cs.length then
      let (a, rest) ← readChain true after
      some (update .blank op true a, rest)
    else none
  | none => do
    let (e, rest) ← readChain true cs
    match trailing? rest with
    | some (op, rest) => some (update .blank op false e, rest)
    | none => some (e, rest)
termination_by 6 * cs.length + 2

/-- An operand and what is joined to it by operators of at least the given
precedence. -/
def readBinary (least : Precedence) (cs : List Char) : Option (Expr × List Char) := do
  let (e, rest) ← readUnary cs
  if rest.length ≤ cs.length then binaryLoop least e rest else none
termination_by 6 * cs.length + 3

def binaryLoop (least : Precedence) (e : Expr) (cs : List Char) : Option (Expr × List Char) :=
  match cs with
  | ' ' :: '?' :: ' ' :: rest =>
    if least ≤ .conditional then do
      let (consequent, middle) ← readBinary .assignment rest
      let middle ← expect ' ' middle
      let middle ← expect ':' middle
      let middle ← expect ' ' middle
      if middle.length ≤ rest.length then
        let (alternate, after) ← readBinary .assignment middle
        if after.length ≤ rest.length then
          binaryLoop least (conditional .blank e consequent alternate) after
        else none
      else none
    else some (e, cs)
  | cs =>
    match Joint.read? cs with
    | some (joint, rest) =>
      if least ≤ joint.precedence then do
        if rest.length < cs.length then
          let (right, after) ← readBinary joint.right rest
          if after.length ≤ rest.length then
            binaryLoop least (joint.join .blank e right) after
          else none
        else none
      else some (e, cs)
    | none => some (e, cs)
termination_by 6 * cs.length

/-- Expressions with commas between them: one, or a sequence of several. -/
def readSequence (cs : List Char) : Option (Expr × List Char) := do
  let (es, rest) ← readList cs
  match es with
  | [e] => some (e, rest)
  | es => some (sequence .blank es, rest)
termination_by 6 * cs.length + 5

def readList (cs : List Char) : Option (List Expr × List Char) := do
  let (e, rest) ← readBinary .assignment cs
  match rest with
  | ',' :: ' ' :: rest =>
    if rest.length < cs.length then do
      let (es, rest) ← readList rest
      some (e :: es, rest)
    else none
  | rest => some ([e], rest)
termination_by 6 * cs.length + 4

/-- Arguments after their opening bracket. -/
def readArguments (cs : List Char) : Option (List Expr × List Char) :=
  match cs with
  | ')' :: rest => some ([], rest)
  | cs => do
    let (es, rest) ← readList cs
    let rest ← expect ')' rest
    some (es, rest)
termination_by 6 * cs.length + 5

/-- The elements of an array after its opening bracket. -/
def readElements (cs : List Char) : Option (List (Option Expr) × List Char) :=
  match cs with
  | ']' :: rest => some ([], rest)
  | ',' :: ']' :: rest => some ([none], rest)
  | ',' :: ' ' :: rest => do
    let (elements, rest) ← readElements rest
    some (none :: elements, rest)
  | cs => do
    let (e, rest) ← readBinary .assignment cs
    match rest with
    | ',' :: ' ' :: rest =>
      if rest.length < cs.length then do
        let (elements, rest) ← readElements rest
        some (some e :: elements, rest)
      else none
    | rest => do
      let rest ← expect ']' rest
      some ([some e], rest)
termination_by 6 * cs.length + 4

/-- The members of an object, up to its closing brace. -/
def readMembers (cs : List Char) : Option (List (Child .property) × List Char) := do
  let (m, rest) ← readMember cs
  match rest with
  | ',' :: ' ' :: rest =>
    if rest.length < cs.length then do
      let (members, rest) ← readMembers rest
      some (m :: members, rest)
    else none
  | rest => do
    let rest ← expect ' ' rest
    let rest ← expect '\x7d' rest
    some ([m], rest)
termination_by 6 * cs.length + 2

def readMember (cs : List Char) : Option (Child .property × List Char) := do
  let ((computed, key), rest) ← readKey cs
  let rest ← expect ':' rest
  let rest ← expect ' ' rest
  if rest.length < cs.length then
    let (value, rest) ← readBinary .assignment rest
    some (member .blank computed key value, rest)
  else none
termination_by 6 * cs.length + 1

/-- The key of a member, and whether it is computed. -/
def readKey (cs : List Char) : Option ((Bool × Expr) × List Char) :=
  match cs with
  | '[' :: cs => do
    let (key, rest) ← readBinary .assignment cs
    let rest ← expect ']' rest
    some ((true, key), rest)
  | '"' :: cs => (readText cs).map fun (key, rest) => ((false, key), rest)
  | cs => some ((false, name (wordOf cs)), afterWord cs)
termination_by 6 * cs.length

end

end EsFront
