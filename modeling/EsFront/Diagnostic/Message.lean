/-
Messages and their formatting.

A message template has a code, a category and a text with placeholders
`{0}`, `{1}`, …. `formatMessage` fills them one after the other: placeholder
`0` everywhere first, then placeholder `1` everywhere in the result, and so
on.
-/
namespace EsFront

/-- The severity of a diagnostic. -/
inductive Category where
  | message
  | warning
  | error
deriving DecidableEq, Repr, Inhabited

namespace Category

def text : Category → String
  | message => "message"
  | warning => "warning"
  | error => "error"

end Category

/-- Replaces every occurrence of `pattern`, from left to right and without
overlap. The first argument counts characters of the last occurrence that are
still to be passed over. -/
def replaceChars (pattern replacement : List Char) : Nat → List Char → List Char
  | _, [] => []
  | skip + 1, _ :: rest => replaceChars pattern replacement skip rest
  | 0, c :: rest =>
    if pattern.isPrefixOf (c :: rest) then
      replacement ++ replaceChars pattern replacement (pattern.length - 1) rest
    else c :: replaceChars pattern replacement 0 rest

/-- The placeholder with the given number. -/
def placeholder (index : Nat) : List Char :=
  '\x7b' :: ((toString index).toList ++ ['\x7d'])

/-- Fills the placeholders from number `index` on. -/
def fillFrom (index : Nat) (text : List Char) : List String → List Char
  | [] => text
  | arg :: rest => fillFrom (index + 1) (replaceChars (placeholder index) arg.toList 0 text) rest

/-- A template with its placeholders replaced by the arguments, one placeholder
after the other. -/
def formatMessage (template : String) (args : List String) : String :=
  String.ofList (fillFrom 0 template.toList args)

/-- A message with placeholders. -/
structure Message where
  code : Nat
  category : Category
  template : String
deriving DecidableEq, Repr, Inhabited

namespace Message

def parserFailed : Message := ⟨1001, .error, "Parser failed: \x7b0\x7d"⟩

def importFailed : Message := ⟨1002, .error, "Translation failed: \x7b0\x7d"⟩

def cannotReadFile : Message := ⟨1003, .error, "Cannot read file '\x7b0\x7d': \x7b1\x7d"⟩

def variableDefinedTwice : Message :=
  ⟨2001, .warning, "Variable '\x7b0\x7d' was defined twice in the same scope."⟩

def constantDefinedTwice : Message :=
  ⟨2002, .error, "Constant '\x7b0\x7d' was defined twice in the same scope."⟩

def varConflict : Message :=
  ⟨2003, .error, "Variable '\x7b0\x7d' is declared with 'var' in a block that already " ++
    "declares it with 'let' or 'const'."⟩

def undefinedIdentifier : Message := ⟨2004, .warning, "Undefined identifier \x7b0\x7d."⟩

def firstDefinition : Message := ⟨2010, .message, "First definition \x7b0\x7d-style."⟩

def secondDefinition : Message := ⟨2011, .message, "Second definition \x7b0\x7d-style."⟩

/-- Every message. -/
def all : List Message :=
  [parserFailed, importFailed, cannotReadFile, variableDefinedTwice, constantDefinedTwice,
    varConflict, undefinedIdentifier, firstDefinition, secondDefinition]

/-- The message with the given code. -/
def ofCode? (code : Nat) : Option Message := all.find? (·.code = code)

end Message

end EsFront
