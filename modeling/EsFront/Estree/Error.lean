/-
Reasons why a value is not an ESTree program.

Each reason stops the import of one file; `ImportError.message` is its
wording.
-/
import EsFront.Source.Location
import EsFront.Syntax.Kind

namespace EsFront

/-- Why the import stopped. -/
inductive ImportError where
  | notAProgram
  | unhandledNodeKind (tag : String) (loc : Option SourceLocation)
  | missingField (kind : NodeKind) (field : String)
  | notANode (kind : NodeKind) (field : String)
  | missingCommentLocation (text : String)
  | malformedComment (reason : String)
  | unsupportedConstruct (kind : NodeKind) (reason : String)
  | nestingTooDeep (limit : Nat)
  | capability (reason : CapabilityError)
deriving DecidableEq, Repr, Inhabited

namespace ImportError

/-- The reason in words. -/
def message : ImportError → String
  | notAProgram => "input is not an ESTree Program"
  | unhandledNodeKind tag loc =>
    let place := match loc with
      | some loc => " at " ++ loc.text
      | none => ""
    "node type `" ++ tag ++ "` is not handled" ++ place
  | missingField kind field => kind.tag ++ " is missing required field `" ++ field ++ "`"
  | notANode kind field => "field `" ++ field ++ "` of " ++ kind.tag ++ " is not a node"
  | missingCommentLocation text => "doc comment `" ++ text ++ "` has no line information"
  | malformedComment reason => "malformed comment: " ++ reason
  | unsupportedConstruct kind reason => "unsupported " ++ kind.tag ++ ": " ++ reason
  | nestingTooDeep limit => "nesting deeper than " ++ toString limit ++ " nodes"
  | capability reason => reason.message

end ImportError

end EsFront
