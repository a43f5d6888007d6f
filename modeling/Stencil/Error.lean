import Stencil.Expr.Arithmetic
import Stencil.Expr.Token
import Stencil.Shape.Convert
import Stencil.Text.Base64

/-!
# Errors

What goes wrong when a template is compiled or rendered, and the messages that say so. Most errors
tell where in a template they arose; the innermost place wins.
-/
namespace Stencil

/-- Why a store has no text for a name. -/
inductive StoreFault where
  | notFound
  | unreadable (reason : String)
  | notUtf8
  deriving DecidableEq

def StoreFault.message (name : String) : StoreFault → String
  | .notFound => "template not found: " ++ name
  | .unreadable reason => "failed to read template " ++ name ++ ": " ++ reason
  | .notUtf8 => "template " ++ name ++ " is not valid UTF-8"

/-- Why an expression has no value. -/
inductive EvaluationFault where
  | arithmetic (fault : ArithmeticFault)
  /-- A range that is too long to become a list. -/
  | longRange (first last : Int) (limit : Nat)
  /-- A fault that a tag states. -/
  | stated (reason : String)

def EvaluationFault.message : EvaluationFault → String
  | .arithmetic fault => fault.message
  | .longRange first last limit =>
    "range (" ++ Json.intText first ++ ".." ++ Json.intText last ++ ") has " ++
      Json.intText (last - first + 1) ++ " elements, more than the limit of " ++
      Decimal.digitText limit
  | .stated reason => reason

/-- Why a filter gives no value. -/
inductive FilterFault where
  | tooManyArguments (allowed given : Nat)
  | arithmetic (fault : ArithmeticFault)
  | item (cause : ConversionError)
  | datePattern (pattern : String)
  | base64 (fault : Text.Base64.Fault)
  | queryInput (reason : String)
  | queryProgram (program : String)
  | queryOutput (reason : String)
  /-- A fault that a filter states. -/
  | stated (reason : String)

def FilterFault.message : FilterFault → String
  | .tooManyArguments allowed given =>
    "expected at most " ++ Decimal.digitText allowed ++ " argument(s), got " ++
      Decimal.digitText given
  | .arithmetic fault => fault.message
  | .item cause => "Conversion error: " ++ cause.message
  | .datePattern pattern => "invalid date format " ++ Text.quoted pattern
  | .base64 fault => "invalid base64 input: " ++ fault.message
  | .queryInput reason => "jq input is not valid JSON: " ++ reason
  | .queryProgram program =>
    "the jq filter string '" ++ program ++ "' is not valid: 1 error(s)"
  | .queryOutput reason => "jq produced invalid JSON: " ++ reason
  | .stated reason => reason

/-- Why output cannot be written. -/
inductive OutputFault where
  | full
  | flushFailed

def OutputFault.message : OutputFault → String
  | .full => "writer is full"
  | .flushFailed => "flush failed"

inductive Cause where
  | malformed (fault : SyntaxFault)
  | undefinedTag (name : String)
  | undefinedFilter (name : String)
  | conversion (cause : ConversionError)
  | undefinedVariable (name : String)
  | store (name : String) (fault : StoreFault)
  | evaluation (fault : EvaluationFault)
  | filter (name : String) (fault : FilterFault)
  | recursiveInclude (name : String) (maxDepth : Nat)
  | cancelled
  | output (fault : OutputFault)

namespace Cause

/-- Whether an error of this cause belongs to a place in a template. -/
def hasPlace : Cause → Bool
  | .recursiveInclude .. => false
  | .cancelled => false
  | .output _ => false
  | _ => true

/-- Whether an error of this cause arises when a template is compiled. -/
def isCompileTime : Cause → Bool
  | .malformed _ => true
  | .undefinedTag _ => true
  | .undefinedFilter _ => true
  | _ => false

end Cause

structure Error where
  cause : Cause
  location : Option Location := none

namespace Error

/-- The error, at the given place unless it has one already. -/
def locatedAt (l : Location) (e : Error) : Error :=
  if e.cause.hasPlace then { e with location := e.location.or (some l) } else e

/-- Where an error happened, for the middle of its message. -/
def placeText (e : Error) : String :=
  match e.location with
  | some l => " at " ++ l.text
  | none => ""

def message (e : Error) : String :=
  let place := e.placeText
  match e.cause with
  | .malformed fault => "Syntax error" ++ place ++ ": " ++ fault.message
  | .undefinedTag name => "Undefined tag '" ++ name ++ "'" ++ place
  | .undefinedFilter name => "Undefined filter '" ++ name ++ "'" ++ place
  | .conversion cause => "Conversion error" ++ place ++ ": " ++ cause.message
  | .undefinedVariable name => "Undefined variable '" ++ name ++ "'" ++ place
  | .store name fault =>
    "Include of '" ++ name ++ "' failed" ++ place ++ ": " ++ fault.message name
  | .evaluation fault => "Evaluation error" ++ place ++ ": " ++ fault.message
  | .filter name fault => "Filter '" ++ name ++ "' failed" ++ place ++ ": " ++ fault.message
  | .recursiveInclude name maxDepth =>
    "Recursive include detected (depth > " ++ Decimal.digitText maxDepth ++ "): " ++ name
  | .cancelled => "Rendering cancelled"
  | .output fault => "I/O error: " ++ fault.message

end Error

end Stencil
