import Stencil.Filter.Standard
import Stencil.Json.Parser
import Stencil.Query.Parser
import Stencil.Text.Utf8

/-!
# Extension filters

Base64, and queries on JSON documents.
-/
namespace Stencil.Filter

def base64Encode : Filter :=
  ⟨"base64_encode", [.string], fun args _ => .ok (.str (Text.Base64.encodeText (textArg args 0)))⟩

/-- Bytes that are no text become replacement characters. -/
def base64Decode : Filter :=
  ⟨"base64_decode", [.string], fun args _ => do
    let bytes ← (Text.Base64.decode (textArg args 0).toUTF8.toList).mapError .base64
    return .str (Text.Utf8.decodeLenient ⟨bytes.toArray⟩)⟩

/-- The document that a query works on. Text is read as JSON. -/
def queryInput : Value → Except FilterFault Json
  | .nil => .ok .null
  | .str s => (Json.parse s).mapError .queryInput
  | v => .ok v.toJson

/-- The value of a result, read from its text. -/
def queryOutput (item : Item) : Except FilterFault Value := do
  return .ofJson (← (Json.parse item.text).mapError .queryOutput)

/-- Nothing for no results, one result as it is, more as a list. -/
def ofResults : List Value → Value
  | [] => .nil
  | [v] => v
  | values => .list values

def query (input : Value) (program : String) : Except FilterFault Value := do
  let json ← queryInput input
  match Query.parse? program with
  | none => throw (.queryProgram program)
  | some q =>
    let values ← (q.answers (.ofJson json)).mapM queryOutput
    return ofResults (values.filter (!·.isNil))

def jq : Filter :=
  ⟨"jq", [.any, .string], fun args _ => query (arg args 0) (textArg args 1)⟩

def extension : List Filter := [base64Encode, base64Decode, jq]

end Stencil.Filter
