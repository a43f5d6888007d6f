import Stencil.Shape.Basic
import Stencil.Decimal.Reader
import Stencil.Text.Quoted
import Stencil.Time.Read

/-!
# Conversion

Values are reshaped before they reach a consumer. An object is first replaced by its hook. A value
that has the shape stays; text is read as a number or a time, booleans become 0 and 1, integers
and floats become each other, maps and lists are rebuilt element by element, and everything has a
boolean and a text.
-/
namespace Stencil

/-- Why a value does not take a shape. -/
inductive ConversionError where
  /-- The value, which may be the key of a map, has no form of that shape. -/
  | mismatch (isKey : Bool) (value : Value) (shape : Shape)
  | entry (key : String) (cause : ConversionError)
  | duplicateKey (key converted : String)
  | field (name : String) (cause : ConversionError)
  /-- The argument of a filter, the input being argument 0. -/
  | argument (filter : String) (position : Nat) (cause : ConversionError)
  /-- An item that was to join a list of the given shape. -/
  | item (value : Value) (shape : Shape) (cause : ConversionError)

def ConversionError.message : ConversionError → String
  | .mismatch isKey value shape =>
    "can't convert " ++ (if isKey then "map key " else "") ++ value.typeName ++ "(" ++
      value.jsonText ++ ") to type " ++ shape.text
  | .entry key cause => "map value at key " ++ Text.quoted key ++ ": " ++ cause.message
  | .duplicateKey key converted =>
    "map key " ++ Text.quoted key ++ " converts to the duplicate key " ++ Text.quoted converted
  | .field name cause => "field " ++ Text.quoted name ++ ": " ++ cause.message
  | .argument filter position cause =>
    "filter '" ++ filter ++ "' " ++
      (if position = 0 then "input" else "argument " ++ Decimal.digitText position) ++ ": " ++
      cause.message
  | .item value shape cause =>
    "can't convert " ++ value.jsonText ++ " to " ++ shape.text ++ ": " ++ cause.message

namespace Value

/-- The 64-bit integer of a value that is no object. -/
def toInt? : Value → Option Int64
  | .int n => some n
  | .bool b => some (if b then 1 else 0)
  | .float x => some (Decimal.toInt64 x)
  | .str s => Decimal.readInt64? s
  | _ => none

def toFloat? : Value → Option Float
  | .float x => some x
  | .int n => some (Decimal.ofInt64 n)
  | .bool b => some (if b then 1.0 else 0.0)
  | .str s => Decimal.readFloat? s
  | _ => none

/-- An int or a float; text is read as an int where possible. -/
def toNumber? : Value → Option Value
  | .int n => some (.int n)
  | .float x => some (.float x)
  | .bool b => some (.int (if b then 1 else 0))
  | .str s => (Decimal.readInt64? s).map .int |>.or ((Decimal.readFloat? s).map .float)
  | _ => none

/-- The moment that a text states. Blanks around it do not count, in the message neither. The
words for the current time stand for the start of 1970: conversion looks at no clock. -/
def readTime (s : String) : Except ConversionError Time.Moment :=
  let trimmed := Text.trim s.toList
  if trimmed = "now".toList || trimmed = "today".toList then .ok ⟨0, 0, 0, 0⟩
  else match Time.Moment.read? trimmed with
  | some t => .ok t
  | none => .error (.mismatch false (.str (String.ofList trimmed)) .time)

def toTime : Value → Except ConversionError Time.Moment
  | .time t => .ok t
  | .str s => readTime s
  | v => .error (.mismatch false v .time)

end Value

namespace Shape

/-- Whether every text is already a key of this shape. -/
def acceptsKeys : Shape → Bool
  | .any => true
  | .string => true
  | _ => false

/-- Convert the entries of a map in order. Keys are converted as text, and two of them may not
become the same. -/
def convertEntries (keyShape : Shape) (key value : Value → Except ConversionError Value) :
    Bindings → Bindings → Except ConversionError Bindings
  | done, [] => .ok done
  | done, (k, v) :: rest => do
    let converted ← match key (.str k) with
      | .ok converted => .ok converted.display
      | .error _ => .error (.mismatch true (.str k) keyShape)
    let item ← (value v).mapError (.entry k)
    if Table.contains converted done then .error (.duplicateKey k converted)
    else convertEntries keyShape key value (Table.insert converted item done) rest

/-- Success, or a mismatch of the value with the shape. -/
def orMismatch (shape : Shape) (v : Value) : Option Value → Except ConversionError Value
  | some w => .ok w
  | none => .error (.mismatch false v shape)

mutual

/-- The value in the given shape. -/
def convert : Shape → Value → Except ConversionError Value
  | .any, v => .ok v.canonical
  | .bool, v => .ok (.bool v.canonical.isTruthy)
  | .int, v => orMismatch .int v.canonical (v.canonical.toInt?.map .int)
  | .float, v => orMismatch .float v.canonical (v.canonical.toFloat?.map .float)
  | .number, v => orMismatch .number v.canonical v.canonical.toNumber?
  | .string, v => .ok (.str v.canonical.display)
  | .time, v => v.canonical.toTime.map .time
  | .list element, v =>
    match v.canonical with
    | .list items =>
      if element.isAny then .ok (.list items) else (items.mapM (convert element)).map .list
    | .map entries => ((entries.map Prod.snd).mapM (convert element)).map .list
    | w => .error (.mismatch false w (.list element))
  | .map key value, v =>
    match v.canonical with
    | .map entries =>
      if key.acceptsKeys && value.isAny then .ok (.map entries)
      else (convertEntries key (convert key) (convert value) [] entries).map .map
    | w => .error (.mismatch false w (.map key value))
  | .record fields, v =>
    match v.canonical with
    | .map entries => (convertFields fields (.map entries) []).map .map
    | .object id name own hook =>
      (convertFields fields (.object id name own hook) []).map .map
    | w => .error (.mismatch false w (.record fields))
  | .optional inner, v => if v.canonical.isNil then .ok .nil else convert inner v.canonical

/-- The properties that a record names, each in its shape. -/
def convertFields : List (String × Shape) → Value → Bindings → Except ConversionError Bindings
  | [], _, done => .ok done
  | (name, shape) :: fields, v, done => do
    let field ← (convert shape ((v.property name).getD .nil)).mapError (.field name)
    convertFields fields v (Table.insert name field done)

end

/-- The item in the common shape of the elements of a list. -/
def convertItem (item : Value) (items : List Value) : Except ConversionError Value :=
  let shape := ofElements items
  (convert shape item).mapError (.item item shape)

end Shape

end Stencil
