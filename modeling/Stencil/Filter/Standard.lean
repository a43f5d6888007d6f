import Stencil.Filter.Basic
import Stencil.Text.Case
import Stencil.Text.Html
import Stencil.Value.Order

/-!
# Standard filters

Defaults, dates, lists, numbers and text. Every filter relies on the shapes of its parameters and
takes a value that no conversion yields as absent.
-/
namespace Stencil.Filter

/-- An argument, nil beyond the last one. -/
def arg (args : List Value) (i : Nat) : Value := args.getD i .nil

def textArg (args : List Value) (i : Nat) : String := (arg args i).text?.getD ""

def intArg? (args : List Value) (i : Nat) : Option Int :=
  match arg args i with
  | .int n => some n.toInt
  | _ => none

def listArg (args : List Value) (i : Nat) : List Value :=
  match arg args i with
  | .list items => items
  | _ => []

def floatArg (args : List Value) (i : Nat) : Float :=
  match arg args i with
  | .int n => Decimal.ofInt64 n
  | .float x => x
  | _ => 0.0

/-- Nil or a list. -/
def sequence : Shape := .optional (.list .any)

/-- A filter on lists. -/
def onList (name : String) (f : List Value → Value) : Filter :=
  ⟨name, [sequence], fun args _ => .ok (f (listArg args 0))⟩

/-- A filter on text. -/
def onText (name : String) (f : List Char → List Char) : Filter :=
  ⟨name, [.string], fun args _ => .ok (.str (String.ofList (f (textArg args 0).toList)))⟩

/-- A filter on text with one argument, which is text too. -/
def onTexts (name : String) (f : List Char → List Char → List Char) : Filter :=
  ⟨name, [.string, .string], fun args _ =>
    .ok (.str (String.ofList (f (textArg args 0).toList (textArg args 1).toList)))⟩

def onNumbers (name : String) (op : Operator) : Filter :=
  ⟨name, [.number, .number], fun args _ =>
    (Arithmetic.apply op (arg args 0) (arg args 1)).mapError .arithmetic⟩

/-! ### Values -/

/-- Whether a value needs no default. False does only if the caller allows it. -/
def keeps (allowFalse : Bool) : Value → Bool
  | .bool false => allowFalse
  | v => !v.isEmpty

def default : Filter :=
  ⟨"default", [.any, .any], fun args named =>
    let allowFalse := (Table.find? "allow_false" named).any Value.isTruthy
    .ok (if keeps allowFalse (arg args 0) then arg args 0 else arg args 1)⟩

def size : Filter := ⟨"size", [.any], fun args _ => .ok (.ofNat (arg args 0).length)⟩

def inspect : Filter := ⟨"inspect", [.any], fun args _ => .ok (.str (arg args 0).jsonText)⟩

def type : Filter := ⟨"type", [.any], fun args _ => .ok (.str (arg args 0).typeName)⟩

/-! ### Dates -/

def defaultDatePattern : String := "%a, %b %d, %y"

/-- A moment by a pattern, from which the nanosecond field is left out. -/
def writeDate (t : Time.Moment) (pattern : String) : Except FilterFault Value :=
  let pattern := String.ofList (Text.replace "%N".toList [] pattern.toList)
  match t.format? pattern with
  | some s => .ok (.str s)
  | none => .error (.datePattern pattern)

def date : Filter :=
  ⟨"date", [.optional .time, .optional .string], fun args _ =>
    match arg args 0 with
    | .time t => writeDate t ((arg args 1).text?.getD defaultDatePattern)
    | _ => .ok .nil⟩

/-! ### Lists -/

def compact : Filter := onList "compact" fun items => .list (items.filter (!·.isNil))

def reverse : Filter := onList "reverse" fun items => .list items.reverse

def first : Filter := onList "first" fun items => items.head?.getD .nil

def last : Filter := onList "last" fun items => items.getLast?.getD .nil

def join : Filter :=
  ⟨"join", [sequence, .any], fun args _ =>
    let separator := match arg args 1 with
      | .nil => ", "
      | v => v.display
    .ok (.str (String.intercalate separator ((listArg args 0).map Value.display)))⟩

def map : Filter :=
  ⟨"map", [sequence, .string], fun args _ =>
    .ok (.list ((listArg args 0).map fun v => (v.property (textArg args 1)).getD .nil))⟩

def sort : Filter :=
  ⟨"sort", [sequence, .optional .string], fun args _ =>
    .ok (.list (match (arg args 1).text? with
      | some key => Value.sortByProperty key true (listArg args 0)
      | none => Value.sort (listArg args 0)))⟩

/-- Append an item, in the common shape of the elements. -/
def push : Filter :=
  ⟨"push", [sequence, .any], fun args _ => do
    let item ← (Shape.convertItem (arg args 1) (listArg args 0)).mapError .item
    return .list (listArg args 0 ++ [item])⟩

/-- The bounds of a slice of `count` elements, within a list of `length` ones. A negative start
counts from the end. -/
def sliceBounds (length : Nat) (start count : Int) : Nat × Nat :=
  let low := if start < 0 then max (length + start) 0 else min start length
  let high := min (low + max count 0) length
  (low.toNat, high.toNat)

def sliceOf {α : Type} (items : List α) (start count : Int) : List α :=
  let (low, high) := sliceBounds items.length start count
  (items.take high).drop low

def slice : Filter :=
  ⟨"slice", [.any, .int, .optional .int], fun args _ =>
    let start := (intArg? args 1).getD 0
    let count := (intArg? args 2).getD 1
    .ok (match (arg args 0).canonical with
      | .list items => .list (sliceOf items start count)
      | v => .str (String.ofList (sliceOf v.display.toList start count)))⟩

/-! ### Numbers -/

def plus : Filter := onNumbers "plus" .add

def minus : Filter := onNumbers "minus" .sub

def times : Filter := onNumbers "times" .mul

def dividedBy : Filter := onNumbers "divided_by" .div

def modulo : Filter := onNumbers "modulo" .mod

def abs : Filter :=
  ⟨"abs", [.number], fun args _ =>
    .ok (match arg args 0 with
      | .int n => match Arithmetic.int? n.toInt.natAbs with
        | some m => .int m
        | none => .float (Decimal.abs (Decimal.ofInt64 n))
      | _ => .float (Decimal.abs (floatArg args 0)))⟩

/-- A rounded number as an integer where it is small enough. -/
def whole (x : Float) : Value :=
  if x.isFinite && Decimal.abs x < 9.0e18 then .int (Decimal.toInt64 x) else .float x

def ceil : Filter :=
  ⟨"ceil", [.number], fun args _ => .ok (whole (Decimal.ceil (floatArg args 0)))⟩

def floor : Filter :=
  ⟨"floor", [.number], fun args _ => .ok (whole (Decimal.floor (floatArg args 0)))⟩

/-- The largest exponent that rounding to places uses. -/
def maxPlaces : Nat := 0x7FFFFFFF

/-- Round a half up, to a number of places or to an integer. -/
def round : Filter :=
  ⟨"round", [.number, .optional .int], fun args _ =>
    let x := floatArg args 0
    let places := (intArg? args 1).getD 0
    .ok (if 0 < places then
        let scale := Decimal.power 10.0 (min places.toNat maxPlaces)
        .float (Decimal.floor (x * scale + 0.5) / scale)
      else whole (Decimal.floor (x + 0.5)))⟩

/-! ### Text -/

def capitalize : Filter := onText "capitalize" Text.capitalize

def downcase : Filter := onText "downcase" Text.lower

def upcase : Filter := onText "upcase" Text.upper

def escape : Filter := onText "escape" Text.Html.escape

def escapeOnce : Filter := onText "escape_once" Text.Html.escapeOnce

def newlineToBr : Filter :=
  onText "newline_to_br" (Text.replace ['\n'] "<br />".toList)

def stripHtml : Filter := onText "strip_html" Text.Html.stripTags

def stripNewlines : Filter := onText "strip_newlines" (Text.replace ['\n'] [])

def strip : Filter := onText "strip" Text.trim

def lstrip : Filter := onText "lstrip" Text.trimStart

def rstrip : Filter := onText "rstrip" Text.trimEnd

def append : Filter := onTexts "append" fun s t => s ++ t

def prepend : Filter := onTexts "prepend" fun s t => t ++ s

def remove : Filter := onTexts "remove" fun s old => Text.replace old [] s

def removeFirst : Filter := onTexts "remove_first" fun s old => Text.replaceFirst old [] s

def replaceWith (name : String) (f : List Char → List Char → List Char → List Char) : Filter :=
  ⟨name, [.string, .string, .string], fun args _ =>
    .ok (.str (String.ofList
      (f (textArg args 1).toList (textArg args 2).toList (textArg args 0).toList)))⟩

def replace : Filter := replaceWith "replace" Text.replace

def replaceFirst : Filter := replaceWith "replace_first" Text.replaceFirst

/-- The pieces between separators, or the characters for an empty one. An empty last piece is
dropped. -/
def pieces (s separator : List Char) : List (List Char) :=
  let all := match separator with
    | [] => s.map ([·])
    | p :: piece => Text.splitAt p piece s
  if all.getLast? = some [] then all.dropLast else all

def split : Filter :=
  ⟨"split", [.string, .string], fun args _ =>
    .ok (.list ((pieces (textArg args 0).toList (textArg args 1).toList).map
      fun piece => .str (String.ofList piece)))⟩

/-- A text that is longer than the limit cut so that it has the limit with the ellipsis. -/
def shorten (s ellipsis : List Char) (limit : Int) : List Char :=
  if s.length ≤ limit then s else s.take (limit - ellipsis.length).toNat ++ ellipsis

def truncate : Filter :=
  ⟨"truncate", [.string, .optional .int, .optional .string], fun args _ =>
    let ellipsis := (arg args 2).text?.getD "..."
    .ok (.str (String.ofList
      (shorten (textArg args 0).toList ellipsis.toList ((intArg? args 1).getD 50))))⟩

def standard : List Filter :=
  [default, date, compact, reverse, first, last, join, map, sort, push, size, plus, minus, times,
    dividedBy, modulo, abs, ceil, floor, round, capitalize, downcase, upcase, escape, escapeOnce,
    newlineToBr, stripHtml, stripNewlines, strip, lstrip, rstrip, append, prepend, remove,
    removeFirst, replace, replaceFirst, slice, split, truncate, inspect, type]

end Stencil.Filter
