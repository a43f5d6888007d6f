import Stencil.Decimal.Layout
import Stencil.Table

/-!
# JSON

JSON documents and their compact text. Members of an object are in key order. Numbers are whole
numbers or floats, and a float that is not finite is written as `null`.
-/
namespace Stencil

inductive Json where
  | null
  | bool (b : Bool)
  | int (n : Int)
  | float (x : Float)
  | str (s : String)
  | arr (items : List Json)
  | obj (members : List (String × Json))

instance : Inhabited Json := ⟨.null⟩

namespace Json

/-- Four hexadecimal digits. -/
def hex4 (n : Nat) : String :=
  let digits := Nat.toDigits 16 n
  String.ofList (List.replicate (4 - digits.length) '0' ++ digits)

def escapeChar (c : Char) : String :=
  if c = '"' then "\\\""
  else if c = '\\' then "\\\\"
  else if c = '\n' then "\\n"
  else if c = '\r' then "\\r"
  else if c = '\t' then "\\t"
  else if c = '\x08' then "\\b"
  else if c = '\x0c' then "\\f"
  else if c.toNat < 0x20 then "\\u" ++ hex4 c.toNat
  else c.toString

def quote (s : String) : String := "\"" ++ String.join (s.toList.map escapeChar) ++ "\""

def intText (n : Int) : String :=
  (if n < 0 then "-" else "") ++ Decimal.digitText n.natAbs

mutual

/-- Compact text, with floats in the given layout. -/
def textWith (float : Float → String) : Json → String
  | .null => "null"
  | .bool true => "true"
  | .bool false => "false"
  | .int n => intText n
  | .float x => float x
  | .str s => quote s
  | .arr [] => "[]"
  | .arr (item :: items) => "[" ++ textWith float item ++ itemsText float items ++ "]"
  | .obj [] => "\x7b\x7d"
  | .obj ((key, value) :: members) =>
    "\x7b" ++ quote key ++ ":" ++ textWith float value ++ membersText float members ++ "\x7d"

/-- The items after the first, each after a comma. -/
def itemsText (float : Float → String) : List Json → String
  | [] => ""
  | item :: items => "," ++ textWith float item ++ itemsText float items

/-- The members after the first, each after a comma. -/
def membersText (float : Float → String) : List (String × Json) → String
  | [] => ""
  | (key, value) :: members =>
    "," ++ quote key ++ ":" ++ textWith float value ++ membersText float members

end

/-- Compact text. -/
def text (j : Json) : String := textWith Decimal.json j

end Json

end Stencil
