import Stencil.Json.Basic
import Stencil.Text.Utf8

/-!
# Reading JSON

The strict grammar of JSON, over bytes. A fault is reported with the line and the column, in
bytes, at which it was noticed: a fault in a byte that was read counts that byte, one in a byte
that was only looked at counts it too unless the text has ended.
-/
namespace Stencil.Json

/-- What is wrong with a text. -/
inductive Fault where
  | endOfList
  | endOfObject
  | endOfString
  | endOfValue
  | expectedColon
  | expectedListEnd
  | expectedObjectEnd
  | expectedWord
  | expectedValue
  | invalidEscape
  | invalidNumber
  | numberOutOfRange
  | controlCharacter
  | keyNotString
  | loneSurrogate
  | trailingComma
  | trailingCharacters
  | endOfHexEscape
  | tooDeep
  deriving DecidableEq, Repr

def Fault.message : Fault → String
  | .endOfList => "EOF while parsing a list"
  | .endOfObject => "EOF while parsing an object"
  | .endOfString => "EOF while parsing a string"
  | .endOfValue => "EOF while parsing a value"
  | .expectedColon => "expected `:`"
  | .expectedListEnd => "expected `,` or `]`"
  | .expectedObjectEnd => "expected `,` or `\x7d`"
  | .expectedWord => "expected ident"
  | .expectedValue => "expected value"
  | .invalidEscape => "invalid escape"
  | .invalidNumber => "invalid number"
  | .numberOutOfRange => "number out of range"
  | .controlCharacter => "control character (\\u0000-\\u001F) found while parsing a string"
  | .keyNotString => "key must be a string"
  | .loneSurrogate => "lone leading surrogate in hex escape"
  | .trailingComma => "trailing comma"
  | .trailingCharacters => "trailing characters"
  | .endOfHexEscape => "unexpected end of hex escape"
  | .tooDeep => "recursion limit exceeded"

/-- A fault and the number of bytes that were left to read. -/
structure Failure where
  fault : Fault
  left : Nat
  deriving DecidableEq, Repr

abbrev Parser (α : Type) := StateT (List UInt8) (Except Failure) α

namespace Parser

/-- Fail after what was read. -/
def fail {α : Type} (fault : Fault) : Parser α := fun s => .error ⟨fault, s.length⟩

/-- Fail at the byte that comes next. -/
def failAhead {α : Type} (fault : Fault) : Parser α := fun s => .error ⟨fault, s.length - 1⟩

def skip (n : Nat) : Parser Unit := modify (·.drop n)

def isSpace (b : UInt8) : Bool := b = 32 || b = 10 || b = 9 || b = 13

def isDigit (b : UInt8) : Bool := 48 ≤ b && b ≤ 57

/-- The next byte that is not a space, which is left to be read. -/
def peekToken : Parser (Option UInt8) := do
  modify (·.dropWhile isSpace)
  return (← get).head?

/-- The rest of a word whose first letter was read. -/
def word : List UInt8 → Parser Unit
  | [] => pure ()
  | expected :: more => do
    match (← get) with
    | [] => fail .endOfValue
    | b :: rest => do
      set rest
      if b = expected then word more else fail .expectedWord

/-- The float `significand · 10 ^ exponent`, by one multiplication or by divisions. -/
def floatOfParts (negative : Bool) (significand : Nat) (exponent : Int) : Parser Float := do
  let f := Float.ofNat significand
  let magnitude ←
    if 0 ≤ exponent then
      if exponent ≤ 308 then
        let x := f * Float.ofScientific 1 false exponent.toNat
        if x.isInf then fail .numberOutOfRange else pure x
      else if f == 0.0 then pure f
      else fail .numberOutOfRange
    else pure (divide 40 f exponent.natAbs)
  return if negative then -magnitude else magnitude
where
  /-- Divide by `10 ^ n` in steps of at most 308; after forty steps nothing but zero is left. -/
  divide : Nat → Float → Nat → Float
    | 0, _, _ => 0.0
    | fuel + 1, f, n =>
      if n ≤ 308 then f / Float.ofScientific 1 false n
      else if f == 0.0 then f
      else divide fuel (f / 1e308) (n - 308)

/-- Add the digits that come next to a significand of 64 bits. Reports how many were added and
whether one was left because it did not fit. -/
def digits (significand count : Nat) : List UInt8 → Nat × Nat × Bool × List UInt8
  | [] => (significand, count, false, [])
  | b :: rest =>
    if isDigit b then
      let next := significand * 10 + (b.toNat - 48)
      if next < 0x10000000000000000 then digits next (count + 1) rest
      else (significand, count, true, b :: rest)
    else (significand, count, false, b :: rest)

/-- The exponent, its `e` being next. -/
def exponent (negative : Bool) (significand : Nat) (start : Int) : Parser Float := do
  skip 1
  let down ← match (← get) with
    | 43 :: rest => do set rest; pure false
    | 45 :: rest => do set rest; pure true
    | _ => pure false
  match (← get) with
  | [] => fail .endOfValue
  | b :: rest =>
    set rest
    if isDigit b then
      let run := b :: rest.takeWhile isDigit
      let fits := run.foldl (fun (n : Option Nat) d => n.bind fun n =>
        let n := n * 10 + (d.toNat - 48)
        if n < 0x80000000 then some n else none) (some 0)
      match fits with
      | some e =>
        modify (·.dropWhile isDigit)
        floatOfParts negative significand (if down then start - e else start + e)
      | none =>
        if significand ≠ 0 && !down then
          let seen := overflowPlace 0 0 run
          skip (seen - 1)
          fail .numberOutOfRange
        else
          modify (·.dropWhile isDigit)
          return if negative then -0.0 else 0.0
    else fail .invalidNumber
where
  /-- How many digits are read up to the one that no longer fits 31 bits. -/
  overflowPlace (n seen : Nat) : List UInt8 → Nat
    | [] => seen
    | d :: rest =>
      let n := n * 10 + (d.toNat - 48)
      if n < 0x80000000 then overflowPlace n (seen + 1) rest else seen + 1

/-- The rest of a number whose significant digits are read, its exponent perhaps next. -/
def endOfNumber (negative : Bool) (significand : Nat) (start : Int) : Parser Float := do
  match (← get) with
  | b :: _ =>
    if b = 101 || b = 69 then exponent negative significand start
    else floatOfParts negative significand start
  | [] => floatOfParts negative significand start

/-- The fraction, its point being next. -/
def fraction (negative : Bool) (significand : Nat) (start : Int) : Parser Float := do
  skip 1
  let (significand, count, full, rest) := digits significand 0 (← get)
  set rest
  if full then
    modify (·.dropWhile isDigit)
    endOfNumber negative significand (start - count)
  else if count = 0 then
    match rest with
    | [] => failAhead .endOfValue
    | _ :: _ => failAhead .invalidNumber
  else endOfNumber negative significand (start - count)

/-- What follows the whole part of a number. -/
def afterWhole (negative : Bool) (significand : Nat) (rest : List UInt8) : Parser Json := do
  match rest with
  | 46 :: _ => return .float (← fraction negative significand 0)
  | 101 :: _ | 69 :: _ => return .float (← exponent negative significand 0)
  | _ =>
    if !negative then return .int significand
    else if significand = 0 || 0x8000000000000000 < significand then return .float (-(Float.ofNat significand))
    else return .int (-(significand : Int))

/-- A number, its sign already read. -/
def number (negative : Bool) : Parser Json := do
  match (← get) with
  | [] => fail .endOfValue
  | b :: rest =>
    set rest
    if b = 48 then
      match rest with
      | d :: _ => if isDigit d then failAhead .invalidNumber else afterWhole negative 0 rest
      | [] => afterWhole negative 0 rest
    else if isDigit b then
      let (significand, _, full, rest) := digits (b.toNat - 48) 1 rest
      set rest
      if full then
        let extra := (rest.takeWhile isDigit).length
        skip extra
        match (← get) with
        | 46 :: _ => return .float (← fraction negative significand extra)
        | _ => return .float (← endOfNumber negative significand extra)
      else afterWhole negative significand rest
    else fail .invalidNumber

def hexValue? (b : UInt8) : Option Nat :=
  if isDigit b then some (b.toNat - 48)
  else if 97 ≤ b && b ≤ 102 then some (b.toNat - 87)
  else if 65 ≤ b && b ≤ 70 then some (b.toNat - 55)
  else none

/-- Four hexadecimal digits. -/
def hexEscape : Parser Nat := do
  match (← get) with
  | a :: b :: c :: d :: rest =>
    set rest
    match hexValue? a, hexValue? b, hexValue? c, hexValue? d with
    | some a, some b, some c, some d => return ((a * 16 + b) * 16 + c) * 16 + d
    | _, _, _, _ => fail .invalidEscape
  | _ =>
    set ([] : List UInt8)
    fail .endOfString

/-- One byte that has to come next inside a surrogate pair. -/
def pairByte (expected : UInt8) : Parser Unit := do
  match (← get) with
  | [] => fail .endOfString
  | b :: rest =>
    set rest
    if b = expected then pure () else fail .endOfHexEscape

def utf8 (n : Nat) : List UInt8 := (Char.ofNat n).toString.toUTF8.toList

/-- The bytes of a character escaped by number, its `u` already read. -/
def unicodeEscape : Parser (List UInt8) := do
  let n ← hexEscape
  if 0xDC00 ≤ n && n ≤ 0xDFFF then fail .loneSurrogate
  else if n < 0xD800 || 0xDBFF < n then return utf8 n
  else
    pairByte 92
    pairByte 117
    let m ← hexEscape
    if m < 0xDC00 || 0xDFFF < m then fail .loneSurrogate
    else return utf8 ((n - 0xD800) * 1024 + (m - 0xDC00) + 0x10000)

/-- The bytes of an escape, its backslash already read. -/
def escape : Parser (List UInt8) := do
  match (← get) with
  | [] => fail .endOfString
  | b :: rest =>
    set rest
    match b with
    | 34 | 92 | 47 => return [b]
    | 98 => return [8]
    | 102 => return [12]
    | 110 => return [10]
    | 114 => return [13]
    | 116 => return [9]
    | 117 => unicodeEscape
    | _ => fail .invalidEscape

/-- The rest of a string whose bytes so far, latest first, are `acc`. -/
def string : Nat → List UInt8 → Parser String
  | 0, _ => fail .endOfString
  | fuel + 1, acc => do
    match (← get) with
    | [] => fail .endOfString
    | b :: rest =>
      set rest
      if b = 34 then return Text.Utf8.decodeLenient ⟨acc.reverse.toArray⟩
      else if b = 92 then
        let bytes ← escape
        string fuel (bytes.reverse ++ acc)
      else if b < 32 then fail .controlCharacter
      else string fuel (b :: acc)

/-- A string, its opening quote already read. -/
def wholeString : Parser String := do string ((← get).length + 1) []

mutual

/-- A value. `depth` counts the lists and objects that may still be opened inside each other. -/
def value (depth : Nat) : Nat → Parser Json
  | 0 => fail .endOfValue
  | fuel + 1 => do
    match (← peekToken) with
    | none => failAhead .endOfValue
    | some b =>
      match b with
      | 110 => do skip 1; word "ull".toUTF8.toList; return .null
      | 116 => do skip 1; word "rue".toUTF8.toList; return .bool true
      | 102 => do skip 1; word "alse".toUTF8.toList; return .bool false
      | 45 => do skip 1; number true
      | 34 => do skip 1; return .str (← wholeString)
      | 91 =>
        if depth ≤ 1 then failAhead .tooDeep
        else do skip 1; return .arr (← items (depth - 1) true fuel)
      | 123 =>
        if depth ≤ 1 then failAhead .tooDeep
        else do skip 1; return .obj (Table.ofList (← members (depth - 1) true fuel))
      | _ => if isDigit b then number false else failAhead .expectedValue

/-- The items of a list up to its end. -/
def items (depth : Nat) (first : Bool) : Nat → Parser (List Json)
  | 0 => fail .endOfList
  | fuel + 1 => do
    match (← peekToken) with
    | none => failAhead .endOfList
    | some b =>
      if b = 93 then do
        skip 1
        return []
      else if first then do
        let v ← value depth fuel
        return v :: (← items depth false fuel)
      else if b = 44 then do
        skip 1
        match (← peekToken) with
        | none => failAhead .endOfValue
        | some b =>
          if b = 93 then failAhead .trailingComma
          else do
            let v ← value depth fuel
            return v :: (← items depth false fuel)
      else failAhead .expectedListEnd

/-- The members of an object up to its end. -/
def members (depth : Nat) (first : Bool) : Nat → Parser (List (String × Json))
  | 0 => fail .endOfObject
  | fuel + 1 => do
    match (← peekToken) with
    | none => failAhead .endOfObject
    | some b =>
      if b = 125 then do
        skip 1
        return []
      else if first then
        if b = 34 then do
          let m ← member depth fuel
          return m :: (← members depth false fuel)
        else failAhead .keyNotString
      else if b = 44 then do
        skip 1
        match (← peekToken) with
        | none => failAhead .endOfValue
        | some b =>
          if b = 34 then do
            let m ← member depth fuel
            return m :: (← members depth false fuel)
          else if b = 125 then failAhead .trailingComma
          else failAhead .keyNotString
      else failAhead .expectedObjectEnd

/-- A key, a colon and a value, the quote of the key being next. -/
def member (depth : Nat) : Nat → Parser (String × Json)
  | 0 => fail .endOfObject
  | fuel + 1 => do
    skip 1
    let key ← wholeString
    match (← peekToken) with
    | none => failAhead .endOfObject
    | some b =>
      if b = 58 then do
        skip 1
        return (key, ← value depth fuel)
      else failAhead .expectedColon

end

/-- One value and nothing after it. -/
def document : Parser Json := do
  let v ← value 128 (4 * (← get).length + 4)
  match (← peekToken) with
  | none => return v
  | some _ => failAhead .trailingCharacters

end Parser

/-- Line, from 1, and column, in bytes, after the first `offset` bytes. -/
def lineAndColumn (bytes : List UInt8) (offset : Nat) : Nat × Nat :=
  (bytes.take offset).foldl (fun (line, column) (b : UInt8) =>
    if b = 10 then (line + 1, 0) else (line, column + 1)) (1, 0)

/-- The value a text stands for, or a message that says where it stops making sense. -/
def parse (s : String) : Except String Json :=
  let bytes := s.toUTF8.toList
  match Parser.document bytes with
  | .ok (v, _) => .ok v
  | .error e =>
    let (line, column) := lineAndColumn bytes (bytes.length - e.left)
    .error s!"{e.fault.message} at line {line} column {column}"

end Stencil.Json
