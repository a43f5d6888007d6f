import Stencil.Text.Blank

/-!
# Tokens of queries

Words, numbers, text with queries inside, brackets, and runs of operator characters, with blanks and
comments between. A run of operator characters is one operator, but every minus begins a new one, so
that it can be a sign: `6*-2` multiplies by a negative number.
-/
namespace Stencil

inductive QueryToken where
  | word (s : String)
  /-- A name right after a point. -/
  | field (s : String)
  | variable (s : String)
  | number (s : String)
  | operator (s : String)
  | opening (c : Char)
  | closing (c : Char)
  /-- The beginning and the end of a text, its characters, and the brackets of a query in it. -/
  | quoteStart
  | quoteEnd
  | chars (s : String)
  | innerStart
  | innerEnd
  deriving DecidableEq, Repr

namespace QueryToken

/-- What encloses the place that is read: a text, or a query inside a text with so many brackets
open in it. -/
inductive Frame where
  | text
  | inner (depth : Nat)

def isOperatorChar (c : Char) : Bool := "|=!<>+*/%".contains c

def isWordStart (c : Char) : Bool := c.isAlpha || c = '_'

def isWordPart (c : Char) : Bool := c.isAlphanum || c = '_'

/-- Digits, at least one. -/
def digits? (cs : List Char) : Option (List Char × List Char) :=
  let run := cs.takeWhile Char.isDigit
  if run.isEmpty then none else some (run, cs.dropWhile Char.isDigit)

def fraction? : List Char → Option (List Char × List Char)
  | '.' :: cs => do
    let (run, rest) ← digits? cs
    return ('.' :: run, rest)
  | cs => some ([], cs)

def exponent? : List Char → Option (List Char × List Char)
  | c :: cs =>
    if c = 'e' || c = 'E' then
      match cs with
      | s :: rest =>
        if s = '+' || s = '-' then (digits? rest).map fun (run, rest) => (c :: s :: run, rest)
        else (digits? cs).map fun (run, rest) => (c :: run, rest)
      | [] => none
    else some ([], c :: cs)
  | [] => some ([], [])

def number? (cs : List Char) : Option (List Char × List Char) := do
  let (whole, rest) ← digits? cs
  let (fraction, rest) ← fraction? rest
  let (exponent, rest) ← exponent? rest
  return (whole ++ fraction ++ exponent, rest)

def hexDigit? (c : Char) : Option Nat :=
  if c.isDigit then some (c.toNat - 48)
  else if 'a' ≤ c ∧ c ≤ 'f' then some (c.toNat - 87)
  else if 'A' ≤ c ∧ c ≤ 'F' then some (c.toNat - 55)
  else none

def hex4? : List Char → Option (Nat × List Char)
  | a :: b :: c :: d :: rest => do
    let n := (← hexDigit? a) * 4096 + (← hexDigit? b) * 256 + (← hexDigit? c) * 16 + (← hexDigit? d)
    return (n, rest)
  | _ => none

def charOf? (n : Nat) : Option Char :=
  if n < 0xD800 ∨ 0xDFFF < n then some (Char.ofNat n) else none

/-- The character that an escape after a backslash stands for. -/
def escape? : List Char → Option (Char × List Char)
  | 'n' :: rest => some ('\n', rest)
  | 't' :: rest => some ('\t', rest)
  | 'r' :: rest => some ('\r', rest)
  | 'b' :: rest => some ('\x08', rest)
  | 'f' :: rest => some ('\x0c', rest)
  | '\\' :: rest => some ('\\', rest)
  | '/' :: rest => some ('/', rest)
  | '"' :: rest => some ('"', rest)
  | 'u' :: rest => do
    let (n, rest) ← hex4? rest
    return (← charOf? n, rest)
  | _ => none

/-- The characters of a text up to its end or to a query in it. -/
def plainChars? : Nat → List Char → Option (List Char × List Char)
  | 0, _ => none
  | _ + 1, [] => none
  | _ + 1, '"' :: rest => some ([], '"' :: rest)
  | _ + 1, '\\' :: '(' :: rest => some ([], '\\' :: '(' :: rest)
  | n + 1, '\\' :: rest => do
    let (c, rest) ← escape? rest
    let (cs, rest) ← plainChars? n rest
    return (c :: cs, rest)
  | n + 1, c :: rest => do
    let (cs, rest) ← plainChars? n rest
    return (c :: cs, rest)

/-- One token of code, with the frames after it. -/
def ofCode? (frames : List Frame) (c : Char) (cs : List Char) :
    Option (QueryToken × List Frame × List Char) :=
  if isWordStart c then
    some (.word (String.ofList (c :: cs.takeWhile isWordPart)), frames, cs.dropWhile isWordPart)
  else if c = '$' then
    some (.variable (String.ofList (cs.takeWhile isWordPart)), frames, cs.dropWhile isWordPart)
  else if c.isDigit then
    (number? (c :: cs)).map fun (run, rest) => (.number (String.ofList run), frames, rest)
  else if c = '-' then some (.operator "-", frames, cs)
  else if isOperatorChar c then
    some (.operator (String.ofList (c :: cs.takeWhile isOperatorChar)), frames,
      cs.dropWhile isOperatorChar)
  else if c = '.' then
    match cs with
    | '.' :: rest => some (.operator "..", frames, rest)
    | d :: rest =>
      if isWordStart d then
        some (.field (String.ofList (d :: rest.takeWhile isWordPart)), frames,
          rest.dropWhile isWordPart)
      else some (.operator ".", frames, cs)
    | [] => some (.operator ".", frames, [])
  else if c = ':' || c = ';' || c = ',' || c = '?' then
    some (.operator c.toString, frames, cs)
  else if c = '"' then some (.quoteStart, .text :: frames, cs)
  else if c = '(' || c = '[' || c = '{' then
    match frames with
    | .inner depth :: outer => some (.opening c, .inner (depth + 1) :: outer, cs)
    | frames => some (.opening c, frames, cs)
  else if c = ')' || c = ']' || c = '}' then
    match frames with
    | .inner 0 :: outer => if c = ')' then some (.innerEnd, outer, cs) else none
    | .inner (depth + 1) :: outer => some (.closing c, .inner depth :: outer, cs)
    | frames => some (.closing c, frames, cs)
  else none

/-- How many backslashes a reversed line begins with, a carriage return before them apart. -/
def backslashes : List Char → Nat
  | '\r' :: cs => (cs.takeWhile (· = '\\')).length
  | cs => (cs.takeWhile (· = '\\')).length

/-- What follows the line that a comment ends with. A line goes on in the next one if it ends in an odd
number of backslashes; what was read of the line is kept reversed. -/
def afterComment (line : List Char) : List Char → List Char
  | [] => []
  | c :: cs =>
    if c = '\n' then
      if backslashes line % 2 = 1 then afterComment [] cs else cs
    else afterComment (c :: line) cs

theorem length_afterComment (line cs : List Char) : (afterComment line cs).length ≤ cs.length := by
  induction cs generalizing line with
  | nil => simp [afterComment]
  | cons c cs ih =>
    have := ih []
    have := ih (c :: line)
    simp only [afterComment, List.length_cons]
    split
    · split <;> omega
    · omega

/-- The tokens of at most `n` steps' worth of characters. -/
def lexAtMost : Nat → List Frame → List Char → Option (List QueryToken)
  | 0, _, _ => none
  | _ + 1, [], [] => some []
  | n + 1, .text :: frames, cs => do
    let (run, rest) ← plainChars? (cs.length + 1) cs
    let tokens ← match rest with
      | '"' :: rest => (lexAtMost n frames rest).map (.quoteEnd :: ·)
      | '\\' :: '(' :: rest =>
        (lexAtMost n (.inner 0 :: .text :: frames) rest).map (.innerStart :: ·)
      | _ => none
    return .chars (String.ofList run) :: tokens
  | _ + 1, .inner _ :: _, [] => none
  | n + 1, frames, c :: cs =>
    if c = '#' then lexAtMost n frames (afterComment [] cs)
    else if Text.isBlank c then lexAtMost n frames cs
    else do
      let (token, frames, rest) ← ofCode? frames c cs
      let tokens ← lexAtMost n frames rest
      return token :: tokens

def lex? (s : String) : Option (List QueryToken) := lexAtMost (2 * s.length + 2) [] s.toList

end QueryToken

end Stencil
