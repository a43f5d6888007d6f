import Stencil.Source
import Stencil.Decimal.Layout
import Stencil.Decimal.Reader
import Stencil.Json.Basic
import Stencil.Text.Blank
import Stencil.Text.Quoted

/-!
# Tokens of expressions

The lexical grammar: names, integers, decimals, quoted text without escapes, and operators, with
ASCII blanks between. A sign belongs to a number only where no operand comes before it.
-/
namespace Stencil

inductive Symbol where
  | dot
  | dotDot
  | leftBracket
  | rightBracket
  | leftParen
  | rightParen
  | pipe
  | colon
  | comma
  | assign
  | eq
  | ne
  | lt
  | le
  | gt
  | ge
  | plus
  | minus
  | star
  | slash
  | percent
  deriving DecidableEq, Repr

def Symbol.text : Symbol → String
  | .dot => "."
  | .dotDot => ".."
  | .leftBracket => "["
  | .rightBracket => "]"
  | .leftParen => "("
  | .rightParen => ")"
  | .pipe => "|"
  | .colon => ":"
  | .comma => ","
  | .assign => "="
  | .eq => "=="
  | .ne => "!="
  | .lt => "<"
  | .le => "<="
  | .gt => ">"
  | .ge => ">="
  | .plus => "+"
  | .minus => "-"
  | .star => "*"
  | .slash => "/"
  | .percent => "%"

inductive TokenKind where
  /-- A name or a keyword. -/
  | ident (name : String)
  | int (n : Int64)
  | float (x : Float)
  | str (s : String)
  | symbol (s : Symbol)
  | eof

namespace TokenKind

/-- Whether an operand ends here, so that a minus sign that follows is an operator. -/
def endsOperand : TokenKind → Bool
  | .ident _ => true
  | .int _ => true
  | .float _ => true
  | .str _ => true
  | .symbol .rightParen => true
  | .symbol .rightBracket => true
  | _ => false

/-- How messages name a token. -/
def describe : TokenKind → String
  | .ident name => "'" ++ name ++ "'"
  | .int n => Json.intText n.toInt
  | .float x => Decimal.plain x
  | .str s => Text.quoted s
  | .symbol s => "'" ++ s.text ++ "'"
  | .eof => "end of expression"

def isSymbol (s : Symbol) : TokenKind → Bool
  | .symbol t => s = t
  | _ => false

def isWord (word : String) : TokenKind → Bool
  | .ident name => name = word
  | _ => false

end TokenKind

structure Token where
  kind : TokenKind
  span : Span

/-- What is wrong with a text that should be an expression, a statement or a template. -/
inductive SyntaxFault where
  | unterminatedString
  | integerRange (text : String)
  | invalidNumber (text : String)
  | unexpectedCharacter (c : Char)
  | expected (what : String) (found : TokenKind)
  | unexpectedToken (found : TokenKind)
  | positionalAfterNamed
  /-- Markup opened without being closed. -/
  | unclosedMarkup (opening closing : String)
  | unclosedBlock (name endTag : String)
  | tagNameExpected
  | misplacedInBlock (name block : String)
  | misplacedOutside (name : String)
  | notUtf8 (reason : String)
  /-- A tag that rejects its arguments or clauses. -/
  | rejected (reason : String)

def SyntaxFault.message : SyntaxFault → String
  | .unterminatedString => "unterminated string literal"
  | .integerRange text => "integer '" ++ text ++ "' out of range"
  | .invalidNumber text => "invalid number '" ++ text ++ "'"
  | .unexpectedCharacter c => "unexpected character '" ++ c.toString ++ "'"
  | .expected what found => "expected " ++ what ++ ", found " ++ found.describe
  | .unexpectedToken found => "unexpected " ++ found.describe
  | .positionalAfterNamed => "positional argument after named argument"
  | .unclosedMarkup opening closing =>
    "'" ++ opening ++ "' was never closed with '" ++ closing ++ "'"
  | .unclosedBlock name endTag => "'" ++ name ++ "' block is not closed with '" ++ endTag ++ "'"
  | .tagNameExpected => "tag name expected"
  | .misplacedInBlock name block => "unexpected '" ++ name ++ "' inside '" ++ block ++ "' block"
  | .misplacedOutside name => "unexpected '" ++ name ++ "' outside of a block"
  | .notUtf8 reason => "template source is not valid UTF-8: " ++ reason
  | .rejected reason => reason

/-- A fault and the bytes it concerns. -/
structure SyntaxError where
  fault : SyntaxFault
  span : Span

def SyntaxError.message (e : SyntaxError) : String := e.fault.message

namespace Token

def isNameStart (c : Char) : Bool := c.isAlpha || c = '_'

def isNamePart (c : Char) : Bool := c.isAlphanum || c = '_' || c = '-'

/-- A name, which one question mark may end. -/
def nameLexeme (cs : List Char) : List Char × List Char :=
  let name := cs.takeWhile isNamePart
  match cs.dropWhile isNamePart with
  | '?' :: rest => (name ++ ['?'], rest)
  | rest => (name, rest)

/-- Digits, and a point with digits when a digit follows the point. -/
def digitsLexeme (cs : List Char) : List Char × List Char :=
  let whole := cs.takeWhile Char.isDigit
  match cs.dropWhile Char.isDigit with
  | '.' :: d :: rest =>
    if d.isDigit then
      (whole ++ '.' :: d :: rest.takeWhile Char.isDigit, rest.dropWhile Char.isDigit)
    else (whole, '.' :: d :: rest)
  | rest => (whole, rest)

def number (text : List Char) : Except SyntaxFault TokenKind :=
  let s := String.ofList text
  if '.' ∈ text then
    match Decimal.readFloat? s with
    | some x => .ok (.float x)
    | none => .error (.invalidNumber s)
  else
    match Decimal.readInt64? s with
    | some n => .ok (.int n)
    | none => .error (.integerRange s)

/-- The operator that a text begins with, of two characters where possible. -/
def symbolLexeme? : List Char → Option (Symbol × List Char × List Char)
  | '.' :: '.' :: rest => some (.dotDot, ['.', '.'], rest)
  | '=' :: '=' :: rest => some (.eq, ['=', '='], rest)
  | '!' :: '=' :: rest => some (.ne, ['!', '='], rest)
  | '<' :: '>' :: rest => some (.ne, ['<', '>'], rest)
  | '<' :: '=' :: rest => some (.le, ['<', '='], rest)
  | '>' :: '=' :: rest => some (.ge, ['>', '='], rest)
  | '.' :: rest => some (.dot, ['.'], rest)
  | '[' :: rest => some (.leftBracket, ['['], rest)
  | ']' :: rest => some (.rightBracket, [']'], rest)
  | '(' :: rest => some (.leftParen, ['('], rest)
  | ')' :: rest => some (.rightParen, [')'], rest)
  | '|' :: rest => some (.pipe, ['|'], rest)
  | ':' :: rest => some (.colon, [':'], rest)
  | ',' :: rest => some (.comma, [','], rest)
  | '=' :: rest => some (.assign, ['='], rest)
  | '<' :: rest => some (.lt, ['<'], rest)
  | '>' :: rest => some (.gt, ['>'], rest)
  | '+' :: rest => some (.plus, ['+'], rest)
  | '-' :: rest => some (.minus, ['-'], rest)
  | '*' :: rest => some (.star, ['*'], rest)
  | '/' :: rest => some (.slash, ['/'], rest)
  | '%' :: rest => some (.percent, ['%'], rest)
  | _ => none

/-- Whether a number begins here. -/
def startsNumber (afterOperand : Bool) : List Char → Bool
  | c :: cs => c.isDigit || (c = '-' && !afterOperand && cs.head?.any Char.isDigit)
  | [] => false

/-- A token cut off the front of a text: its kind, its characters and the rest. -/
structure Lexeme where
  kind : TokenKind
  text : List Char
  rest : List Char

/-- The token that a text begins with, which begins with no blank. A fault comes with the
characters it concerns. -/
def lexeme (afterOperand : Bool) : List Char → Except (SyntaxFault × List Char) Lexeme
  | [] => .ok ⟨.eof, [], []⟩
  | c :: cs =>
    if startsNumber afterOperand (c :: cs) then
      let (digits, rest) := digitsLexeme cs
      let text := c :: digits
      match number text with
      | .ok kind => .ok ⟨kind, text, rest⟩
      | .error fault => .error (fault, text)
    else if isNameStart c then
      let (name, rest) := nameLexeme cs
      .ok ⟨.ident (String.ofList (c :: name)), c :: name, rest⟩
    else if c = '"' || c = '\'' then
      match cs.dropWhile (· ≠ c) with
      | [] => .error (.unterminatedString, c :: cs)
      | close :: rest =>
        let body := cs.takeWhile (· ≠ c)
        .ok ⟨.str (String.ofList body), c :: body ++ [close], rest⟩
    else match symbolLexeme? (c :: cs) with
      | some (s, text, rest) => .ok ⟨.symbol s, text, rest⟩
      | none => .error (.unexpectedCharacter c, [c])

theorem nameLexeme_append (cs : List Char) : (nameLexeme cs).1 ++ (nameLexeme cs).2 = cs := by
  have h := List.takeWhile_append_dropWhile (p := isNamePart) (l := cs)
  unfold nameLexeme
  split
  · rename_i rest hd
    rw [hd] at h
    simpa using h
  · exact h

theorem digitsLexeme_append (cs : List Char) :
    (digitsLexeme cs).1 ++ (digitsLexeme cs).2 = cs := by
  have h := List.takeWhile_append_dropWhile (p := Char.isDigit) (l := cs)
  unfold digitsLexeme
  split
  · rename_i d rest hd
    rw [hd] at h
    split
    · simpa using h
    · exact h
  · exact h

theorem symbolLexeme?_append {cs text rest : List Char} {s : Symbol}
    (h : symbolLexeme? cs = some (s, text, rest)) : cs = text ++ rest ∧ text ≠ [] := by
  unfold symbolLexeme? at h
  split at h
  all_goals first
    | (simp only [Option.some.injEq, Prod.mk.injEq] at h
       obtain ⟨_, rfl, rfl⟩ := h
       simp)
    | cases h

/-- A token is at least one character, and what it leaves is what follows it. -/
theorem lexeme_append {afterOperand : Bool} {c : Char} {cs : List Char} {l : Lexeme}
    (h : lexeme afterOperand (c :: cs) = .ok l) : c :: cs = l.text ++ l.rest ∧ l.text ≠ [] := by
  simp only [lexeme] at h
  split at h
  · split at h
    · cases h
      simp [digitsLexeme_append]
    · cases h
  · split at h
    · cases h
      simp [nameLexeme_append]
    · split at h
      · split at h
        · cases h
        · rename_i close rest hd
          cases h
          have := List.takeWhile_append_dropWhile (p := (· ≠ c)) (l := cs)
          rw [hd] at this
          simpa using this.symm
      · split at h
        · rename_i hs
          cases h
          exact symbolLexeme?_append hs
        · cases h

/-- The tokens of a text that starts `pos` bytes into the whole. -/
def lexFrom (pos : Nat) (afterOperand : Bool) (cs : List Char) :
    Except SyntaxError (List Token) :=
  match cs with
  | [] => .ok []
  | c :: cs =>
    if Text.isAsciiBlank c then lexFrom (pos + 1) afterOperand cs
    else match _h : lexeme afterOperand (c :: cs) with
      | .error (fault, text) => .error ⟨fault, ⟨pos, pos + byteLength text⟩⟩
      | .ok l => do
        let stop := pos + byteLength l.text
        let tokens ← lexFrom stop l.kind.endsOperand l.rest
        return ⟨l.kind, ⟨pos, stop⟩⟩ :: tokens
termination_by cs.length
decreasing_by
  · simp
  · obtain ⟨happ, hne⟩ := lexeme_append _h
    have := congrArg List.length happ
    have := List.length_pos_iff.mpr hne
    simp only [List.length_append, List.length_cons] at *
    omega

/-- The tokens of a text. -/
def lex (s : String) : Except SyntaxError (List Token) := lexFrom 0 false s.toList

/-- The tokens of a text and the end of it. -/
def tokenize (s : String) : Except SyntaxError (List Token) := do
  let tokens ← lex s
  return tokens ++ [⟨.eof, ⟨s.utf8ByteSize, s.utf8ByteSize⟩⟩]

end Token

end Stencil
