import Mathlib
import Stencil.Expr.Parser

/-!
# Printing expressions and statements

What an expression is written as: its tokens with single spaces between, and parentheses around an
operand that binds less tightly than its place asks for. From the loosest to the tightest there are
`or` (0), `and` (1), `not` (2), comparisons (3), `+` and `-` (4), `*`, `/` and `%` (5), and the
steps of a path (6).
-/
namespace Stencil

/-- A name, as the tokens have it. -/
def IsIdentifier (name : String) : Prop :=
  ∃ first parts mark, name.toList = first :: parts ++ mark ∧ Token.isNameStart first ∧
    (∀ c ∈ parts, Token.isNamePart c) ∧ (mark = [] ∨ mark = ['?'])

/-- The names that stand for something other than a variable. -/
def reservedWords : List String :=
  ["true", "false", "nil", "null", "empty", "blank", "and", "or", "not", "contains"]

namespace TokenKind

def print : TokenKind → String
  | .ident name => name
  | .int n => Json.intText n.toInt
  | .str s => if '"' ∈ s.toList then "'" ++ s ++ "'" else "\"" ++ s ++ "\""
  | .symbol s => s.text
  | .float _ => ""
  | .eof => ""

/-- What can be printed so that it is read again. -/
def Printable : TokenKind → Prop
  | .ident name => IsIdentifier name
  | .int n => 0 ≤ n
  | .str s => '"' ∉ s.toList ∨ '\'' ∉ s.toList
  | .symbol _ => True
  | .float _ => False
  | .eof => False

def printAll (kinds : List TokenKind) : String := " ".intercalate (kinds.map print)

/-- Put parentheses around what binds less tightly than required. -/
def wrap (required level : Nat) (kinds : List TokenKind) : List TokenKind :=
  if level < required then .symbol .leftParen :: kinds ++ [.symbol .rightParen] else kinds

def commas : List (List TokenKind) → List TokenKind
  | [] => []
  | kinds :: later => kinds ++ later.flatMap (.symbol .comma :: ·)

end TokenKind

open TokenKind (wrap commas)

namespace Operator

def level : Operator → Nat
  | .or => 0
  | .and => 1
  | .add | .sub => 4
  | .mul | .div | .mod => 5
  | _ => 3

def kind : Operator → TokenKind
  | .or => .ident "or"
  | .and => .ident "and"
  | .eq => .symbol .eq
  | .ne => .symbol .ne
  | .lt => .symbol .lt
  | .le => .symbol .le
  | .gt => .symbol .gt
  | .ge => .symbol .ge
  | .contains => .ident "contains"
  | .add => .symbol .plus
  | .sub => .symbol .minus
  | .mul => .symbol .star
  | .div => .symbol .slash
  | .mod => .symbol .percent

/-- How tightly the left operand has to bind: operators group to the left, comparisons do not. -/
def leftLevel (op : Operator) : Nat := if op.level = 3 then 4 else op.level

end Operator

def Value.literalKind : Value → TokenKind
  | .nil => .ident "nil"
  | .bool b => .ident (if b then "true" else "false")
  | .int n => .int n
  | .str s => .str s
  | _ => .eof

namespace Expr

def level : Expr → Nat
  | .not _ => 2
  | .binary op _ _ => op.level
  | _ => 6

/-- The tokens of an expression without filters. -/
def kinds : Expr → List TokenKind
  | .literal v => [v.literalKind]
  | .empty => [.ident "empty"]
  | .variable name => [.ident name]
  | .property base key => wrap 6 base.level (kinds base) ++ [.symbol .dot, .ident key]
  | .index base key =>
    wrap 6 base.level (kinds base) ++ .symbol .leftBracket :: kinds key ++ [.symbol .rightBracket]
  | .range first last =>
    .symbol .leftParen :: kinds first ++ .symbol .dotDot :: kinds last ++ [.symbol .rightParen]
  | .not operand => .ident "not" :: wrap 2 operand.level (kinds operand)
  | .binary op left right =>
    wrap op.leftLevel left.level (kinds left) ++
      op.kind :: wrap (op.level + 1) right.level (kinds right)
  | .filtered _ _ => []

/-- The tokens of an expression in a place that asks for a level. -/
def operandKinds (required : Nat) (e : Expr) : List TokenKind := wrap required e.level e.kinds

/-- Expressions without filters, of names, texts with a quote to spare, and integers that need no
sign. -/
def Printable : Expr → Prop
  | .literal (.int n) => 0 ≤ n
  | .literal (.str s) => '"' ∉ s.toList ∨ '\'' ∉ s.toList
  | .literal (.bool _) => True
  | .literal .nil => True
  | .literal _ => False
  | .empty => True
  | .variable name => IsIdentifier name ∧ name ∉ reservedWords
  | .property base key => Printable base ∧ IsIdentifier key
  | .index base key => Printable base ∧ Printable key
  | .range first last => Printable first ∧ Printable last
  | .not operand => Printable operand
  | .binary _ left right => Printable left ∧ Printable right
  | .filtered _ _ => False

end Expr

/-- The tokens of an expression under a name. -/
def parameterKinds (entry : String × Expr) : List TokenKind :=
  .ident entry.1 :: .symbol .colon :: entry.2.kinds

namespace FilterCall

def argumentKinds (call : FilterCall) : List (List TokenKind) :=
  call.args.map Expr.kinds ++ call.named.map parameterKinds

def kinds (call : FilterCall) : List TokenKind :=
  .symbol .pipe :: .ident call.name ::
    if call.argumentKinds = [] then [] else .symbol .colon :: commas call.argumentKinds

structure Printable (call : FilterCall) : Prop where
  name : IsIdentifier call.name
  args : ∀ e ∈ call.args, e.Printable
  named : ∀ entry ∈ call.named, IsIdentifier entry.1 ∧ entry.2.Printable

/-- A call without its place in a text. -/
def unplaced (call : FilterCall) : FilterCall := .mk call.name call.args call.named ⟨0, 0⟩

end FilterCall

namespace Expr

/-- The tokens of an expression and of the filters that it is passed through. -/
def pipelineKinds : Expr → List TokenKind
  | .filtered base calls => base.kinds ++ calls.flatMap FilterCall.kinds
  | e => e.kinds

/-- Expressions that may have filters outside of everything else. -/
def PrintablePipeline : Expr → Prop
  | .filtered base calls => base.Printable ∧ calls ≠ [] ∧ ∀ call ∈ calls, call.Printable
  | e => e.Printable

def print (e : Expr) : String := TokenKind.printAll e.pipelineKinds

/-- An expression without the places of the filters outside of everything else. -/
def unplaced : Expr → Expr
  | .filtered base calls => .filtered base (calls.map FilterCall.unplaced)
  | e => e

end Expr

def LoopModifiers.kinds (m : LoopModifiers) : List TokenKind :=
  (if m.reversed then [.ident "reversed"] else []) ++
    (m.limit.elim [] fun e => .ident "limit" :: .symbol .colon :: e.operandKinds 6) ++
    m.offset.elim [] fun e => .ident "offset" :: .symbol .colon :: e.operandKinds 6

/-- The tokens of what is passed to an included template. -/
def subjectKinds (subject : Option (Expr × Option String)) : List TokenKind :=
  subject.elim [] fun entry => .ident "with" :: entry.1.operandKinds 6 ++
    entry.2.elim [] fun name => [.ident "as", .ident name]

namespace Statement

def kinds : Statement → List TokenKind
  | .expression e => e.pipelineKinds
  | .assignment name value => .ident name :: .symbol .assign :: value.pipelineKinds
  | .loop name source modifiers =>
    .ident name :: .ident "in" :: source.operandKinds 6 ++ modifiers.kinds
  | .cycle group values =>
    (group.elim [] fun e => e.kinds ++ [.symbol .colon]) ++ commas (values.map Expr.kinds)
  | .when values => commas (values.map (Expr.operandKinds 4))
  | .include template subject bindings =>
    template.operandKinds 6 ++
      subjectKinds subject ++ bindings.flatMap fun entry => .symbol .comma :: parameterKinds entry

def print (s : Statement) : String := TokenKind.printAll s.kinds

def production : Statement → Production
  | .expression _ => .expression
  | .assignment _ _ => .assignment
  | .loop _ _ _ => .loop
  | .cycle _ _ => .cycle
  | .when _ => .when
  | .include _ _ _ => .include

/-- Statements over printable expressions; a list of values holds at least one. -/
def Printable : Statement → Prop
  | .expression e => e.PrintablePipeline
  | .assignment name value => IsIdentifier name ∧ value.PrintablePipeline
  | .loop name source modifiers => IsIdentifier name ∧ source.Printable ∧
      (∀ e ∈ modifiers.limit, e.Printable) ∧ ∀ e ∈ modifiers.offset, e.Printable
  | .cycle group values => (∀ e ∈ group, e.Printable) ∧ values ≠ [] ∧ ∀ e ∈ values, e.Printable
  | .when values => values ≠ [] ∧ ∀ e ∈ values, e.Printable
  | .include template subject bindings => template.Printable ∧
      (∀ entry ∈ subject, entry.1.Printable ∧ ∀ name ∈ entry.2, IsIdentifier name) ∧
      ∀ entry ∈ bindings, IsIdentifier entry.1 ∧ entry.2.Printable

def unplaced : Statement → Statement
  | .expression e => .expression e.unplaced
  | .assignment name value => .assignment name value.unplaced
  | s => s

end Statement

end Stencil
