import Stencil.Expr.Basic
import Stencil.Expr.Token

/-!
# Reading expressions and statements

From the loosest to the tightest binding: filters, `or`, `and`, `not`, one comparison, `+` and `-`,
`*`, `/` and `%`, then the steps of a path. Each level is given the parser for what may stand
between brackets, so that only the nesting of brackets recurses; no text has more nested brackets
than tokens.
-/
namespace Stencil

/-- What a parser misses at the first token that it cannot use. -/
inductive Complaint where
  | expected (what : String)
  | unexpected
  | positionalAfterNamed

/-- A complaint and the tokens from which it arose on. -/
structure Stuck where
  complaint : Complaint
  rest : List Token

/-- The error for a text of `size` bytes. -/
def Stuck.error (size : Nat) (s : Stuck) : SyntaxError :=
  let token := s.rest.head?.getD ⟨.eof, ⟨size, size⟩⟩
  match s.complaint with
  | .expected what => ⟨.expected what token.kind, token.span⟩
  | .unexpected => ⟨.unexpectedToken token.kind, token.span⟩
  | .positionalAfterNamed => ⟨.positionalAfterNamed, token.span⟩

/-- A reader of the tokens that are left. -/
abbrev Parser (α : Type) := StateT (List Token) (Except Stuck) α

namespace Parser

variable {α β : Type}

def stuck (complaint : Complaint) : Parser α := fun rest => .error ⟨complaint, rest⟩

/-- Consume the next token if it is of a kind. -/
def take? (f : TokenKind → Option β) : Parser (Option β) := fun tokens =>
  match tokens with
  | token :: rest =>
    match f token.kind with
    | some b => .ok (some b, rest)
    | none => .ok (none, tokens)
  | [] => .ok (none, [])

def accept (test : TokenKind → Bool) : Parser Bool := do
  return (← take? fun kind => if test kind then some () else none).isSome

def acceptSymbol (s : Symbol) : Parser Bool := accept (TokenKind.isSymbol s)

def acceptWord (word : String) : Parser Bool := accept (TokenKind.isWord word)

/-- Consume the next token, which has to be of a kind. -/
def need (what : String) (f : TokenKind → Option β) : Parser β := do
  match ← take? f with
  | some b => return b
  | none => stuck (.expected what)

def needSymbol (what : String) (s : Symbol) : Parser Unit :=
  need what fun kind => if kind.isSymbol s then some () else none

def name (what : String) : Parser String :=
  need what fun
    | .ident name => some name
    | _ => none

/-- Apply a step at most `n` times, as long as it applies. -/
def extendAtMost (step? : α → Parser (Option α)) : Nat → α → Parser α
  | 0, a => return a
  | n + 1, a => do
    match ← step? a with
    | some b => extendAtMost step? n b
    | none => return a

/-- Apply a step that consumes tokens as long as it applies. -/
def extend (step? : α → Parser (Option α)) (a : α) : Parser α := do
  extendAtMost step? (← get).length a

/-- Operands with operators between them, grouped to the left. -/
def chain (operand : Parser Expr) (operator? : TokenKind → Option Operator) : Parser Expr := do
  extend (fun left => do
    match ← take? operator? with
    | some op => return some (.binary op left (← operand))
    | none => return none) (← operand)

/-- The value that a single token stands for. -/
def atom? : TokenKind → Option Expr
  | .int n => some (.literal (.int n))
  | .float x => some (.literal (.float x))
  | .str s => some (.literal (.str s))
  | .ident "true" => some (.literal (.bool true))
  | .ident "false" => some (.literal (.bool false))
  | .ident "nil" => some (.literal .nil)
  | .ident "null" => some (.literal .nil)
  | .ident "empty" => some .empty
  | .ident "blank" => some .empty
  | .ident name => some (.variable name)
  | _ => none

/-- An atom, a range or a parenthesised expression. -/
def primary (inner : Parser Expr) : Parser Expr := do
  if ← acceptSymbol .leftParen then
    let first ← inner
    if ← acceptSymbol .dotDot then
      let last ← inner
      needSymbol "')'" .rightParen
      return .range first last
    else
      needSymbol "')'" .rightParen
      return first
  else need "a value" atom?

/-- What follows the point of a path. A text that ends with the point is at fault there. -/
def member (base : Expr) : Parser Expr := fun tokens =>
  match tokens with
  | _ :: ⟨.ident key, _⟩ :: rest => .ok (.property base key, rest)
  | _ :: ⟨.int i, _⟩ :: rest => .ok (.index base (.literal (.int i)), rest)
  | _ :: token :: rest => .error ⟨.expected "property name after '.'", token :: rest⟩
  | tokens => .error ⟨.expected "property name after '.'", tokens⟩

/-- One more step of a path: a point with a name or a position, or an index in brackets. -/
def pathStep? (inner : Parser Expr) (base : Expr) : Parser (Option Expr) := do
  if (← get).head?.any (·.kind.isSymbol .dot) then return some (← member base)
  else if ← acceptSymbol .leftBracket then
    let key ← inner
    needSymbol "']'" .rightBracket
    return some (.index base key)
  else return none

def path (inner : Parser Expr) : Parser Expr := do
  extend (pathStep? inner) (← primary inner)

def productOperator? : TokenKind → Option Operator
  | .symbol .star => some .mul
  | .symbol .slash => some .div
  | .symbol .percent => some .mod
  | _ => none

def product (inner : Parser Expr) : Parser Expr := chain (path inner) productOperator?

def sumOperator? : TokenKind → Option Operator
  | .symbol .plus => some .add
  | .symbol .minus => some .sub
  | _ => none

def sum (inner : Parser Expr) : Parser Expr := chain (product inner) sumOperator?

def comparisonOperator? : TokenKind → Option Operator
  | .symbol .eq => some .eq
  | .symbol .ne => some .ne
  | .symbol .lt => some .lt
  | .symbol .le => some .le
  | .symbol .gt => some .gt
  | .symbol .ge => some .ge
  | .ident "contains" => some .contains
  | _ => none

/-- At most one comparison; comparisons do not associate. -/
def comparison (inner : Parser Expr) : Parser Expr := do
  let left ← sum inner
  match ← take? comparisonOperator? with
  | some op => return .binary op left (← sum inner)
  | none => return left

/-- Any number of `not` before a comparison. -/
def negation (inner : Parser Expr) : Parser Expr := do
  let marks ← extend (fun n => do
    return if ← acceptWord "not" then some (n + 1) else none) 0
  return Nat.repeat Expr.not marks (← comparison inner)

def conjunction (inner : Parser Expr) : Parser Expr :=
  chain (negation inner) fun kind => if kind.isWord "and" then some .and else none

def disjunction (inner : Parser Expr) : Parser Expr :=
  chain (conjunction inner) fun kind => if kind.isWord "or" then some .or else none

/-- An expression without filters whose brackets nest at most `n` deep. -/
def nested : Nat → Parser Expr
  | 0 => stuck (.expected "a value")
  | n + 1 => disjunction (nested n)

/-- The arguments of a filter call: positional ones, then named ones. -/
abbrev Arguments := List Expr × List (String × Expr)

def argument (inner : Parser Expr) (before : Arguments) : Parser Arguments := do
  match ← get with
  | ⟨.ident key, _⟩ :: ⟨.symbol .colon, _⟩ :: rest =>
    set rest
    return (before.1, before.2 ++ [(key, ← inner)])
  | _ =>
    if before.2.isEmpty then return (before.1 ++ [← inner], [])
    else stuck .positionalAfterNamed

/-- From the first of the tokens to the last one that was consumed. -/
def consumedSpan (tokens rest : List Token) : Span :=
  let consumed := tokens.take (tokens.length - rest.length)
  ⟨(consumed.head?.map (·.span.start)).getD 0, (consumed.getLast?.map (·.span.stop)).getD 0⟩

def arguments (inner : Parser Expr) : Parser Arguments := do
  if ← acceptSymbol .colon then
    extend (fun before => do
      if ← acceptSymbol .comma then return some (← argument inner before) else return none)
      (← argument inner ([], []))
  else return ([], [])

def filterCall (inner : Parser Expr) : Parser FilterCall := do
  let tokens ← get
  let filter ← name "filter name"
  let (args, named) ← arguments inner
  return .mk filter args named (consumedSpan tokens (← get))

/-- An expression and the filters it is passed through. -/
def pipeline (inner : Parser Expr) : Parser Expr := do
  let base ← inner
  let calls ← extend (fun calls => do
    if ← acceptSymbol .pipe then return some (calls ++ [← filterCall inner]) else return none) []
  return if calls.isEmpty then base else .filtered base calls

def assignment (inner : Parser Expr) : Parser Statement := do
  let target ← name "variable name"
  needSymbol "'='" .assign
  return .assignment target (← pipeline inner)

def modifier? (inner : Parser Expr) (m : LoopModifiers) : Parser (Option LoopModifiers) := do
  if ← acceptWord "reversed" then
    return some { m with reversed := true }
  else if ← acceptWord "limit" then
    needSymbol "':' after limit" .colon
    return some { m with limit := some (← path inner) }
  else if ← acceptWord "offset" then
    needSymbol "':' after offset" .colon
    return some { m with offset := some (← path inner) }
  else return none

/-- A modifier and the comma that may follow it. -/
def modifierStep? (inner : Parser Expr) (m : LoopModifiers) : Parser (Option LoopModifiers) := do
  match ← modifier? inner m with
  | some next =>
    discard (acceptSymbol .comma)
    return some next
  | none => return none

def loop (inner : Parser Expr) : Parser Statement := do
  let item ← name "loop variable"
  need "'in'" fun kind => if kind.isWord "in" then some () else none
  let source ← path inner
  return .loop item source (← extend (modifierStep? inner) {})

/-- Items with separators between them. -/
def separated (item : Parser Expr) (isSeparator : TokenKind → Bool) (first : Expr) :
    Parser (List Expr) :=
  extend (fun items => do
    if ← accept isSeparator then return some (items ++ [← item]) else return none) [first]

def cycle (inner : Parser Expr) : Parser Statement := do
  let first ← inner
  if ← acceptSymbol .colon then
    return .cycle (some first) (← separated inner (TokenKind.isSymbol .comma) (← inner))
  else return .cycle none (← separated inner (TokenKind.isSymbol .comma) first)

def when (inner : Parser Expr) : Parser Statement := do
  let first ← sum inner
  return .when
    (← separated (sum inner) (fun kind => kind.isSymbol .comma || kind.isWord "or") first)

def parameter? (inner : Parser Expr) (bindings : List (String × Expr)) :
    Parser (Option (List (String × Expr))) := do
  discard (acceptSymbol .comma)
  if (← get).isEmpty then return none
  let key ← name "parameter name"
  needSymbol "':' after parameter name" .colon
  return some (bindings ++ [(key, ← inner)])

def subject? (inner : Parser Expr) : Parser (Option (Expr × Option String)) := do
  if ← acceptWord "with" then
    let value ← path inner
    if ← acceptWord "as" then return some (value, some (← name "alias name"))
    else return some (value, none)
  else return none

def inclusion (inner : Parser Expr) : Parser Statement := do
  let template ← path inner
  let subject ← subject? inner
  return .include template subject (← extend (parameter? inner) [])

/-- Everything up to the end of the text. -/
def whole (p : Parser α) : Parser α := do
  let a ← p
  if (← get).isEmpty then return a else stuck .unexpected

def statement (inner : Parser Expr) : Production → Parser Statement
  | .expression => return .expression (← pipeline inner)
  | .assignment => assignment inner
  | .loop => loop inner
  | .cycle => cycle inner
  | .when => when inner
  | .include => inclusion inner

/-- What a parser makes of a whole text. -/
def read (p : Parser Expr → Parser α) (s : String) : Except SyntaxError α := do
  let tokens ← Token.lex s
  match whole (p (nested tokens.length)) tokens with
  | .ok (a, _) => return a
  | .error e => throw (e.error s.utf8ByteSize)

end Parser

/-- The expression, with filters, that a text is. -/
def Expr.parse (s : String) : Except SyntaxError Expr := Parser.read Parser.pipeline s

/-- The statement of a form that a text is. -/
def Statement.parse (production : Production) (s : String) : Except SyntaxError Statement :=
  Parser.read (Parser.statement · production) s

end Stencil
