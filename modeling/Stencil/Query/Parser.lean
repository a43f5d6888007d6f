import Stencil.Query.Basic
import Stencil.Query.Token

/-!
# Reading queries

From the loosest to the tightest binding: `|`, `,`, `//`, `or`, `and`, equality, order, sums,
products, remainders, then terms with their steps. A query that uses a name that is not defined
cannot be read.
-/
namespace Stencil.Query

/-- A reader of the tokens that are left. -/
abbrev Reader (α : Type) := StateT (List QueryToken) Option α

namespace Reader

variable {α : Type}

def fail : Reader α := fun _ => none

def take? (f : QueryToken → Option α) : Reader (Option α) := fun tokens =>
  match tokens with
  | token :: rest =>
    match f token with
    | some a => some (some a, rest)
    | none => some (none, tokens)
  | [] => some (none, [])

def accept (token : QueryToken) : Reader Bool := do
  return (← take? fun t => if t = token then some () else none).isSome

def need (token : QueryToken) : Reader Unit := do
  if ← accept token then return () else fail

def extendAtMost (step? : α → Reader (Option α)) : Nat → α → Reader α
  | 0, a => return a
  | n + 1, a => do
    match ← step? a with
    | some b => extendAtMost step? n b
    | none => return a

/-- Apply a step that consumes tokens as long as it applies. -/
def extend (step? : α → Reader (Option α)) (a : α) : Reader α := do
  extendAtMost step? (← get).length a

def chain (operand : Reader Query) (join? : QueryToken → Option (Query → Query → Query)) :
    Reader Query := do
  extend (fun left => do
    match ← take? join? with
    | some join => return some (join left (← operand))
    | none => return none) (← operand)

/-- Readers for a query, with and without commas outside of brackets. -/
structure Inner where
  query : Reader Query
  noComma : Reader Query

/-- The function that a name with so many arguments stands for. -/
def function? (name : String) (args : List Query) : Option Query :=
  match name, args with
  | "null", [] => some (.literal .null)
  | "true", [] => some (.literal (.bool true))
  | "false", [] => some (.literal (.bool false))
  | "empty", [] => some (.call .empty)
  | "error", [] => some (.call .error)
  | "error", [f] => some (.pipe f (.call .error))
  | "not", [] => some (.call .not)
  | "length", [] => some (.call .length)
  | "keys", [] => some (.call .keys)
  | "keys_unsorted", [] => some (.call .keysUnsorted)
  | "add", [] => some (.call .add)
  | "add", [f] => some (.pipe (.collect f) (.call .add))
  | "reverse", [] => some (.call .reverse)
  | "tostring", [] => some (.call .tostring)
  | "select", [f] => some (.cond f .identity (.call .empty))
  | "map", [f] => some (.collect (.pipe (.path .identity [(false, .each)]) f))
  | _, _ => none

def keywords : List String :=
  ["and", "as", "break", "catch", "def", "elif", "else", "end", "foreach", "if", "import",
    "include", "label", "or", "reduce", "then", "try"]

/-- The rest of a text, joined to what was read of it. -/
def textStep? (inner : Inner) (left : Query) : Reader (Option Query) := do
  match ← take? (fun
    | .chars s => some s
    | _ => none) with
  | some s =>
    return some (if s.isEmpty then left else .binary .add left (.literal (.str s)))
  | none =>
    if ← accept .innerStart then
      let f ← inner.query
      need .innerEnd
      return some (.binary .add left (.pipe f (.call .tostring)))
    else return none

/-- A text whose opening quote has been read. -/
def text (inner : Inner) : Reader Query := do
  let first ← take? fun
    | .chars s => some s
    | _ => none
  let q ← extend (textStep? inner) (.literal (.str (first.getD "")))
  need .quoteEnd
  return q

def args (inner : Inner) : Reader (List Query) := do
  if ← accept (.opening '(') then
    let first ← inner.query
    let all ← extend (fun args => do
      if ← accept (.operator ";") then return some (args ++ [← inner.query]) else return none)
      [first]
    need (.closing ')')
    return all
  else return []

/-- An index or a slice whose opening bracket has been read. -/
def bracketed (inner : Inner) : Reader Step := do
  if ← accept (.closing ']') then return .each
  if ← accept (.operator ":") then
    let high ← inner.query
    need (.closing ']')
    return .before high
  let low ← inner.query
  if ← accept (.closing ']') then return .at low
  need (.operator ":")
  if ← accept (.closing ']') then return .after low
  let high ← inner.query
  need (.closing ']')
  return .between low high

def field? : QueryToken → Option String
  | .field s => some s
  | _ => none

def step? (inner : Inner) : Reader (Option Step) := do
  if let some name ← take? field? then return some (.at (.literal (.str name)))
  if ← accept (.opening '[') then return some (← bracketed inner)
  if ← accept (.operator ".") then
    if ← accept .quoteStart then return some (.at (← text inner))
    if ← accept (.opening '[') then return some (← bracketed inner)
    fail
  return none

/-- How many question marks follow. -/
def questionMarks : Reader Nat :=
  extend (fun n => do return if ← accept (.operator "?") then some (n + 1) else none) 0

/-- The steps of a path after those that are given. A step with a question mark is lenient. -/
def stepsFrom (inner : Inner) : List (Bool × Step) → Reader (List (Bool × Step)) :=
  extend fun steps => do
    match ← step? inner with
    | some step => return some (steps ++ [(decide (0 < (← questionMarks)), step)])
    | none => return none

/-- The member of the input under a key. -/
def memberOfInput (key : Query) : Query := .path .identity [(false, .at key)]

/-- A key of an object, with the value it has when none is written. -/
def key (inner : Inner) : Reader (Query × Option Query) := do
  if ← accept .quoteStart then
    let q ← text inner
    return (q, some (memberOfInput q))
  if ← accept (.opening '(') then
    let q ← inner.query
    need (.closing ')')
    return (q, none)
  match ← take? (fun
    | .word s => some s
    | _ => none) with
  | some name => return (.literal (.str name), some (memberOfInput (.literal (.str name))))
  | none => fail

def entry (inner : Inner) (base : Query) : Reader Query := do
  let (k, short) ← key inner
  if ← accept (.operator ":") then return .entry base k (← inner.noComma)
  match short with
  | some value => return .entry base k value
  | none => fail

/-- An object whose opening brace has been read. -/
def object (inner : Inner) : Reader Query := do
  let start := Query.literal (.obj [])
  if ← accept (.closing '}') then return start
  let q ← extend (fun base => do
    if ← accept (.operator ",") then return some (← entry inner base) else return none)
    (← entry inner start)
  need (.closing '}')
  return q

/-- A condition whose first word has been read. -/
def cond (inner : Inner) : Reader Query := do
  let branch : Reader (Query × Query) := do
    let test ← inner.query
    need (.word "then")
    return (test, ← inner.query)
  let branches ← extend (fun branches => do
    if ← accept (.word "elif") then return some (branches ++ [← branch]) else return none)
    [← branch]
  let no ← if ← accept (.word "else") then inner.query else pure .identity
  need (.word "end")
  return branches.foldr (fun (test, yes) no => .cond test yes no) no

def number (s : String) : Item :=
  match Decimal.readInt64? s with
  | some n => .int n
  | none => .decimal s

def atom (inner : Inner) : Reader Query := do
  if ← accept .quoteStart then return ← text inner
  if ← accept (.opening '(') then
    let q ← inner.query
    need (.closing ')')
    return q
  if ← accept (.opening '[') then
    if ← accept (.closing ']') then return .literal (.arr [])
    let q ← inner.query
    need (.closing ']')
    return .collect q
  if ← accept (.opening '{') then return ← object inner
  if ← accept (.word "if") then return ← cond inner
  match ← take? some with
  | some (.number s) => return .literal (number s)
  | some (.word name) =>
    if keywords.contains name then fail
    else match function? name (← args inner) with
      | some q => return q
      | none => fail
  | _ => fail

/-- A path from the input: a point, a name after a point or a text after a point, and more steps. -/
def inputPath? (inner : Inner) : Reader (Option Query) := do
  let first? ← do
    if let some name ← take? field? then pure (some [Step.at (.literal (.str name))])
    else if ← accept (.operator ".") then
      if ← accept .quoteStart then pure (some [Step.at (← text inner)]) else pure (some [])
    else pure none
  match first? with
  | none => return none
  | some first =>
    let lenient := decide (0 < (← questionMarks))
    return some (.path .identity (← stepsFrom inner (first.map fun step => (lenient, step))))

/-- A path, or an atom with the steps of a path after it, and the signs before. -/
def term (inner : Inner) : Reader Query := do
  let signs ← extend (fun n => do
    return if ← accept (.operator "-") then some (n + 1) else none) 0
  let q ← match ← inputPath? inner with
    | some q => pure q
    | none =>
      let base ← atom inner
      let base := Nat.repeat Query.attempt (← questionMarks) base
      match ← stepsFrom inner [] with
      | [] => pure base
      | steps => pure (.path base steps)
  return Nat.repeat Query.negate signs q

def operator (table : List (String × QueryOperator)) (token : QueryToken) :
    Option (Query → Query → Query) :=
  match token with
  | .operator s => ((table.find? (·.1 = s)).map Prod.snd).map Query.binary
  | _ => none

def joinBy (token : QueryToken) (join : Query → Query → Query) (t : QueryToken) :
    Option (Query → Query → Query) :=
  if t = token then some join else none

/-- Everything that binds tighter than a comma. -/
def operands (inner : Inner) : Reader Query :=
  let remainder := chain (term inner) (operator [("%", .rem)])
  let product := chain remainder (operator [("*", .mul), ("/", .div)])
  let sum := chain product (operator [("+", .add), ("-", .sub)])
  let order := chain sum (operator [("<", .lt), ("<=", .le), (">", .gt), (">=", .ge)])
  let equality := chain order (operator [("==", .eq), ("!=", .ne)])
  let conjunction := chain equality (joinBy (.word "and") .and)
  let disjunction := chain conjunction (joinBy (.word "or") .or)
  chain disjunction (joinBy (.operator "//") .alternative)

def withCommas (inner : Inner) : Reader Query :=
  chain (chain (operands inner) (joinBy (.operator ",") .both)) (joinBy (.operator "|") .pipe)

def withoutCommas (inner : Inner) : Reader Query :=
  chain (operands inner) (joinBy (.operator "|") .pipe)

/-- Readers for brackets that nest at most so deep. -/
def nested : Nat → Inner
  | 0 => ⟨fail, fail⟩
  | n + 1 => ⟨withCommas (nested n), withoutCommas (nested n)⟩

end Reader

/-- The query that a program states. -/
def parse? (program : String) : Option Query := do
  let tokens ← QueryToken.lex? program
  let (q, rest) ← (Reader.nested (tokens.length + 1)).query tokens
  if rest.isEmpty then some q else none

end Stencil.Query
