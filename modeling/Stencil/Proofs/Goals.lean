import Mathlib
import Stencil.Proofs.Precedence

/-!
# Goals

What is still to be read of a text, as a stack of goals that is read token by token. A goal takes a
token, which may bring further goals; where it does not take one it is passed over if it is
optional, and the text is at fault otherwise. Only the kinds of the tokens matter.
-/
namespace Stencil.Parser

/-- Something that is to be read next, or that may be. -/
inductive Goal where
  /-- Any number of `not`. -/
  | marks
  /-- An atom, a range or a parenthesised expression. -/
  | value
  /-- Any number of steps of a path. -/
  | steps
  /-- What follows the point of a path. -/
  | member
  /-- Further operands with operators of a level before them. -/
  | more (level : Nat)
  /-- At most one comparison. -/
  | compared
  /-- The second bound of a range. -/
  | bound
  | rightParen
  | rightBracket
  | assign
  | colon
  | inWord
  | name
  | filters
  | arguments
  /-- An argument, which has a name if one before it has. -/
  | argument (named : Bool)
  | furtherArguments (named : Bool)
  /-- A colon that makes a key of the name before it, which is an operand if there is none. -/
  | key (operand : Bool)
  | modifiers
  /-- A comma that may follow a modifier. -/
  | comma
  /-- A colon that makes a group of the first item, and further items. -/
  | group
  | items
  | alternatives
  | subject
  | newName
  | parameters
  /-- A parameter after a comma. -/
  | parameter

namespace Goal

/-- What may follow the first operand of an expression. -/
def operations : List Goal := [steps, more 5, more 4, compared, more 1, more 0]

def expression : List Goal := marks :: value :: operations

/-- An expression of a level. -/
def ofLevel : Nat → List Goal
  | 0 => expression
  | 1 => [marks, value, steps, more 5, more 4, compared, more 1]
  | 2 => [marks, value, steps, more 5, more 4, compared]
  | 3 => [value, steps, more 5, more 4, compared]
  | 4 => [value, steps, more 5, more 4]
  | 5 => [value, steps, more 5]
  | _ => [value, steps]

def ofValue? (kind : TokenKind) : Option (List Goal) :=
  if kind.isSymbol .leftParen then some (expression ++ [bound, rightParen])
  else if (atom? kind).isSome then some [] else none

def ofParameter? : TokenKind → Option (List Goal)
  | .ident _ => some (colon :: expression ++ [parameters])
  | _ => none

/-- The goals that a token brings which is taken. -/
def take? (kind : TokenKind) : Goal → Option (List Goal)
  | marks => if kind.isWord "not" then some [marks] else none
  | value => ofValue? kind
  | steps =>
    if kind.isSymbol .dot then some [member, steps]
    else if kind.isSymbol .leftBracket then some (expression ++ [rightBracket, steps])
    else none
  | member => match kind with
    | .ident _ | .int _ => some []
    | _ => none
  | more level => (operatorAt level kind).map fun _ => ofLevel (level + 1) ++ [more level]
  | compared => (comparisonOperator? kind).map fun _ => ofLevel 4
  | bound => if kind.isSymbol .dotDot then some expression else none
  | rightParen => if kind.isSymbol .rightParen then some [] else none
  | rightBracket => if kind.isSymbol .rightBracket then some [] else none
  | assign => if kind.isSymbol .assign then some [] else none
  | colon => if kind.isSymbol .colon then some [] else none
  | comma => if kind.isSymbol .comma then some [] else none
  | inWord => if kind.isWord "in" then some [] else none
  | name => match kind with
    | .ident _ => some []
    | _ => none
  | filters => if kind.isSymbol .pipe then some [name, arguments, filters] else none
  | arguments =>
    if kind.isSymbol .colon then some [argument false, furtherArguments false] else none
  | argument true => match kind with
    | .ident _ => some (colon :: expression)
    | _ => none
  | argument false =>
    if kind.isWord "not" then some (key false :: expression)
    else match kind with
      | .ident _ => some (key true :: operations)
      | kind => (ofValue? kind).map (· ++ operations)
  | furtherArguments named =>
    if kind.isSymbol .comma then some [argument named, furtherArguments named] else none
  | key operand =>
    if kind.isSymbol .colon then some (if operand then [marks, value] else []) else none
  | modifiers =>
    if kind.isWord "reversed" then some [comma, modifiers]
    else if kind.isWord "limit" || kind.isWord "offset" then
      some [colon, value, steps, comma, modifiers]
    else none
  | group =>
    if kind.isSymbol .colon || kind.isSymbol .comma then some (expression ++ [items]) else none
  | items => if kind.isSymbol .comma then some (expression ++ [items]) else none
  | alternatives =>
    if kind.isSymbol .comma || kind.isWord "or" then some (ofLevel 4 ++ [alternatives]) else none
  | subject => if kind.isWord "with" then some [value, steps, newName] else none
  | newName => if kind.isWord "as" then some [name] else none
  | parameters => if kind.isSymbol .comma then some [parameter] else ofParameter? kind
  | parameter => ofParameter? kind

/-- Whether a goal is passed over where it does not take the token. -/
def isOptional : Goal → Bool
  | marks | steps | more _ | compared | bound | comma | filters | arguments
  | furtherArguments _ | key _ | modifiers | group | items | alternatives | subject | newName => true
  | _ => false

/-- Whether a text may end where the goal has not been reached. -/
def mayEnd : Goal → Bool
  | parameters | parameter => true
  | g => g.isOptional

/-- After an argument with a name, all arguments have names. -/
def naming : List Goal → List Goal
  | furtherArguments _ :: σ => furtherArguments true :: σ
  | g :: σ => g :: naming σ
  | [] => []

/-- What becomes of the goals beneath one that takes a token. -/
def beneath : Goal → List Goal → List Goal
  | key _, σ => naming σ
  | _, σ => σ

end Goal

open Goal

/-- Read a token. -/
def step (kind : TokenKind) : List Goal → Option (List Goal)
  | [] => none
  | g :: σ => match g.take? kind with
    | some gs => some (gs ++ g.beneath σ)
    | none => if g.isOptional then step kind σ else none

/-- Read a text to its end. A text that fails does so at the first token that is not taken; one that
ends with the point of a path fails at the point. -/
def scan (σ : List Goal) : List Token → Except (List Token) Unit
  | [] => if σ.all mayEnd then .ok () else .error []
  | t :: ts => match step t.kind σ with
    | none => .error (t :: ts)
    | some σ => if t.kind.isSymbol .dot && ts.isEmpty then .error [t] else scan σ ts

variable {g : Goal} {gs σ : List Goal} {t : Token} {ts : List Token}

theorem step_take {kind : TokenKind} (h : g.take? kind = some gs) :
    step kind (g :: σ) = some (gs ++ g.beneath σ) := by
  rw [step, h]

theorem step_pass (hg : g.isOptional) {kind : TokenKind} (h : g.take? kind = none) :
    step kind (g :: σ) = step kind σ := by
  rw [step, h]
  exact if_pos hg

theorem step_reject (hg : g.isOptional = false) {kind : TokenKind} (h : g.take? kind = none) :
    step kind (g :: σ) = none := by
  rw [step, h, hg]
  rfl

theorem scan_congr {σ σ' : List Goal} (h : step t.kind σ = step t.kind σ') :
    scan σ (t :: ts) = scan σ' (t :: ts) := by
  rw [scan, scan, h]

theorem scan_of_step {σ' : List Goal} (h : step t.kind σ = some σ')
    (hdot : t.kind.isSymbol .dot = false) : scan σ (t :: ts) = scan σ' ts := by
  rw [scan, h, hdot]
  rfl

theorem scan_take (h : g.take? t.kind = some gs) (hdot : t.kind.isSymbol .dot = false) :
    scan (g :: σ) (t :: ts) = scan (gs ++ g.beneath σ) ts :=
  scan_of_step (step_take h) hdot

theorem mayEnd_of_isOptional (h : g.isOptional) : g.mayEnd := by
  cases g <;> first | rfl | cases h

/-- An optional goal that does not take the next token is passed over. -/
theorem scan_pass (hg : g.isOptional) (h : Next (fun kind => g.take? kind = none) ts) :
    scan (g :: σ) ts = scan σ ts := by
  cases ts with
  | nil => rw [scan, scan, List.all_cons, mayEnd_of_isOptional hg, Bool.true_and]
  | cons t ts => exact scan_congr (step_pass hg (h t rfl))

/-- A text fails where a goal that is asked for is not reached. -/
theorem scan_reject (hg : g.mayEnd = false) (h : Next (fun kind => g.take? kind = none) ts) :
    scan (g :: σ) ts = .error ts := by
  have hoptional : g.isOptional = false :=
    Bool.eq_false_iff.mpr fun hg' => absurd (mayEnd_of_isOptional hg') (by rw [hg]; decide)
  cases ts with
  | nil => rw [scan, List.all_cons, hg]; rfl
  | cons t ts => rw [scan, step_reject hoptional (h t rfl)]

end Stencil.Parser
