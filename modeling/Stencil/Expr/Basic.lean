import Stencil.Source
import Stencil.Value.Basic

/-!
# Expressions and statements

The trees that outputs and tag arguments are read into, and the filter calls inside them.
-/
namespace Stencil

inductive Operator where
  | or
  | and
  | eq
  | ne
  | lt
  | le
  | gt
  | ge
  | contains
  | add
  | sub
  | mul
  | div
  | mod
  deriving DecidableEq, Repr

def Operator.name : Operator → String
  | .or => "Or"
  | .and => "And"
  | .eq => "Eq"
  | .ne => "Ne"
  | .lt => "Lt"
  | .le => "Le"
  | .gt => "Gt"
  | .ge => "Ge"
  | .contains => "Contains"
  | .add => "Add"
  | .sub => "Sub"
  | .mul => "Mul"
  | .div => "Div"
  | .mod => "Mod"

mutual

inductive Expr where
  | literal (value : Value)
  /-- The keywords `empty` and `blank`: a test for emptiness beside `==` and `!=`, the empty text
  elsewhere. -/
  | empty
  | variable (name : String)
  | property (base : Expr) (key : String)
  | index (base key : Expr)
  /-- The integers between two bounds, both included. -/
  | range (first last : Expr)
  | not (operand : Expr)
  | binary (op : Operator) (left right : Expr)
  /-- A value passed through filters, the first one first. -/
  | filtered (base : Expr) (calls : List FilterCall)

/-- A filter with its positional and its named arguments. -/
inductive FilterCall where
  | mk (name : String) (args : List Expr) (named : List (String × Expr)) (span : Span)

end

namespace FilterCall

def name : FilterCall → String
  | .mk name _ _ _ => name

def args : FilterCall → List Expr
  | .mk _ args _ _ => args

def named : FilterCall → List (String × Expr)
  | .mk _ _ named _ => named

/-- Where the call stands in the text that was read. -/
def span : FilterCall → Span
  | .mk _ _ _ span => span

end FilterCall

namespace Expr

mutual

/-- The filter calls of an expression: each call before those in its arguments, and these before
those in the value that is filtered. -/
def filterCalls : Expr → List FilterCall
  | .literal _ => []
  | .empty => []
  | .variable _ => []
  | .property base _ => filterCalls base
  | .index base key => filterCalls base ++ filterCalls key
  | .range first last => filterCalls first ++ filterCalls last
  | .not operand => filterCalls operand
  | .binary _ left right => filterCalls left ++ filterCalls right
  | .filtered base calls => ofCalls calls ++ filterCalls base

def ofCalls : List FilterCall → List FilterCall
  | [] => []
  | .mk name args named span :: calls =>
    .mk name args named span :: (ofArgs args ++ ofNamed named) ++ ofCalls calls

def ofArgs : List Expr → List FilterCall
  | [] => []
  | e :: args => filterCalls e ++ ofArgs args

def ofNamed : List (String × Expr) → List FilterCall
  | [] => []
  | (_, e) :: named => filterCalls e ++ ofNamed named

end

end Expr

/-- What restricts the items of a loop: first an offset, then a limit, then the direction. -/
structure LoopModifiers where
  limit : Option Expr := none
  offset : Option Expr := none
  reversed : Bool := false

/-- What the arguments of a tag can say. -/
inductive Statement where
  | expression (e : Expr)
  | assignment (name : String) (value : Expr)
  | loop (name : String) (source : Expr) (modifiers : LoopModifiers)
  | cycle (group : Option Expr) (values : List Expr)
  | when (values : List Expr)
  /-- A template to include, a value to pass under an alias, and named parameters. -/
  | include (template : Expr) (subject : Option (Expr × Option String))
      (bindings : List (String × Expr))

/-- All expressions of a statement. -/
def Statement.expressions : Statement → List Expr
  | .expression e => [e]
  | .assignment _ value => [value]
  | .loop _ source modifiers => source :: (modifiers.limit.toList ++ modifiers.offset.toList)
  | .cycle group values => group.toList ++ values
  | .when values => values
  | .include template subject bindings =>
    template :: ((subject.map Prod.fst).toList ++ bindings.map Prod.snd)

/-- The forms that tags ask for. -/
inductive Production where
  | expression
  | assignment
  | loop
  | cycle
  | when
  | include
  deriving DecidableEq, Repr

end Stencil
