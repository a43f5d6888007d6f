import Stencil.Expr.Basic

/-!
# Nodes

A compiled template is a list of nodes: text, outputs, and tags with the actions that their arguments
and bodies stand for.
-/
namespace Stencil

/-- How a list of nodes ended: at its end, with a request to leave the loop around it, or with one
to go on with the next item. -/
inductive Signal where
  | normal
  | leave
  | next
  deriving DecidableEq, Repr

/-- What tells one compiled template from another during a render: a number for one that was handed
over or seeded, or the name for which a store was asked. -/
inductive Origin where
  | direct (n : Nat)
  | stored (name : String)
  | seeded (n : Nat)
  deriving DecidableEq, Repr

/-- Where a tag stands: in a compiled template at a byte. -/
structure Occurrence where
  origin : Origin
  offset : Nat
  deriving DecidableEq, Repr

/-- A tag as it was written. -/
structure TagSource where
  name : String
  args : String
  /-- Where the arguments start. -/
  argsOffset : Nat
  location : Location
  source : SourceText
  origin : Origin

/-- When a branch of a conditional is taken. -/
inductive Guard where
  | always
  | holds (condition : Expr)
  | fails (condition : Expr)

mutual

inductive Node where
  | text (s : String)
  | output (e : Expr) (location : Location)
  | tag (isBlock : Bool) (name : String) (location : Location) (action : Action)

inductive Action where
  | nothing
  | write (s : String)
  | emit (e : Expr)
  | assign (target : String) (value : Expr)
  /-- Assign what the body writes. -/
  | capture (target : String) (body : List Node)
  /-- The body of the first branch whose guard lets it through. -/
  | conditional (branches : List (Guard × List Node))
  /-- The body of the first list of values in which the subject is. -/
  | choice (subject : Expr) (whens : List (List Expr × List Node)) (otherwise : List Node)
  | loop (item : String) (source : Expr) (modifiers : LoopModifiers) (body otherwise : List Node)
  | jump (signal : Signal)
  /-- The next of the values, counted per group or else per occurrence. -/
  | cycle (occurrence : Occurrence) (group : Option Expr) (values : List Expr)
  /-- Another template, with a value under an alias and parameters, which sees the variables of
  this one unless it is isolated. -/
  | include (isolated : Bool) (template : Expr) (subject : Option (Expr × Option String))
      (bindings : List (String × Expr))
  /-- The tags and bodies of a block, written out as they stand. -/
  | outline (tag : TagSource) (body : List Node) (clauses : List (TagSource × List Node))

end

namespace Node

/-- The text of a node that is text. -/
def text? : Node → Option String
  | .text s => some s
  | _ => none

end Node

end Stencil
