import Stencil.Template.Node

/-!
# Parts of nodes

The expressions, assigned names, places and inclusions that nodes hold at any depth of their own
tree. What an included template holds is no part of the template that includes it.
-/
namespace Stencil

inductive Part where
  | expr (e : Expr)
  /-- A name that is assigned or captured into. -/
  | target (name : String)
  | place (l : Location)
  | inclusion (isolated : Bool)

namespace Part

def expr? : Part → Option Expr
  | .expr e => some e
  | _ => none

def target? : Part → Option String
  | .target name => some name
  | _ => none

end Part

namespace Guard

def expressions : Guard → List Expr
  | .always => []
  | .holds e => [e]
  | .fails e => [e]

end Guard

def Statement.parts (s : Statement) : List Part := s.expressions.map .expr

mutual

def partsOf : List Node → List Part
  | [] => []
  | node :: nodes => node.parts ++ partsOf nodes

def Node.parts : Node → List Part
  | .text _ => []
  | .output e location => [.expr e, .place location]
  | .tag _ _ location action => .place location :: action.parts

def Action.parts : Action → List Part
  | .nothing => []
  | .write _ => []
  | .emit e => [.expr e]
  | .assign target e => .target target :: (Statement.assignment target e).parts
  | .capture target body => .target target :: partsOf body
  | .conditional branches => branchParts branches
  | .choice subject whens otherwise => .expr subject :: (whenParts whens ++ partsOf otherwise)
  | .loop name source modifiers body otherwise =>
    (Statement.loop name source modifiers).parts ++ (partsOf body ++ partsOf otherwise)
  | .jump _ => []
  | .cycle _ group values => (Statement.cycle group values).parts
  | .include isolated template subject bindings =>
    .inclusion isolated :: (Statement.include template subject bindings).parts
  | .outline _ body clauses => partsOf body ++ clauseParts clauses

def branchParts : List (Guard × List Node) → List Part
  | [] => []
  | (guard, body) :: branches =>
    guard.expressions.map .expr ++ (partsOf body ++ branchParts branches)

def whenParts : List (List Expr × List Node) → List Part
  | [] => []
  | (values, body) :: whens => (Statement.when values).parts ++ (partsOf body ++ whenParts whens)

def clauseParts : List (TagSource × List Node) → List Part
  | [] => []
  | (_, body) :: clauses => partsOf body ++ clauseParts clauses

end

def expressionsOf (nodes : List Node) : List Expr := (partsOf nodes).filterMap Part.expr?

def targetsOf (nodes : List Node) : List String := (partsOf nodes).filterMap Part.target?

theorem mem_expressionsOf {nodes : List Node} {e : Expr} :
    e ∈ expressionsOf nodes ↔ .expr e ∈ partsOf nodes := by
  simp only [expressionsOf, List.mem_filterMap]
  constructor
  · rintro ⟨p, hp, he⟩
    cases p with
    | expr f => cases he; exact hp
    | target | place | inclusion => cases he
  · intro h
    exact ⟨.expr e, h, rfl⟩

theorem mem_targetsOf {nodes : List Node} {name : String} :
    name ∈ targetsOf nodes ↔ .target name ∈ partsOf nodes := by
  simp only [targetsOf, List.mem_filterMap]
  constructor
  · rintro ⟨p, hp, he⟩
    cases p with
    | target other => cases he; exact hp
    | expr | place | inclusion => cases he
  · intro h
    exact ⟨.target name, h, rfl⟩

end Stencil
