import Stencil.Template.Grammar

/-!
# Conditions

`if` and `unless` take the first branch whose condition lets them, `case` the first whose values hold
its subject. Nothing may follow `else`.
-/
namespace Stencil.Tags

/-- The condition of a branch, or the subject of a case. -/
def condition (filters : Filters) (tag : TagSource) : Except Error Expr :=
  if tag.hasNoArgs then
    .error (tag.reject (.rejected ("'" ++ tag.name ++ "' requires a condition")))
  else tag.compileExpr filters

def afterElse (clause : TagSource) : Error :=
  clause.reject (.rejected ("'" ++ clause.name ++ "' cannot follow 'else'"))

/-- The branches that clauses state. -/
def branches (filters : Filters) :
    List (TagSource × List Node) → Except Error (List (Guard × List Node))
  | [] => .ok []
  | (clause, body) :: clauses =>
    if clause.name = "else" then
      match clauses with
      | [] => .ok [(.always, body)]
      | (next, _) :: _ => .error (afterElse next)
    else do
      let guard ← condition filters clause
      return (.holds guard, body) :: (← branches filters clauses)

/-- A conditional whose first branch is guarded in the given way. -/
def conditional (name : String) (first : Expr → Guard) : BlockRule where
  name := name
  clauses := ["elsif", "else"]
  compile := fun filters block => do
    let guard ← condition filters block.tag
    return .conditional ((first guard, block.body) :: (← branches filters block.clauses))

def ifBlock : BlockRule := conditional "if" .holds

def unlessBlock : BlockRule := conditional "unless" .fails

/-- The values and bodies that clauses state, and the body for no value. -/
def whens (filters : Filters) :
    List (TagSource × List Node) → Except Error (List (List Expr × List Node) × List Node)
  | [] => .ok ([], [])
  | (clause, body) :: clauses =>
    if clause.name = "else" then
      match clauses with
      | [] => .ok ([], body)
      | (next, _) :: _ => .error (afterElse next)
    else if clause.hasNoArgs then .error (clause.reject (.rejected "'when' requires a value"))
    else do
      match ← clause.compileStatement filters .when with
      | .when values =>
        let (rest, otherwise) ← whens filters clauses
        return ((values, body) :: rest, otherwise)
      | _ => throw (clause.reject (.rejected "malformed 'when'"))

def caseBlock : BlockRule where
  name := "case"
  clauses := ["when", "else"]
  compile := fun filters block => do
    let subject ← condition filters block.tag
    let (values, otherwise) ← whens filters block.clauses
    return .choice subject values otherwise

end Stencil.Tags
