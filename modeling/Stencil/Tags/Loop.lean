import Stencil.Template.Grammar

/-!
# Loops

`for` runs its body for each item, `break` and `continue` end a run early, and `cycle` writes one of
its values after the other.
-/
namespace Stencil.Tags

def forBlock : BlockRule where
  name := "for"
  clauses := ["else"]
  compile := fun filters block => do
    if block.tag.hasNoArgs then
      throw (block.tag.reject (.rejected "'for' requires 'variable in collection'"))
    match ← block.tag.compileStatement filters .loop with
    | .loop item source modifiers =>
      match block.clauses with
      | [] => return .loop item source modifiers block.body []
      | [(_, otherwise)] => return .loop item source modifiers block.body otherwise
      | _ :: (clause, _) :: _ =>
        throw (clause.reject (.rejected "'for' allows only one 'else'"))
    | _ => throw (block.tag.reject (.rejected "malformed 'for'"))

def breakTag : TagRule := fun _ _ => .ok (.jump .leave)

def continueTag : TagRule := fun _ _ => .ok (.jump .next)

def cycle : TagRule := fun filters tag => do
  if tag.hasNoArgs then throw (tag.reject (.rejected "'cycle' requires at least one value"))
  match ← tag.compileStatement filters .cycle with
  | .cycle group values => return .cycle tag.occurrence group values
  | _ => throw (tag.reject (.rejected "malformed 'cycle'"))

end Stencil.Tags
