import Stencil.Template.Grammar

/-!
# Outlines

Rules that accept every tag and every block, and show how a template was read: they write tags with
their arguments, and blocks with their bodies and clauses.
-/
namespace Stencil.Tags

/-- Writes a tag, its arguments, and whether these are blank. -/
def showArgs : TagRule := fun _ tag =>
  .ok (.write ("<" ++ tag.name ++ "|" ++ tag.args ++ "|" ++
    (if tag.hasNoArgs then "true" else "false") ++ ">"))

/-- Writes the value of the arguments. -/
def showValue : TagRule := fun filters tag => do return .emit (← tag.compileExpr filters)

/-- Writes a block with its tags. -/
def outline (name : String) (clauses : List String) : BlockRule where
  name := name
  clauses := clauses
  compile := fun _ block => .ok (.outline block.tag block.body block.clauses)

end Stencil.Tags
