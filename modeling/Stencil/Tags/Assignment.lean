import Stencil.Template.Grammar

/-!
# Assignments

`assign` gives a variable a value, `capture` the text that its body writes.
-/
namespace Stencil.Tags

def assign : TagRule := fun filters tag => do
  match ← tag.compileStatement filters .assignment with
  | .assignment target value => return .assign target value
  | _ => throw (tag.reject (.rejected "malformed 'assign'"))

/-- The variable that a capture names, as a variable or as a text. -/
def captureTarget? (args : String) : Option String :=
  match Expr.parse args with
  | .ok (.variable name) => some name
  | .ok (.literal (.str name)) => some name
  | _ => none

def capture : BlockRule where
  name := "capture"
  compile := fun _ block =>
    match captureTarget? block.tag.args, block.clauses with
    | none, _ => .error (block.tag.reject (.rejected "'capture' requires a variable name"))
    | some _, (clause, _) :: _ =>
      .error (clause.reject (.rejected "unexpected clause in 'capture'"))
    | some target, [] => .ok (.capture target block.body)

end Stencil.Tags
