import Stencil.Template.Grammar

/-!
# Inclusions

`include` writes another template, which sees the variables of this one; `render` writes one that
sees only what it is passed.
-/
namespace Stencil.Tags

def inclusion (isolated : Bool) : TagRule := fun filters tag => do
  if tag.hasNoArgs then
    throw (tag.reject (.rejected ("'" ++ tag.name ++ "' requires a template name")))
  match ← tag.compileStatement filters .include with
  | .include template subject bindings => return .include isolated template subject bindings
  | _ => throw (tag.reject (.rejected ("malformed '" ++ tag.name ++ "'")))

def includeTag : TagRule := inclusion false

def render : TagRule := inclusion true

end Stencil.Tags
