import Stencil.Template.Grammar

/-!
# Verbatim blocks

`raw` writes its body as it stands, `comment` writes nothing.
-/
namespace Stencil.Tags

/-- The text in a list of nodes. -/
def textOf (nodes : List Node) : String := String.join (nodes.filterMap Node.text?)

def raw : BlockRule where
  name := "raw"
  raw := true
  compile := fun _ block => .ok (.write (textOf block.body))

def comment : BlockRule where
  name := "comment"
  raw := true
  compile := fun _ _ => .ok .nothing

end Stencil.Tags
