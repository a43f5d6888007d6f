import Stencil.Filter.Extension
import Stencil.Tags.Assignment
import Stencil.Tags.Condition
import Stencil.Tags.Inclusion
import Stencil.Tags.Loop
import Stencil.Tags.Verbatim

/-!
# The standard grammar
-/
namespace Stencil.Grammar

def standardTags : List (String × TagRule) :=
  [("assign", Tags.assign), ("break", Tags.breakTag), ("continue", Tags.continueTag),
    ("cycle", Tags.cycle), ("include", Tags.includeTag), ("render", Tags.render)]

def standardBlocks : List BlockRule :=
  [Tags.ifBlock, Tags.unlessBlock, Tags.caseBlock, Tags.forBlock, Tags.capture, Tags.raw, Tags.comment]

def addStandardTags (g : Grammar) : Grammar :=
  standardBlocks.foldl (fun g rule => g.addBlock rule)
    (standardTags.foldl (fun g (name, rule) => g.addTag name rule) g)

def addStandardFilters (g : Grammar) : Grammar := g.addFilters Filter.standard

def addExtensionFilters (g : Grammar) : Grammar := g.addFilters Filter.extension

/-- All tags, blocks and filters of this library. -/
def standard : Grammar :=
  addExtensionFilters (addStandardFilters (addStandardTags {}))

end Stencil.Grammar
