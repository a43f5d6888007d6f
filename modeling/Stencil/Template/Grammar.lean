import Stencil.Expr.Parser
import Stencil.Filter.Basic
import Stencil.Template.Node

/-!
# Grammars

The tags, blocks and filters that a template may use. A rule for a tag or a block makes an action of
what was written. Under a grammar, the filters of every expression that a rule reads are known.
-/
namespace Stencil

namespace SourceText

/-- A syntax error of the part of a template that starts at `base`. -/
def syntaxError (source : SourceText) (base : Nat) (e : SyntaxError) : Error :=
  ⟨.malformed e.fault, some (source.location (base + e.span.start))⟩

/-- The first filter call that names no filter, as an error. -/
def checkFilters (source : SourceText) (base : Nat) (filters : Filters) (e : Expr) :
    Except Error Unit :=
  match e.filterCalls.find? fun call => !Table.contains call.name filters with
  | some call =>
    .error ⟨.undefinedFilter call.name, some (source.location (base + call.span.start))⟩
  | none => .ok ()

def compileExpr (source : SourceText) (base : Nat) (filters : Filters) (text : String) :
    Except Error Expr := do
  let e ← (Expr.parse text).mapError (source.syntaxError base)
  source.checkFilters base filters e
  return e

end SourceText

namespace TagSource

def compileExpr (tag : TagSource) (filters : Filters) : Except Error Expr :=
  tag.source.compileExpr tag.argsOffset filters tag.args

def compileStatement (tag : TagSource) (filters : Filters) (production : Production) :
    Except Error Statement := do
  let s ← (Statement.parse production tag.args).mapError (tag.source.syntaxError tag.argsOffset)
  s.expressions.forM (tag.source.checkFilters tag.argsOffset filters)
  return s

def hasNoArgs (tag : TagSource) : Bool := Text.allBlank tag.args

/-- An error at the tag itself. -/
def reject (tag : TagSource) (fault : SyntaxFault) : Error :=
  ⟨.malformed fault, some tag.location⟩

def occurrence (tag : TagSource) : Occurrence := ⟨tag.origin, tag.location.offset⟩

end TagSource

/-- A block as it was written: its opening tag, the nodes up to the first clause, and the clauses
with the nodes after each. -/
structure BlockSource where
  tag : TagSource
  body : List Node
  clauses : List (TagSource × List Node)

/-- What a tag does. -/
abbrev TagRule := Filters → TagSource → Except Error Action

/-- How a block is made up and what it does. -/
structure BlockRule where
  name : String
  /-- The tags that may divide it. -/
  clauses : List String := []
  endTag : String := "end" ++ name
  /-- Whether the body is taken as it stands. -/
  raw : Bool := false
  compile : Filters → BlockSource → Except Error Action

/-- A name stands for a tag or for a block, never for both. -/
structure Grammar where
  tags : List (String × TagRule) := []
  blocks : List (String × BlockRule) := []
  filters : Filters := []

namespace Grammar

def addTag (name : String) (rule : TagRule) (g : Grammar) : Grammar :=
  { g with tags := Table.insert name rule g.tags, blocks := Table.erase name g.blocks }

def addBlock (rule : BlockRule) (g : Grammar) : Grammar :=
  { g with
    tags := Table.erase rule.name g.tags
    blocks := Table.insert rule.name rule g.blocks }

def addFilter (f : Filter) (g : Grammar) : Grammar :=
  { g with filters := Table.insert f.name f g.filters }

def addFilters (fs : List Filter) (g : Grammar) : Grammar := fs.foldl (fun g f => g.addFilter f) g

def tag? (g : Grammar) (name : String) : Option TagRule := Table.find? name g.tags

def block? (g : Grammar) (name : String) : Option BlockRule := Table.find? name g.blocks

def filter? (g : Grammar) (name : String) : Option Filter := Table.find? name g.filters

def isClause (g : Grammar) (name : String) : Bool :=
  g.blocks.any fun (_, rule) => rule.clauses.contains name

def isEndTag (g : Grammar) (name : String) : Bool := g.blocks.any fun (_, rule) => rule.endTag = name

/-- The tag that ends the raw block of a name. -/
def rawEnd? (g : Grammar) (name : String) : Option String :=
  (g.block? name).bind fun rule => if rule.raw then some rule.endTag else none

def filterNames (g : Grammar) : List String := Table.keys g.filters

/-- The names of tags and blocks. -/
def tagNames (g : Grammar) : List String :=
  Table.keys (Table.ofList
    ((g.tags.map fun entry => (entry.1, ())) ++ g.blocks.map fun entry => (entry.1, ())))

end Grammar

end Stencil
