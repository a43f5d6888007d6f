import Stencil.Markup.Piece
import Stencil.Template.Grammar
import Stencil.Text.Utf8

/-!
# Templates

A template is compiled piece by piece, with a stack of the blocks that are open. A tag is first of all
the end of the innermost open block, then a clause of it, then the beginning of a block, then a tag
of its own.
-/
namespace Stencil

structure Template where
  nodes : List Node
  source : SourceText

/-- A block that is open. Nodes and clauses are kept latest first. -/
structure Frame where
  rule : BlockRule
  tag : TagSource
  body : List Node := []
  clauses : List (TagSource × List Node) := []

namespace Frame

/-- Add a node to the latest clause, or to the body. -/
def add (node : Node) (f : Frame) : Frame :=
  match f.clauses with
  | [] => { f with body := node :: f.body }
  | (tag, body) :: clauses => { f with clauses := (tag, node :: body) :: clauses }

def startClause (tag : TagSource) (f : Frame) : Frame := { f with clauses := (tag, []) :: f.clauses }

/-- The block, now that it ends. -/
def block (f : Frame) : BlockSource :=
  ⟨f.tag, f.body.reverse, (f.clauses.map fun (tag, body) => (tag, body.reverse)).reverse⟩

end Frame

/-- What has been compiled so far: finished nodes, latest first, and open blocks, innermost first. -/
structure Progress where
  root : List Node := []
  frames : List Frame := []

namespace Progress

def add (node : Node) (p : Progress) : Progress :=
  match p.frames with
  | [] => { p with root := node :: p.root }
  | f :: frames => { p with frames := f.add node :: frames }

/-- End the innermost block, whose frame is given apart from the outer ones. -/
def close (filters : Filters) (root : List Node) (f : Frame) (outer : List Frame) :
    Except Error Progress := do
  let action ← (f.rule.compile filters f.block).mapError (·.locatedAt f.tag.location)
  return ({ root, frames := outer } : Progress).add
    (.tag true f.rule.name f.tag.location action)

/-- A tag that neither ends nor divides the innermost block. -/
def addTag (g : Grammar) (tag : TagSource) (p : Progress) : Except Error Progress :=
  match g.block? tag.name with
  | some rule => .ok { p with frames := { rule, tag } :: p.frames }
  | none =>
    match g.tag? tag.name with
    | some rule => do
      let action ← (rule g.filters tag).mapError (·.locatedAt tag.location)
      return p.add (.tag false tag.name tag.location action)
    | none =>
      if g.isClause tag.name || g.isEndTag tag.name then
        .error (tag.reject (match p.frames with
          | f :: _ => .misplacedInBlock tag.name f.rule.name
          | [] => .misplacedOutside tag.name))
      else .error ⟨.undefinedTag tag.name, some tag.location⟩

def step (g : Grammar) (source : SourceText) (origin : Origin) (p : Progress) :
    Piece → Except Error Progress
  | .text s => .ok (p.add (.text s))
  | .output body offset span => do
    let e ← source.compileExpr offset g.filters body
    return p.add (.output e (source.location span.start))
  | .tag name args offset span =>
    let tag : TagSource := ⟨name, args, offset, source.location span.start, source, origin⟩
    match p.frames with
    | [] => p.addTag g tag
    | f :: outer =>
      if f.rule.endTag = name then close g.filters p.root f outer
      else if f.rule.clauses.contains name then
        .ok { p with frames := f.startClause tag :: outer }
      else p.addTag g tag

/-- The nodes, now that the template ends; all blocks have to be closed. -/
def finish (p : Progress) : Except Error (List Node) :=
  match p.frames with
  | [] => .ok p.root.reverse
  | f :: _ => .error (f.tag.reject (.unclosedBlock f.rule.name f.rule.endTag))

end Progress

namespace Template

/-- Compile a text under a grammar. -/
def compile (g : Grammar) (origin : Origin) (source : SourceText) : Except Error Template := do
  let pieces ← (Piece.scan g.rawEnd? source.text).mapError (source.syntaxError 0)
  let p ← pieces.foldlM (Progress.step g source origin) {}
  return ⟨← p.finish, source⟩

/-- Compile bytes, which have to be UTF-8. -/
def compileBytes (g : Grammar) (origin : Origin) (name : Option String) (bytes : ByteArray) :
    Except Error Template :=
  match Text.Utf8.decode bytes with
  | .ok text => compile g origin ⟨text, name⟩
  | .error fault => .error ⟨.malformed (.notUtf8 fault.message), none⟩

end Template

end Stencil
