import Stencil.Json.Basic

/-!
# Options

Options are read from a JSON object, in which missing members stand for the defaults and unknown ones
count for nothing, or from an array of the members in order, which may end early.
-/
namespace Stencil

structure Options where
  /-- Whether undefined variables are errors. -/
  strictVariables : Bool := false
  /-- How deep templates may include each other. -/
  maxIncludeDepth : Nat := 50
  templateRoot : Option String := none
  deriving DecidableEq, Repr

namespace Options

def maxDepth : Nat := 0xFFFFFFFFFFFFFFFF

def bool? : Json → Option Bool
  | .bool b => some b
  | _ => none

def depth? : Json → Option Nat
  | .int n => if 0 ≤ n ∧ n ≤ maxDepth then some n.toNat else none
  | _ => none

def root? : Json → Option (Option String)
  | .null => some none
  | .str s => some (some s)
  | _ => none

/-- A member that may be missing. -/
def orDefault {α : Type} (default : α) (read? : Json → Option α) : Option Json → Option α
  | none => some default
  | some j => read? j

def ofMembers? (strict depth root : Option Json) : Option Options := do
  let defaults : Options := {}
  return {
    strictVariables := ← orDefault defaults.strictVariables bool? strict
    maxIncludeDepth := ← orDefault defaults.maxIncludeDepth depth? depth
    templateRoot := ← orDefault defaults.templateRoot root? root }

def ofJson? : Json → Option Options
  | .obj members =>
    ofMembers? (Table.find? "strict_variables" members) (Table.find? "max_include_depth" members)
      (Table.find? "template_root" members)
  | .arr items => if items.length ≤ 3 then ofMembers? items[0]? items[1]? items[2]? else none
  | _ => none

def toJson (o : Options) : Json :=
  .obj [("max_include_depth", .int o.maxIncludeDepth),
    ("strict_variables", .bool o.strictVariables),
    ("template_root", match o.templateRoot with
      | some root => .str root
      | none => .null)]

end Options

end Stencil
