import Stencil.Error

/-!
# Filters

A filter is a function on values that states the shape of its input and of each positional
argument. A call fills missing arguments with nil and converts each one before the function sees
it; named arguments are passed as they are.
-/
namespace Stencil

structure Filter where
  name : String
  /-- The shape of the input, then of the arguments. -/
  params : List Shape
  run : List Value → Bindings → Except FilterFault Value

/-- The filters of a grammar, by name. -/
abbrev Filters := List (String × Filter)

namespace Filter

/-- The arguments from a position on in the shapes of their parameters. -/
def convertArgs (filter : String) (position : Nat) :
    List Shape → List Value → Except ConversionError (List Value)
  | shape :: shapes, v :: args => do
    let w ← (shape.convert v).mapError (.argument filter position)
    let rest ← convertArgs filter (position + 1) shapes args
    return w :: rest
  | _, _ => return []

/-- Call a filter with the input as the first of its arguments. -/
def call (f : Filter) (args : List Value) (named : Bindings) : Except Error Value := do
  if f.params.length < args.length then
    throw ⟨.filter f.name (.tooManyArguments (f.params.length - 1) (args.length - 1)), none⟩
  let filled := args ++ List.replicate (f.params.length - args.length) .nil
  let converted ← (convertArgs f.name 0 f.params filled).mapError (⟨.conversion ·, none⟩)
  (f.run converted named).mapError (⟨.filter f.name ·, none⟩)

end Filter

end Stencil
