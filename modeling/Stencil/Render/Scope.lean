import Stencil.Value.Basic

/-!
# Scopes

The variables that a template sees while it is rendered: those of the loops it is in, its own, and
those of what surrounds it. Assignments go to the template's own variables, so they outlive loops
and end with the template.
-/
namespace Stencil

inductive LayerKind where
  /-- The variables that a template assigns. -/
  | template
  /-- The variables of an open loop, which assignments pass by. -/
  | loop
  deriving DecidableEq, Repr

structure Layer where
  kind : LayerKind
  vars : Bindings := []

namespace Layer

def set (name : String) (value : Value) (l : Layer) : Layer :=
  { l with vars := Table.insert name value l.vars }

/-- Set a variable of the innermost layer that belongs to a template. -/
def assign (name : String) (value : Value) : List Layer → List Layer
  | [] => []
  | l :: layers =>
    match l.kind with
    | .template => l.set name value :: layers
    | .loop => l :: assign name value layers

end Layer

structure Scope where
  /-- The layers of the template, innermost first. -/
  layers : List Layer := [{ kind := .template }]
  /-- What surrounds the template, innermost first, down to the bindings of the caller. -/
  outer : List Bindings := []
  /-- How many inclusions are open. -/
  depth : Nat := 0

namespace Scope

/-- The scope that a render starts in. -/
def ofBindings (bindings : Bindings) : Scope := { outer := [bindings] }

/-- All variables, in the order in which they are looked up. -/
def bindings (s : Scope) : List Bindings := s.layers.map Layer.vars ++ s.outer

def lookup (s : Scope) (name : String) : Option Value := s.bindings.findSome? (Table.find? name)

def assign (name : String) (value : Value) (s : Scope) : Scope :=
  { s with layers := Layer.assign name value s.layers }

/-- Set a variable of the innermost layer. -/
def setLocal (name : String) (value : Value) (s : Scope) : Scope :=
  match s.layers with
  | [] => s
  | l :: layers => { s with layers := l.set name value :: layers }

def enterLoop (s : Scope) : Scope := { s with layers := { kind := .loop } :: s.layers }

def leaveLoop (s : Scope) : Scope := { s with layers := s.layers.tail }

/-- The scope of an included template with parameters. An isolated one is surrounded by nothing. -/
def child (params : Bindings) (isolated : Bool) (s : Scope) : Scope where
  layers := [{ kind := .template, vars := params }]
  outer := if isolated then [] else s.bindings
  depth := s.depth + 1

end Scope

end Stencil
