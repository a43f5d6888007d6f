import Stencil.Render.Run
import Stencil.Tags.Standard

/-!
# Engines at work

An engine compiles and renders templates. A session keeps what an engine has loaded from one
operation to the next.
-/
namespace Stencil

namespace Engine

/-- Compile a template that is handed over as bytes. -/
def parse (engine : Engine) (name : Option String) (bytes : ByteArray) : Except Error Template :=
  Template.compileBytes engine.grammar (.direct 0) name bytes

end Engine

structure Session where
  engine : Engine
  cache : Cache := {}
  /-- The names that the store was asked for, the latest first. -/
  reads : List String := []
  /-- How often it was asked to keep a template under a name. -/
  seeds : Nat := 0

namespace Session

/-- The state in which a render begins. -/
def start (bindings : Bindings) (sink : Sink) (s : Session) : State :=
  { scope := Scope.ofBindings bindings, cache := s.cache, reads := s.reads, sink }

/-- The session after a render, with what the render has loaded. -/
def after (t : State) (s : Session) : Session := { s with cache := t.cache, reads := t.reads }

/-- Render a template into a sink. -/
def render (template : Template) (bindings : Bindings) (sink : Sink) (interrupt : Interrupt)
    (s : Session) : (Except Error Unit × Sink) × Session :=
  let (result, t) := Render.template ⟨s.engine, interrupt⟩ template (s.start bindings sink)
  ((result, t.sink), s.after t)

/-- The template of a name, for including it. -/
def load (name : String) (s : Session) : Except Error Template × Session :=
  let (result, t) := Render.load s.engine name (s.start [] {})
  (result, s.after t)

/-- Compile a template and keep it under a name in a version. -/
def seed (name : String) (version : Nat) (bytes : ByteArray) (s : Session) :
    Except Error Template × Session :=
  let (result, cache) := s.cache.seed name version fun _ =>
    Template.compileBytes s.engine.grammar (.seeded s.seeds) (some name) bytes
  (result, { s with cache, seeds := s.seeds + 1 })

/-- Put a template into the store. -/
def put (name : String) (bytes : ByteArray) (s : Session) : Session :=
  { s with engine := { s.engine with store := s.engine.store.add name bytes } }

/-- Use another store from now on. -/
def useStore (store : Store) (s : Session) : Session := { s with engine := { s.engine with store } }

end Session

end Stencil
