import Stencil.Cache

/-!
# Slots

A cache that several readers share keeps a slot for each name that was asked for. A slot is filled
by the first load that succeeds, so a load that failed leaves an empty one. What loads a template
runs in a monad of its own, which counts or records what it likes.
-/
namespace Stencil

structure Slots where
  slots : List (String × Option CacheEntry) := []

namespace Slots

variable {m : Type → Type} [Monad m]

def entry? (c : Slots) (name : String) : Option CacheEntry := (Table.find? name c.slots).join

def get? (c : Slots) (name : String) : Option Template := (c.entry? name).map CacheEntry.template

def contains (c : Slots) (name : String) : Bool := (c.get? name).isSome

def size (c : Slots) : Nat := (c.slots.filter fun slot => slot.2.isSome).length

def isEmpty (c : Slots) : Bool := c.size == 0

/-- With a slot for a name, which is empty if it is new. -/
def reserve (name : String) (c : Slots) : Slots :=
  if Table.contains name c.slots then c else ⟨Table.insert name none c.slots⟩

def fill (name : String) (entry : CacheEntry) (c : Slots) : Slots :=
  ⟨Table.insert name (some entry) c.slots⟩

/-- Fill the slot of a name with what is made. A failure leaves it as it was. -/
def put (name : String) (version : Option Nat) (make : m (Except Error Template)) (c : Slots) :
    m (Except Error Template × Slots) := do
  match ← make with
  | .ok template => return (.ok template, c.fill name ⟨template, version⟩)
  | .error e => return (.error e, c)

/-- The template of a name, for which a slot is made and filled if need be. -/
def getOrLoad (name : String) (load : m (Except Error Template)) (c : Slots) :
    m (Except Error Template × Slots) :=
  let c := c.reserve name
  match c.get? name with
  | some template => return (.ok template, c)
  | none => c.put name none load

/-- The template of a name in a version, which is compiled unless it is there. -/
def seed (name : String) (version : Nat) (compile : m (Except Error Template)) (c : Slots) :
    m (Except Error Template × Slots) :=
  match (c.entry? name).filter fun entry => entry.version = some version with
  | some entry => return (.ok entry.template, c)
  | none => c.put name (some version) compile

end Slots

/-- What can be asked of a cache. -/
inductive CacheCall (m : Type → Type) where
  | get (name : String)
  | getOrLoad (name : String) (load : m (Except Error Template))
  | insert (name : String) (template : Template) (version : Option Nat)
  | seed (name : String) (version : Nat) (compile : m (Except Error Template))
  | size
  | isEmpty
  | contains (name : String)

inductive CacheAnswer where
  | found (template? : Option Template)
  | outcome (result : Except Error Template)
  | count (n : Nat)
  | truth (b : Bool)

namespace Slots

variable {m : Type → Type} [Monad m]

def call (c : Slots) : CacheCall m → m (CacheAnswer × Slots)
  | .get name => return (.found (c.get? name), c)
  | .getOrLoad name load => do
    let (result, c) ← c.getOrLoad name load
    return (.outcome result, c)
  | .insert name template version =>
    return (.outcome (.ok template), c.fill name ⟨template, version⟩)
  | .seed name version compile => do
    let (result, c) ← c.seed name version compile
    return (.outcome result, c)
  | .size => return (.count c.size, c)
  | .isEmpty => return (.truth c.isEmpty, c)
  | .contains name => return (.truth (c.contains name), c)

end Slots

end Stencil
