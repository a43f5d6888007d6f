import Stencil.Template.Basic

/-!
# The cache of templates

A cache holds compiled templates by name. A template that was put in with a version is replaced when
it is put in with another one; a failure leaves what is there.
-/
namespace Stencil

structure CacheEntry where
  template : Template
  /-- Absent for a template that was loaded when it was needed. -/
  version : Option Nat

structure Cache where
  entries : List (String × CacheEntry) := []

namespace Cache

def entry? (c : Cache) (name : String) : Option CacheEntry := Table.find? name c.entries

def get? (c : Cache) (name : String) : Option Template := (c.entry? name).map CacheEntry.template

def contains (c : Cache) (name : String) : Bool := (c.get? name).isSome

def size (c : Cache) : Nat := c.entries.length

def insert (name : String) (template : Template) (version : Option Nat) (c : Cache) : Cache :=
  ⟨Table.insert name ⟨template, version⟩ c.entries⟩

/-- The template of a name, which is loaded if it is not there yet. -/
def getOrLoad (name : String) (load : Unit → Except Error Template) (c : Cache) :
    Except Error Template × Cache :=
  match c.get? name with
  | some template => (.ok template, c)
  | none => match load () with
    | .ok template => (.ok template, c.insert name template none)
    | .error e => (.error e, c)

/-- The template of a name in a version, which is compiled unless it is there. -/
def seed (name : String) (version : Nat) (compile : Unit → Except Error Template) (c : Cache) :
    Except Error Template × Cache :=
  match c.entry? name with
  | some entry =>
    if entry.version = some version then (.ok entry.template, c) else replace (compile ())
  | none => replace (compile ())
where
  replace : Except Error Template → Except Error Template × Cache
    | .ok template => (.ok template, c.insert name template (some version))
    | .error e => (.error e, c)

end Cache

end Stencil
