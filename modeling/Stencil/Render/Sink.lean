import Stencil.Error

/-!
# Sinks

A sink takes the bytes of a render, all of them or so many at most. A write that does not fit is cut,
and fails.
-/
namespace Stencil

structure Sink where
  held : ByteArray := .empty
  limit : Option Nat := none
  /-- Whether ASCII letters are put into upper case. -/
  upper : Bool := false

namespace Sink

def encode (k : Sink) (s : String) : ByteArray :=
  (if k.upper then String.ofList (s.toList.map Char.toUpper) else s).toUTF8

def write (s : String) (k : Sink) : Except OutputFault Unit × Sink :=
  let bytes := k.encode s
  match k.limit with
  | none => (.ok (), { k with held := k.held ++ bytes })
  | some limit =>
    let room := limit - k.held.size
    if bytes.size ≤ room then (.ok (), { k with held := k.held ++ bytes })
    else (.error .full, { k with held := k.held ++ bytes.extract 0 room })

/-- A sink that takes nothing cannot be flushed either. -/
def flush (k : Sink) : Except OutputFault Unit :=
  if k.limit = some 0 then .error .flushFailed else .ok ()

end Sink

end Stencil
