/-!
# Base64

The standard alphabet with required padding. Encoding takes three bytes to four symbols. Decoding
refuses symbols outside the alphabet, padding anywhere but at the end of the last group, and bits
of the last symbol that no byte uses.
-/
namespace Stencil.Text.Base64

/-- The symbol for a value below 64, as an ASCII code. -/
def symbol (v : UInt8) : UInt8 :=
  if v < 26 then 65 + v
  else if v < 52 then 71 + v
  else if v < 62 then v - 4
  else if v = 62 then 43
  else 47

def value? (s : UInt8) : Option UInt8 :=
  if 65 ≤ s && s ≤ 90 then some (s - 65)
  else if 97 ≤ s && s ≤ 122 then some (s - 71)
  else if 48 ≤ s && s ≤ 57 then some (s + 4)
  else if s = 43 then some 62
  else if s = 47 then some 63
  else none

def pad : UInt8 := 61

def encode : List UInt8 → List UInt8
  | [] => []
  | [a] => [symbol (a >>> 2), symbol ((a &&& 3) <<< 4), pad, pad]
  | [a, b] =>
    [symbol (a >>> 2), symbol ((a &&& 3) <<< 4 ||| b >>> 4), symbol ((b &&& 15) <<< 2), pad]
  | a :: b :: c :: rest =>
    symbol (a >>> 2) :: symbol ((a &&& 3) <<< 4 ||| b >>> 4) ::
      symbol ((b &&& 15) <<< 2 ||| c >>> 6) :: symbol (c &&& 63) :: encode rest

/-- Why a text is not base64. -/
inductive Fault where
  | symbol (offset : Nat) (code : UInt8)
  | length (n : Nat)
  | lastSymbol (offset : Nat) (code : UInt8)
  | padding
  deriving DecidableEq, Repr

def Fault.message : Fault → String
  | .symbol offset code => s!"Invalid symbol {code}, offset {offset}."
  | .length n => s!"Invalid input length: {n}"
  | .lastSymbol offset code => s!"Invalid last symbol {code}, offset {offset}."
  | .padding => "Invalid padding"

/-- The value of a symbol at an offset. -/
def read (offset : Nat) (s : UInt8) : Except Fault UInt8 :=
  match value? s with
  | some v => .ok v
  | none => .error (.symbol offset s)

/-- The symbols of the last group before its padding, as values. Padding needs two symbols before
it and allows none after it. -/
def lastValues (offset : Nat) : List UInt8 → Except Fault (List UInt8)
  | [] => .ok []
  | s :: rest =>
    if s = pad then .error (.symbol offset s)
    else do
      let v ← read offset s
      match rest with
      | [] => return [v]
      | s :: rest =>
        if s = pad then .error (.symbol (offset + 1) s)
        else do
          let w ← read (offset + 1) s
          return v :: w :: (← tail (offset + 2) rest)
where
  /-- The third and fourth place of a group. -/
  tail (offset : Nat) : List UInt8 → Except Fault (List UInt8)
    | [] => .ok []
    | s :: rest =>
      if s = pad then
        if rest.all (· = pad) then .ok [] else .error (.symbol offset s)
      else do
        let v ← read offset s
        return v :: (← tail (offset + 1) rest)

/-- The bytes of the last group, which starts at `offset` and has at most four symbols. -/
def decodeLast (offset : Nat) (group : List UInt8) : Except Fault (List UInt8) := do
  let values ← lastValues offset group
  match values with
  | [] => if group.isEmpty then .ok [] else .error (.length offset)
  | [_] => .error (.length (offset + 1))
  | [a, b] =>
    if group.length % 4 ≠ 0 then .error .padding
    else if b &&& 15 ≠ 0 then .error (.lastSymbol (offset + 1) (group.getD 1 0))
    else .ok [a <<< 2 ||| b >>> 4]
  | [a, b, c] =>
    if group.length % 4 ≠ 0 then .error .padding
    else if c &&& 3 ≠ 0 then .error (.lastSymbol (offset + 2) (group.getD 2 0))
    else .ok [a <<< 2 ||| b >>> 4, b <<< 4 ||| c >>> 2]
  | a :: b :: c :: d :: _ => .ok [a <<< 2 ||| b >>> 4, b <<< 4 ||| c >>> 2, c <<< 6 ||| d]

/-- Every group but the last has four symbols and no padding. -/
def decodeFrom (offset : Nat) : List UInt8 → Except Fault (List UInt8)
  | s :: t :: u :: v :: w :: rest => do
    let a ← read offset s
    let b ← read (offset + 1) t
    let c ← read (offset + 2) u
    let d ← read (offset + 3) v
    let bytes ← decodeFrom (offset + 4) (w :: rest)
    return (a <<< 2 ||| b >>> 4) :: (b <<< 4 ||| c >>> 2) :: (c <<< 6 ||| d) :: bytes
  | group => decodeLast offset group

/-- The bytes that symbols stand for. One symbol too many is reported before anything else when it
is outside the alphabet. -/
def decode (symbols : List UInt8) : Except Fault (List UInt8) :=
  match symbols.getLast? with
  | none => .ok []
  | some s =>
    if symbols.length % 4 = 1 ∧ s ≠ pad ∧ value? s = none then
      .error (.symbol (symbols.length - 1) s)
    else decodeFrom 0 symbols

def encodeText (s : String) : String :=
  String.ofList ((encode s.toUTF8.toList).map fun b => Char.ofNat b.toNat)

end Stencil.Text.Base64
