import Stencil.Expr.Token

/-!
# Markup

A template is text with outputs and tags in it. Markup ends at the first closing delimiter that is
not within a quoted text; a quote counts only if it is closed with no markup opened in between. A
dash next to a delimiter takes the blanks beside the markup away. The body of a raw block is text up
to the tag that ends the block.
-/
namespace Stencil

inductive Delimiter where
  | output
  | tag
  deriving DecidableEq, Repr

namespace Delimiter

def opening : Delimiter → String
  | .output => "\x7b\x7b"
  | .tag => "\x7b%"

def closing : Delimiter → String
  | .output => "\x7d\x7d"
  | .tag => "%\x7d"

/-- The first character of the closing delimiter; the second is a brace. -/
def closer : Delimiter → Char
  | .output => '}'
  | .tag => '%'

end Delimiter

/-- Outputs and tags from delimiter to delimiter. -/
structure Markup where
  delimiter : Delimiter
  /-- The characters between the delimiters and their dashes. -/
  inner : List Char
  /-- Where these start. -/
  offset : Nat
  span : Span
  trimBefore : Bool
  trimAfter : Bool

/-- What a template is made of. The offset is that of the body or of the arguments. -/
inductive Piece where
  | text (s : String)
  | output (body : String) (offset : Nat) (span : Span)
  | tag (name args : String) (offset : Nat) (span : Span)
  deriving DecidableEq, Repr

namespace Markup

/-- The text before the first opening delimiter, the delimiter, and what follows it. -/
def opening? : List Char → Option (List Char × Delimiter × List Char)
  | [] => none
  | c :: cs =>
    match c, cs with
    | '{', '{' :: rest => some ([], .output, rest)
    | '{', '%' :: rest => some ([], .tag, rest)
    | _, _ => (opening? cs).map fun (before, d, rest) => (c :: before, d, rest)

/-- Whether a quote before these characters begins a quoted text. -/
def opensQuote (c : Char) (cs : List Char) : Bool :=
  (c = '"' || c = '\'') && c ∈ cs && (opening? (cs.takeWhile (· ≠ c))).isNone

/-- Cut at the closing delimiter: the characters before and after it. `quoted` is the quote that
the characters stand within, if any, and `quotes` says whether quotes count. -/
def close? (d : Delimiter) (quotes : Bool) : Option Char → List Char →
    Option (List Char × List Char)
  | _, [] => none
  | some q, c :: cs =>
    (close? d quotes (if c = q then none else some q) cs).map fun (body, rest) => (c :: body, rest)
  | none, c :: cs =>
    if quotes && opensQuote c cs then
      (close? d quotes (some c) cs).map fun (body, rest) => (c :: body, rest)
    else if c = d.closer ∧ cs.head? = some '}' then some ([], cs.tail)
    else (close? d quotes none cs).map fun (body, rest) => (c :: body, rest)

/-- Whether a tag says nothing. -/
def isComment (inner : List Char) : Bool := (Text.trimStart inner).head? = some '#'

/-- The markup whose opening delimiter at `pos` has just been read. In a comment quotes do not
count. -/
def read? (pos : Nat) (d : Delimiter) (cs : List Char) : Option (Markup × List Char) := do
  let trimBefore := cs.head? = some '-'
  let inside := if trimBefore then cs.tail else cs
  let offset := pos + 2 + if trimBefore then 1 else 0
  let (body, rest) ← close? d (!(d = .tag && isComment inside)) none inside
  let trimAfter := body.getLast? = some '-'
  let inner := if trimAfter then body.dropLast else body
  return (⟨d, inner, offset, ⟨pos, offset + byteLength body + 2⟩, trimBefore, trimAfter⟩, rest)

def unclosed (d : Delimiter) (start stop : Nat) : SyntaxError :=
  ⟨.unclosedMarkup d.opening d.closing, ⟨start, stop⟩⟩

/-- The text before the first markup, the markup, and what follows it. -/
def next? (pos : Nat) (cs : List Char) :
    Except SyntaxError (Option (List Char × Markup × List Char)) :=
  match opening? cs with
  | none => .ok none
  | some (before, d, rest) =>
    let start := pos + byteLength before
    match read? start d rest with
    | some (m, rest) => .ok (some (before, m, rest))
    | none => .error (unclosed d start (pos + byteLength cs))

/-- The text before the tag that ends a raw block, the tag, and what follows it. All tags on the way
have to be closed. -/
def rawEnd? (endTag : String) (pos : Nat) : List Char →
    Except SyntaxError (Option (List Char × Markup × List Char))
  | [] => .ok none
  | c :: cs => do
    if c = '{' ∧ cs.head? = some '%' then
      match read? pos .tag cs.tail with
      | none => throw (unclosed .tag pos (pos + byteLength (c :: cs)))
      | some (m, rest) =>
        if String.ofList (Text.trim m.inner) = endTag then return some ([], m, rest)
    match ← rawEnd? endTag (pos + c.utf8Size) cs with
    | some (before, m, rest) => return some (c :: before, m, rest)
    | none => return none

def isTagNamePart (c : Char) : Bool := c.isAlphanum || c = '_'

def tagName (inner : List Char) : List Char := (Text.trimStart inner).takeWhile isTagNamePart

def tagArgs (inner : List Char) : List Char := (Text.trimStart inner).dropWhile isTagNamePart

/-- The tag that markup states. -/
def toTag (m : Markup) : Except SyntaxError Piece :=
  if tagName m.inner = [] then .error ⟨.tagNameExpected, m.span⟩
  else .ok (.tag (String.ofList (tagName m.inner)) (String.ofList (tagArgs m.inner))
    (m.offset + (byteLength m.inner - byteLength (tagArgs m.inner))) m.span)

end Markup

namespace Piece

/-- The text between two pieces of markup, if any is left of it. -/
def ofText (trimStart trimEnd : Bool) (cs : List Char) : List Piece :=
  let cs := if trimStart then Text.trimStart cs else cs
  let cs := if trimEnd then Text.trimEnd cs else cs
  if cs.isEmpty then [] else [.text (String.ofList cs)]

end Piece

namespace Markup

theorem length_opening? {cs before rest : List Char} {d : Delimiter}
    (h : opening? cs = some (before, d, rest)) : rest.length < cs.length := by
  induction cs generalizing before with
  | nil => cases h
  | cons c cs ih =>
    simp only [opening?] at h
    split at h
    · cases h
      simp only [List.length_cons]
      omega
    · cases h
      simp only [List.length_cons]
      omega
    · obtain ⟨⟨before', d', rest'⟩, h', he⟩ := Option.map_eq_some_iff.mp h
      cases he
      exact Nat.lt_succ_of_lt (ih h')

theorem length_close? {d : Delimiter} {quotes : Bool} {quoted : Option Char}
    {cs body rest : List Char} (h : close? d quotes quoted cs = some (body, rest)) :
    rest.length ≤ cs.length := by
  induction cs generalizing quoted body with
  | nil => cases quoted <;> cases h
  | cons c cs ih =>
    have step : ∀ {q : Option Char},
        (close? d quotes q cs).map (fun (body, rest) => (c :: body, rest)) = some (body, rest) →
        rest.length ≤ (c :: cs).length := by
      intro q h
      obtain ⟨⟨body', rest'⟩, h', he⟩ := Option.map_eq_some_iff.mp h
      cases he
      exact Nat.le_succ_of_le (ih h')
    cases quoted with
    | some q => exact step h
    | none =>
      simp only [close?] at h
      split at h
      · exact step h
      · split at h
        · cases h
          simp only [List.length_tail, List.length_cons]
          omega
        · exact step h

theorem length_read? {pos : Nat} {d : Delimiter} {cs rest : List Char} {m : Markup}
    (h : read? pos d cs = some (m, rest)) : rest.length ≤ cs.length := by
  simp only [read?, Option.bind_eq_bind, Option.bind_eq_some_iff] at h
  obtain ⟨⟨body, rest'⟩, h', he⟩ := h
  cases he
  refine Nat.le_trans (length_close? h') ?_
  split <;> simp

theorem length_next? {pos : Nat} {cs before rest : List Char} {m : Markup}
    (h : next? pos cs = .ok (some (before, m, rest))) : rest.length < cs.length := by
  unfold next? at h
  split at h
  · cases h
  · rename_i ho
    simp only at h
    split at h
    · rename_i hr
      cases h
      exact Nat.lt_of_le_of_lt (length_read? hr) (length_opening? ho)
    · cases h

theorem length_rawEnd? {endTag : String} {pos : Nat} {cs before rest : List Char} {m : Markup}
    (h : rawEnd? endTag pos cs = .ok (some (before, m, rest))) : rest.length ≤ cs.length := by
  induction cs generalizing pos before with
  | nil => cases h
  | cons c cs ih =>
    have step : (do
        match ← rawEnd? endTag (pos + c.utf8Size) cs with
        | some (before, m, rest) => return some (c :: before, m, rest)
        | none => return none : Except SyntaxError _) = .ok (some (before, m, rest)) →
        rest.length ≤ (c :: cs).length := by
      intro h
      cases hr : rawEnd? endTag (pos + c.utf8Size) cs with
      | error e => rw [hr] at h; cases h
      | ok found =>
        rw [hr] at h
        match found, h with
        | some (before', m', rest'), h =>
          cases h
          exact Nat.le_succ_of_le (ih hr)
    simp only [rawEnd?] at h
    split at h
    · split at h
      · cases h
      · rename_i hr
        split at h
        · cases h
          have := length_read? hr
          simp only [List.length_tail, List.length_cons] at *
          omega
        · exact step h
    · exact step h

end Markup

namespace Piece

/-- The pieces of the rest of a template. `trim` says whether blanks at the start go, and `rawEnd?`
gives the tag that ends a raw block of a name. -/
def scanFrom (rawEnd? : String → Option String) (pos : Nat) (trim : Bool) (cs : List Char) :
    Except SyntaxError (List Piece) :=
  match _h : Markup.next? pos cs with
  | .error e => .error e
  | .ok none => .ok (ofText trim false cs)
  | .ok (some (before, m, rest)) => do
    let text := ofText trim m.trimBefore before
    match m.delimiter with
    | .output =>
      let pieces ← scanFrom rawEnd? m.span.stop m.trimAfter rest
      return text ++ .output (String.ofList m.inner) m.offset m.span :: pieces
    | .tag =>
      if Markup.isComment m.inner then
        let pieces ← scanFrom rawEnd? m.span.stop m.trimAfter rest
        return text ++ pieces
      else
        let name := String.ofList (Markup.tagName m.inner)
        let tag ← m.toTag
        match rawEnd? name with
        | none =>
          let pieces ← scanFrom rawEnd? m.span.stop m.trimAfter rest
          return text ++ tag :: pieces
        | some endTag =>
          match _hr : Markup.rawEnd? endTag m.span.stop rest with
          | .error e => throw e
          | .ok none => throw ⟨.unclosedBlock name endTag, m.span⟩
          | .ok (some (body, last, rest')) =>
            let endPiece ← last.toTag
            let pieces ← scanFrom rawEnd? last.span.stop last.trimAfter rest'
            return text ++ tag :: ofText m.trimAfter last.trimBefore body ++ endPiece :: pieces
termination_by cs.length
decreasing_by
  all_goals have := Markup.length_next? _h
  · exact this
  · exact this
  · exact this
  · exact Nat.lt_of_le_of_lt (Markup.length_rawEnd? _hr) this

/-- The pieces of a template. -/
def scan (rawEnd? : String → Option String) (source : String) : Except SyntaxError (List Piece) :=
  scanFrom rawEnd? 0 false source.toList

end Piece

end Stencil
