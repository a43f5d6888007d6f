import Stencil.Proofs.Markup

/-!
# Scanning step by step

What one piece of markup adds to the pieces of the text after it, and what the place of a text does
to its pieces: where the text starts further on, the ranges that it states are further on, and
nothing else changes.
-/
namespace Stencil

namespace Piece

open Markup

/-- The pieces of markup and of what follows it, after those of the text before it. -/
def scanMarkup (rawEnd? : String → Option String) (text : List Piece) (m : Markup)
    (rest : List Char) : Except SyntaxError (List Piece) :=
  match m.delimiter with
  | .output => do
    let pieces ← scanFrom rawEnd? m.span.stop m.trimAfter rest
    return text ++ .output (String.ofList m.inner) m.offset m.span :: pieces
  | .tag =>
    if isComment m.inner then do
      let pieces ← scanFrom rawEnd? m.span.stop m.trimAfter rest
      return text ++ pieces
    else do
      let name := String.ofList (tagName m.inner)
      let tag ← m.toTag
      match rawEnd? name with
      | none =>
        let pieces ← scanFrom rawEnd? m.span.stop m.trimAfter rest
        return text ++ tag :: pieces
      | some endTag =>
        match ← Markup.rawEnd? endTag m.span.stop rest with
        | none => throw ⟨.unclosedBlock name endTag, m.span⟩
        | some (body, last, rest') =>
          let endPiece ← last.toTag
          let pieces ← scanFrom rawEnd? last.span.stop last.trimAfter rest'
          return text ++ tag :: ofText m.trimAfter last.trimBefore body ++ endPiece :: pieces

variable {rawEnd? : String → Option String} {pos : Nat} {trim : Bool} {cs before rest : List Char}
  {m : Markup} {e : SyntaxError}

theorem scanFrom_of_error (hnext : next? pos cs = .error e) :
    scanFrom rawEnd? pos trim cs = .error e := by
  rw [scanFrom]
  split <;> simp_all

theorem scanFrom_of_none (hnext : next? pos cs = .ok none) :
    scanFrom rawEnd? pos trim cs = .ok (ofText trim false cs) := by
  rw [scanFrom]
  split <;> simp_all

theorem scanFrom_of_some (rawEnd? : String → Option String) (trim : Bool)
    (hnext : next? pos cs = .ok (some (before, m, rest))) :
    scanFrom rawEnd? pos trim cs
      = scanMarkup rawEnd? (ofText trim m.trimBefore before) m rest := by
  rw [scanFrom]
  split
  · simp_all
  · simp_all
  · rename_i before' m' rest' h
    rw [hnext] at h
    cases h
    rw [scanMarkup]
    cases hd : m.delimiter with
    | output => rfl
    | tag =>
      by_cases hc : isComment m.inner
      · simp [hc]
      · simp only [hc, Bool.false_eq_true, ↓reduceIte]
        cases ht : m.toTag with
        | error e => rfl
        | ok tag =>
          refine congrArg (Except.ok tag >>= ·) (funext fun tag => ?_)
          cases rawEnd? (String.ofList (tagName m.inner)) with
          | none => rfl
          | some endTag =>
            simp only
            split
            · rename_i hraw
              rw [hraw]
              rfl
            · rename_i hraw
              rw [hraw]
              rfl
            · rename_i hraw
              rw [hraw]
              rfl

end Piece

namespace Markup

/-- Markup that was found in a text, with what stands before and after it. -/
abbrev Found := Option (List Char × Markup × List Char)

def Found.prepend (c : Char) (found : Found) : Found :=
  found.map fun (before, m, rest) => (c :: before, m, rest)

theorem rawEnd?_cons (endTag : String) (pos : Nat) (c : Char) (cs : List Char) :
    rawEnd? endTag pos (c :: cs) =
      if c = '{' ∧ cs.head? = some '%' then
        match read? pos .tag cs.tail with
        | none => .error (unclosed .tag pos (pos + byteLength (c :: cs)))
        | some (m, rest) =>
          if String.ofList (Text.trim m.inner) = endTag then .ok (some ([], m, rest))
          else (rawEnd? endTag (pos + c.utf8Size) cs).map (Found.prepend c)
      else (rawEnd? endTag (pos + c.utf8Size) cs).map (Found.prepend c) := by
  have hlater (found : Except SyntaxError Found) :
      (do match ← found with
          | some (before, m, rest) => return some (c :: before, m, rest)
          | none => return none : Except SyntaxError Found) = found.map (Found.prepend c) := by
    rcases found with e | _ | found <;> rfl
  rw [rawEnd?, ← hlater]
  split
  · cases read? pos .tag cs.tail with
    | none => rfl
    | some found =>
      simp only
      split <;> rfl
  · rfl

end Markup

def SyntaxError.shift (base : Nat) (e : SyntaxError) : SyntaxError :=
  { e with span := e.span.shift base }

/-- What a reader gives whose text starts `base` bytes further on. -/
def shifted {α : Type} (base : Nat) (f : α → α) : Except SyntaxError α → Except SyntaxError α
  | .ok a => .ok (f a)
  | .error e => .error (e.shift base)

theorem shifted_bind {α β : Type} {base : Nat} {f : α → α} {g : β → β}
    {x : Except SyntaxError α} {k k' : α → Except SyntaxError β}
    (h : ∀ a, k' (f a) = shifted base g (k a)) :
    shifted base f x >>= k' = shifted base g (x >>= k) := by
  cases x with
  | error e => rfl
  | ok a => exact h a

def Markup.shift (base : Nat) (m : Markup) : Markup :=
  { m with offset := m.offset + base, span := m.span.shift base }

def Markup.Found.shift (base : Nat) (found : Found) : Found :=
  found.map fun (before, m, rest) => (before, m.shift base, rest)

def Piece.shift (base : Nat) : Piece → Piece
  | .text s => .text s
  | .output body offset span => .output body (offset + base) (span.shift base)
  | .tag name args offset span => .tag name args (offset + base) (span.shift base)

namespace Markup

variable (base : Nat)

theorem read?_shift (pos : Nat) (d : Delimiter) (cs : List Char) :
    read? (pos + base) d cs = (read? pos d cs).map (Prod.map (shift base) id) := by
  simp only [read?, Option.bind_eq_bind, Option.map_bind]
  refine Option.bind_congr fun closed _ => ?_
  obtain ⟨body, rest⟩ := closed
  simp only [Option.pure_def, Function.comp_apply, Option.map_some, Prod.map_apply, id_eq, shift,
    Span.shift, Option.some.injEq, Prod.mk.injEq, Markup.mk.injEq, Span.mk.injEq, and_true,
    true_and]
  omega

theorem next?_shift (pos : Nat) (cs : List Char) :
    next? (pos + base) cs = shifted base (Found.shift base) (next? pos cs) := by
  unfold next?
  cases opening? cs with
  | none => rfl
  | some found =>
    obtain ⟨before, d, rest⟩ := found
    have hstart : pos + base + byteLength before = pos + byteLength before + base := by omega
    have hstop : pos + base + byteLength cs = pos + byteLength cs + base := by omega
    simp only
    rw [hstart, hstop, read?_shift]
    cases read? (pos + byteLength before) d rest with
    | none => rfl
    | some found => rfl

theorem rawEnd?_shift (endTag : String) (pos : Nat) (cs : List Char) :
    rawEnd? endTag (pos + base) cs = shifted base (Found.shift base) (rawEnd? endTag pos cs) := by
  induction cs generalizing pos with
  | nil => rfl
  | cons c cs ih =>
    have hpos : pos + base + c.utf8Size = pos + c.utf8Size + base := by omega
    have hstop : pos + base + byteLength (c :: cs) = pos + byteLength (c :: cs) + base := by omega
    have hlater : (rawEnd? endTag (pos + base + c.utf8Size) cs).map (Found.prepend c)
        = shifted base (Found.shift base)
          ((rawEnd? endTag (pos + c.utf8Size) cs).map (Found.prepend c)) := by
      rw [hpos, ih]
      rcases rawEnd? endTag (pos + c.utf8Size) cs with e | _ | found <;> rfl
    rw [rawEnd?_cons, rawEnd?_cons, hlater, hstop, read?_shift]
    split
    · rcases read? pos .tag cs.tail with _ | ⟨m, rest⟩
      · rfl
      · simp only [Option.map_some, Prod.map_apply, id_eq, shift]
        split <;> rfl
    · rfl

@[simp] theorem delimiter_shift (m : Markup) : (m.shift base).delimiter = m.delimiter := rfl

@[simp] theorem inner_shift (m : Markup) : (m.shift base).inner = m.inner := rfl

@[simp] theorem trimAfter_shift (m : Markup) : (m.shift base).trimAfter = m.trimAfter := rfl

theorem toTag_shift (m : Markup) :
    (m.shift base).toTag = shifted base (Piece.shift base) m.toTag := by
  simp only [toTag, inner_shift]
  by_cases hname : tagName m.inner = []
  · simp only [hname, if_true]
    rfl
  · simp only [hname, if_false, shifted, Piece.shift, Except.ok.injEq, Piece.tag.injEq, shift,
      true_and, and_true]
    omega

end Markup

namespace Piece

open Markup

variable (rawEnd? : String → Option String) (base : Nat)

theorem map_shift_ofText (trimStart trimEnd : Bool) (cs : List Char) :
    (ofText trimStart trimEnd cs).map (shift base) = ofText trimStart trimEnd cs := by
  have hleft : ∀ left : List Char,
      (if left.isEmpty then [] else [text (String.ofList left)]).map (shift base)
        = if left.isEmpty then [] else [text (String.ofList left)] := by
    intro left
    split <;> rfl
  exact hleft _

theorem scanMarkup_shift {text : List Piece} (htext : text.map (shift base) = text) (m : Markup)
    (rest : List Char)
    (hscan : ∀ (n : Markup) (rest' : List Char), rest'.length ≤ rest.length →
      scanFrom rawEnd? (n.shift base).span.stop n.trimAfter rest'
        = shifted base (List.map (shift base)) (scanFrom rawEnd? n.span.stop n.trimAfter rest')) :
    scanMarkup rawEnd? text (m.shift base) rest
      = shifted base (List.map (shift base)) (scanMarkup rawEnd? text m rest) := by
  have hrest := hscan m rest (Nat.le_refl _)
  simp only [scanMarkup, delimiter_shift, inner_shift, trimAfter_shift, hrest]
  cases m.delimiter with
  | output =>
    refine shifted_bind fun pieces => ?_
    simp only [pure, Except.pure, shifted, List.map_append, List.map_cons, htext, shift]
    rfl
  | tag =>
    by_cases hc : isComment m.inner
    · simp only [hc, if_true]
      refine shifted_bind fun pieces => ?_
      simp only [pure, Except.pure, shifted, List.map_append, htext]
    · simp only [hc, Bool.false_eq_true, if_false, toTag_shift]
      refine shifted_bind fun tag => ?_
      cases rawEnd? (String.ofList (tagName m.inner)) with
      | none =>
        refine shifted_bind fun pieces => ?_
        simp only [pure, Except.pure, shifted, List.map_append, List.map_cons, htext]
      | some endTag =>
        have hraw := rawEnd?_shift base endTag m.span.stop rest
        change Markup.rawEnd? endTag (m.shift base).span.stop rest = _ at hraw
        simp only [hraw]
        rcases hfound : Markup.rawEnd? endTag m.span.stop rest with e | _ | ⟨body, last, rest'⟩
        · rfl
        · rfl
        · have hlength := length_rawEnd? hfound
          change (last.shift base).toTag >>= _ = shifted base _ (last.toTag >>= _)
          rw [toTag_shift]
          refine shifted_bind fun endPiece => ?_
          simp only [hscan last rest' hlength, trimAfter_shift]
          refine shifted_bind fun pieces => ?_
          simp only [pure, Except.pure, shifted, List.map_append, List.map_cons, htext,
            map_shift_ofText]
          rfl

/-- The pieces of a text that starts further on are its pieces, further on. -/
theorem scanFrom_shift (pos : Nat) (trim : Bool) (cs : List Char) :
    scanFrom rawEnd? (pos + base) trim cs
      = shifted base (List.map (shift base)) (scanFrom rawEnd? pos trim cs) := by
  have hnext := next?_shift base pos cs
  rcases hfound : next? pos cs with e | _ | ⟨before, m, rest⟩
  · rw [hfound] at hnext
    rw [scanFrom_of_error hfound, scanFrom_of_error hnext]
    rfl
  · rw [hfound] at hnext
    rw [scanFrom_of_none hfound, scanFrom_of_none hnext, shifted, map_shift_ofText]
  · rw [hfound] at hnext
    rw [scanFrom_of_some _ _ hfound, scanFrom_of_some _ _ hnext]
    refine scanMarkup_shift rawEnd? base (map_shift_ofText base _ _ _) m rest fun n rest' hle => ?_
    have := length_next? hfound
    exact scanFrom_shift n.span.stop n.trimAfter rest'
termination_by cs.length

end Piece

namespace Markup

/-- No opening delimiter stands in the text. -/
def Clear (cs : List Char) : Prop := ∀ d : Delimiter, ¬ d.opening.toList <:+: cs

theorem opening?_of_clear {cs : List Char} (h : Clear cs) : opening? cs = none := by
  rcases hfound : opening? cs with _ | ⟨before, d, rest⟩
  · rfl
  · exact absurd ⟨before, rest, (opening?_eq_some hfound).1.symm⟩ (h d)

theorem toList_opening (d : Delimiter) : ∃ c, d.opening.toList = ['{', c] := by
  cases d with
  | output => exact ⟨'{', rfl⟩
  | tag => exact ⟨'%', rfl⟩

/-- A brace at the end could open markup with what comes next. -/
theorem Clear.plain {cs : List Char} (h : Clear cs) (hbrace : cs.getLast? ≠ some '{')
    (ds : List Char) : Plain cs ds := by
  intro d before after he
  obtain ⟨o, ho⟩ := toList_opening d
  rw [List.append_assoc] at he
  rcases List.append_eq_append_iff.mp he with ⟨t, hbefore, -⟩ | ⟨t, hcs, hrest⟩
  · rw [hbefore, List.length_append]
    exact Nat.le_add_right _ _
  · rw [ho] at hrest
    match t, hrest with
    | [], _ => simp [hcs]
    | [c], hrest =>
      have hc : '{' = c := (List.cons.inj hrest).1
      exact absurd (by rw [hcs, ← hc]; simp) hbrace
    | c :: c' :: t, hrest =>
      have hc : '{' = c := (List.cons.inj hrest).1
      have hc' : o = c' := (List.cons.inj (List.cons.inj hrest).2).1
      exact absurd ⟨before, t, by rw [ho, hcs, hc, hc']; simp⟩ (h d)

theorem opening?_append {before : List Char} {d : Delimiter} {rest : List Char}
    (h : Plain before (d.opening.toList ++ rest)) :
    opening? (before ++ d.opening.toList ++ rest) = some (before, d, rest) := by
  induction before with
  | nil => cases d <;> rfl
  | cons c before ih =>
    have htail : Plain before (d.opening.toList ++ rest) := by
      intro d' front back he
      have := h d' (c :: front) back (by rw [List.cons_append, he]; rfl)
      simpa using this
    have hnot (d' : Delimiter) (back : List Char) :
        c :: (before ++ d.opening.toList ++ rest) ≠ d'.opening.toList ++ back := by
      intro he
      have := h d' [] back (by simpa using he)
      simp at this
    rw [List.cons_append, List.cons_append, opening?, ih htail]
    · rfl
    · intro tail hc hcs
      exact hnot .output tail (by rw [hc, hcs]; rfl)
    · intro tail hc hcs
      exact hnot .tag tail (by rw [hc, hcs]; rfl)

/-- Markup without dashes, read up to where it is closed. -/
theorem read?_of_close {pos : Nat} {d : Delimiter} {inside body rest : List Char}
    (hbefore : inside.head? ≠ some '-') (hafter : body.getLast? ≠ some '-')
    (hclose : close? d (!(d = .tag && isComment inside)) none inside = some (body, rest)) :
    read? pos d inside =
      some (⟨d, body, pos + 2, ⟨pos, pos + 2 + byteLength body + 2⟩, false, false⟩, rest) := by
  simp only [read?, if_neg hbefore, decide_eq_false hbefore, Nat.add_zero, Option.bind_eq_bind,
    hclose, Option.bind_some, if_neg hafter, decide_eq_false hafter, Option.pure_def]

theorem next?_append (pos : Nat) {before inside rest : List Char} {d : Delimiter} {m : Markup}
    (hplain : Plain before (d.opening.toList ++ inside))
    (hread : read? (pos + byteLength before) d inside = some (m, rest)) :
    next? pos (before ++ d.opening.toList ++ inside) = .ok (some (before, m, rest)) := by
  rw [next?, opening?_append hplain]
  simp only [hread]

end Markup

namespace Piece

open Markup

variable {rawEnd? : String → Option String} {text : List Piece} {m : Markup} {rest : List Char}

theorem scanMarkup_output (hd : m.delimiter = .output) :
    scanMarkup rawEnd? text m rest = (scanFrom rawEnd? m.span.stop m.trimAfter rest).map
      ((text ++ [.output (String.ofList m.inner) m.offset m.span]) ++ ·) := by
  rw [scanMarkup, hd]
  cases scanFrom rawEnd? m.span.stop m.trimAfter rest with
  | error e => rfl
  | ok pieces => exact congrArg Except.ok (by simp)

theorem scanMarkup_tag {tag : Piece} (hd : m.delimiter = .tag) (htag : m.toTag = .ok tag)
    (hname : rawEnd? (String.ofList (tagName m.inner)) = none) :
    scanMarkup rawEnd? text m rest = (scanFrom rawEnd? m.span.stop m.trimAfter rest).map
      ((text ++ [tag]) ++ ·) := by
  have hcomment : isComment m.inner = false := isComment_eq_false_of_tagName (toTag_eq_ok htag).1
  rw [scanMarkup, hd]
  simp only [hcomment, Bool.false_eq_true, if_false, htag, hname]
  cases scanFrom rawEnd? m.span.stop m.trimAfter rest with
  | error e => rfl
  | ok pieces => exact congrArg Except.ok (by simp)

theorem scanMarkup_raw {tag endPiece : Piece} {endTag : String} {last : Markup}
    {body rest' : List Char} (hd : m.delimiter = .tag) (htag : m.toTag = .ok tag)
    (hname : rawEnd? (String.ofList (tagName m.inner)) = some endTag)
    (hraw : Markup.rawEnd? endTag m.span.stop rest = .ok (some (body, last, rest')))
    (hend : last.toTag = .ok endPiece) :
    scanMarkup rawEnd? text m rest = (scanFrom rawEnd? last.span.stop last.trimAfter rest').map
      ((text ++ tag :: ofText m.trimAfter last.trimBefore body ++ [endPiece]) ++ ·) := by
  have hcomment : isComment m.inner = false := isComment_eq_false_of_tagName (toTag_eq_ok htag).1
  rw [scanMarkup, hd]
  simp only [hcomment, Bool.false_eq_true, if_false, htag, hname, hraw]
  simp only [bind, Except.bind, hend]
  cases scanFrom rawEnd? last.span.stop last.trimAfter rest' with
  | error e => rfl
  | ok pieces => exact congrArg Except.ok (by simp)

/-- Some pieces, and those of a text that starts at `stop` after them. -/
def followedBy (pieces : List Piece) (stop : Nat) (later : Except SyntaxError (List Piece)) :
    Except SyntaxError (List Piece) :=
  (shifted stop (List.map (shift stop)) later).map (pieces ++ ·)

theorem map_scanFrom (pieces : List Piece) (stop : Nat) (after : String) :
    (scanFrom rawEnd? stop false after.toList).map (pieces ++ ·)
      = followedBy pieces stop (scan rawEnd? after) := by
  rw [followedBy, scan, ← scanFrom_shift, Nat.zero_add]

end Piece

end Stencil
